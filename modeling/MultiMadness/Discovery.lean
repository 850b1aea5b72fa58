import Mathlib.Data.List.Induction
import MultiMadness.PollLib.Poll
import MultiMadness.Focus
/-!
# Finding a client's window

`discovery.cpp`. The main window of a process is the first one of the wanted
class, or else the largest one. A client that has just been launched is asked
for it until it has one, it exits or the time is over. The desktop may change
between any two looks.

- `main_found`, `main_missed`: which window it is.
- `window_awaited`: when the wait ends, and with what.
-/

namespace MultiMadness

open PollLib

/-- A top-level window, as `EnumWindows` meets it. A title nobody compares is left out. -/
structure TopWindow where
  hwnd : Hwnd
  pid : UInt32
  visible : Bool := true
  owned : Bool := false
  /-- Empty where `GetClassNameW` fails. -/
  className : String := ""
  rect : Rect := {}

/-- `top_level_windows`; 0 stands for every process. -/
def topLevelWindows (desktop : List TopWindow) (pid : UInt32) : List TopWindow :=
  desktop.filter fun w => (pid = 0 || w.pid = pid) && w.visible && !w.owned

/-- In 64 bits, so that the product of two 32-bit sides is exact. -/
def area (w : TopWindow) : Int := w.rect.w * w.rect.h

/-- The loop over the areas: the best window so far, and its area. -/
def largest (windows : List TopWindow) : Option TopWindow × Int :=
  windows.foldl (fun best w => if area w > best.2 then (some w, area w) else best) (none, 0)

def findMainWindow (desktop : List TopWindow) (pid : UInt32) (classHint : Option String) : Option Hwnd :=
  let windows := topLevelWindows desktop pid
  let hinted := classHint.bind fun hint => if hint = "" then none else windows.find? fun w => w.className = hint
  match hinted with
  | some w => some w.hwnd
  | none => (largest windows).1.map (·.hwnd)

/-- What the system shows to one wait. -/
structure Watched where
  /-- At the `n`-th look. -/
  desktop : Nat → List TopWindow
  /-- Whether the process is found to have exited after the `n`-th look, where there is one to ask for. -/
  exited : Nat → Bool
  clock : Nat → UInt64
  frequency : UInt64

/-- `wait_for_main_window`, with the number of its last look. -/
def waitForMainWindow (ans : Watched) (pid : UInt32) (classHint : Option String) (timeoutMs : UInt32) (fuel : Nat) :
    Option (Nat × Option Hwnd) :=
  let deadline := deadlineAt (ans.clock 0) ans.frequency timeoutMs
  poll (fun i => findMainWindow (ans.desktop i) pid classHint)
    (fun i => ans.exited i || !decide (ans.clock (i + 1) < deadline)) fuel 0

/-! ## Which window -/

/-- The first window of the largest area, if that is positive. -/
inductive Largest (windows : List TopWindow) : Option TopWindow × Int → Prop where
  | none (h : ∀ w ∈ windows, area w ≤ 0) : Largest windows (none, 0)
  | some (before : List TopWindow) (w : TopWindow) (after : List TopWindow) (he : windows = before ++ w :: after)
      (hw : 0 < area w) (hb : ∀ v ∈ before, area v < area w) (ha : ∀ v ∈ after, area v ≤ area w) :
      Largest windows (some w, area w)

theorem Largest.le {windows : List TopWindow} {best : Option TopWindow × Int} (h : Largest windows best) :
    0 ≤ best.2 ∧ ∀ v ∈ windows, area v ≤ best.2 := by
  cases h with
  | none h => exact ⟨le_rfl, h⟩
  | some before w after he hw hb ha =>
    refine ⟨hw.le, ?_⟩
    rw [he]
    intro v hv
    rcases List.mem_append.1 hv with hv | hv
    · exact (hb v hv).le
    · rcases List.mem_cons.1 hv with rfl | hv
      · exact le_rfl
      · exact ha v hv

theorem largest_spec (windows : List TopWindow) : Largest windows (largest windows) := by
  induction windows using List.reverseRecOn with
  | nil => exact .none nofun
  | append_singleton l w ih =>
    have hl : largest (l ++ [w]) = if area w > (largest l).2 then (some w, area w) else largest l := by
      rw [largest, List.foldl_append]
      rfl
    rw [hl]
    obtain ⟨h0, hle⟩ := ih.le
    by_cases hw : area w > (largest l).2
    · rw [if_pos hw]
      exact .some l w [] rfl (lt_of_le_of_lt h0 hw) (fun v hv => lt_of_le_of_lt (hle v hv) hw) nofun
    · rw [if_neg hw]
      -- The best window stays, with one more after it.
      generalize largest l = best at ih hw
      cases ih with
      | none h =>
        refine .none fun v hv => ?_
        rcases List.mem_append.1 hv with hv | hv
        · exact h v hv
        · rw [List.mem_singleton.1 hv]; exact not_lt.1 hw
      | some before b after he hb hbefore hafter =>
        refine .some before b (after ++ [w]) (by rw [he, List.append_assoc, List.cons_append]) hb hbefore fun v hv => ?_
        rcases List.mem_append.1 hv with hv | hv
        · exact hafter v hv
        · rw [List.mem_singleton.1 hv]; exact not_lt.1 hw

/-- The window has the wanted class. -/
def Hinted (classHint : Option String) (w : TopWindow) : Prop := classHint = some w.className ∧ w.className ≠ ""

instance (classHint : Option String) (w : TopWindow) : Decidable (Hinted classHint w) :=
  inferInstanceAs (Decidable (_ ∧ _))

section Main
variable {desktop : List TopWindow} {pid : UInt32} {classHint : Option String} {hwnd : Hwnd}

theorem mem_topLevelWindows {w : TopWindow} : w ∈ topLevelWindows desktop pid ↔
    w ∈ desktop ∧ (pid = 0 ∨ w.pid = pid) ∧ w.visible = true ∧ w.owned = false := by
  simp [topLevelWindows, and_assoc]

theorem hinted_find (windows : List TopWindow) :
    (classHint.bind fun hint => if hint = "" then none else windows.find? fun w => w.className = hint) =
      windows.find? fun w => Hinted classHint w := by
  cases classHint with
  | none => exact (List.find?_eq_none.2 fun w _ => by simp [Hinted]).symm
  | some hint =>
    rw [Option.bind_some]
    by_cases he : hint = ""
    · rw [if_pos he, he]
      refine (List.find?_eq_none.2 fun w _ h => ?_).symm
      obtain ⟨hc, hne⟩ := of_decide_eq_true h
      exact hne (Option.some.inj hc).symm
    · rw [if_neg he]
      congr 1
      funext w
      rw [decide_eq_decide, Hinted, Option.some.injEq]
      exact ⟨fun h => ⟨h.symm, h ▸ he⟩, fun h => h.1.symm⟩

theorem findMainWindow_eq : findMainWindow desktop pid classHint =
    match (topLevelWindows desktop pid).find? fun w => Hinted classHint w with
    | some w => some w.hwnd
    | none => (largest (topLevelWindows desktop pid)).1.map (·.hwnd) := by
  rw [← hinted_find]
  rfl

/-- The main window of a process: visible, without an owner, and the first of
the wanted class, or the first of the largest area where there is none. -/
structure IsMain (desktop : List TopWindow) (pid : UInt32) (classHint : Option String) (w : TopWindow) : Prop where
  mem : w ∈ desktop
  own : pid = 0 ∨ w.pid = pid
  shown : w.visible = true ∧ w.owned = false
  first : ∃ before after, topLevelWindows desktop pid = before ++ w :: after ∧
    (Hinted classHint w ∧ (∀ v ∈ before, ¬ Hinted classHint v) ∨
      (∀ v ∈ topLevelWindows desktop pid, ¬ Hinted classHint v) ∧ 0 < area w ∧ (∀ v ∈ before, area v < area w) ∧
        ∀ v ∈ after, area v ≤ area w)

theorem isMain_of {w : TopWindow} {before after : List TopWindow}
    (he : topLevelWindows desktop pid = before ++ w :: after)
    (h : Hinted classHint w ∧ (∀ v ∈ before, ¬ Hinted classHint v) ∨
      (∀ v ∈ topLevelWindows desktop pid, ¬ Hinted classHint v) ∧ 0 < area w ∧ (∀ v ∈ before, area v < area w) ∧
        ∀ v ∈ after, area v ≤ area w) : IsMain desktop pid classHint w := by
  have hmem : w ∈ topLevelWindows desktop pid := by rw [he]; simp
  obtain ⟨hd, hp, hs⟩ := mem_topLevelWindows.1 hmem
  exact ⟨hd, hp, hs, before, after, he, h⟩

theorem main_found (h : findMainWindow desktop pid classHint = some hwnd) :
    ∃ w, w.hwnd = hwnd ∧ IsMain desktop pid classHint w := by
  rw [findMainWindow_eq] at h
  split at h
  · next w hw =>
    cases h
    obtain ⟨hhint, before, after, he, hb⟩ := List.find?_eq_some_iff_append.1 hw
    exact ⟨w, rfl, isMain_of he (.inl ⟨of_decide_eq_true hhint, fun v hv => by simpa using hb v hv⟩)⟩
  · next hnone =>
    have hno : ∀ v ∈ topLevelWindows desktop pid, ¬ Hinted classHint v := fun v hv => by
      simpa using List.find?_eq_none.1 hnone v hv
    have hl := largest_spec (topLevelWindows desktop pid)
    generalize largest (topLevelWindows desktop pid) = best at h hl
    cases hl with
    | none hle => cases h
    | some before w after he hw hb ha =>
      cases h
      exact ⟨w, rfl, isMain_of he (.inr ⟨hno, hw, hb, ha⟩)⟩

theorem main_missed (h : findMainWindow desktop pid classHint = none) :
    ∀ w ∈ topLevelWindows desktop pid, ¬ Hinted classHint w ∧ area w ≤ 0 := by
  rw [findMainWindow_eq] at h
  split at h
  · cases h
  · next hnone =>
    have hl := largest_spec (topLevelWindows desktop pid)
    generalize largest (topLevelWindows desktop pid) = best at h hl
    cases hl with
    | none hle => exact fun w hw => ⟨by simpa using List.find?_eq_none.1 hnone w hw, hle w hw⟩
    | some before w after he hw hb ha => cases h

end Main

/-! ## The wait -/

/-- How a wait for the window of a process ends, at its `i`-th look. -/
structure Awaited (ans : Watched) (pid : UInt32) (classHint : Option String) (timeoutMs : UInt32) (i : Nat)
    (r : Option Hwnd) : Prop where
  /-- The window is the main one at this moment. -/
  found : ∀ hwnd, r = some hwnd → ∃ w, w.hwnd = hwnd ∧ IsMain (ans.desktop i) pid classHint w
  /-- Before, and without one now, no window would have done. -/
  missed : ∀ j, j < i ∨ j = i ∧ r = none →
    ∀ w ∈ topLevelWindows (ans.desktop j) pid, ¬ Hinted classHint w ∧ area w ≤ 0
  /-- The process was there all the time, and the time was not over. -/
  waited : ∀ j < i, ans.exited j = false ∧ ans.clock (j + 1) < deadlineAt (ans.clock 0) ans.frequency timeoutMs
  /-- It gives up a client that is still there after the whole time only. -/
  patient : r = none → ans.exited i = false → ans.frequency.toNat * timeoutMs.toNat < 2 ^ 64 →
    (ans.clock 0).toNat + ans.frequency.toNat * timeoutMs.toNat / 1000 < 2 ^ 64 →
    (ans.clock 0).toNat + ans.frequency.toNat * timeoutMs.toNat / 1000 ≤ (ans.clock (i + 1)).toNat

theorem awaited_of_poll {ans : Watched} {pid : UInt32} {classHint : Option String} {timeoutMs : UInt32} {fuel i : Nat}
    {r : Option Hwnd} (h : waitForMainWindow ans pid classHint timeoutMs fuel = some (i, r)) :
    Awaited ans pid classHint timeoutMs i r := by
  obtain ⟨-, hon, hstop, rfl⟩ := poll_eq_some.1 h
  refine ⟨fun hwnd hf => main_found hf, ?_, ?_, ?_⟩
  · rintro j (hj | ⟨rfl, hnone⟩)
    · exact main_missed (hon j (Nat.zero_le _) hj).1
    · exact main_missed hnone
  · intro j hj
    have hover := (hon j (Nat.zero_le _) hj).2
    simpa using hover
  · intro hnone halive hm hs
    have hover : ¬ ans.clock (i + 1) < deadlineAt (ans.clock 0) ans.frequency timeoutMs := fun hlt =>
      hstop ⟨hnone, by simp [halive, hlt]⟩
    rw [← deadlineAt_toNat hm hs]
    exact UInt64.le_iff_toNat_le.1 (UInt64.not_lt.1 hover)

/-- Whatever happens on the desktop, the wait ends when the clock passes its
deadline, if not before, and then as it should. -/
theorem window_awaited (ans : Watched) (pid : UInt32) (classHint : Option String) (timeoutMs : UInt32) (n : Nat)
    (hclock : ¬ ans.clock (n + 1) < deadlineAt (ans.clock 0) ans.frequency timeoutMs) :
    ∃ i r, (∀ fuel, n < fuel → waitForMainWindow ans pid classHint timeoutMs fuel = some (i, r)) ∧ i ≤ n ∧
      Awaited ans pid classHint timeoutMs i r := by
  obtain ⟨i, r, hp, hi⟩ := poll_total (fun i => findMainWindow (ans.desktop i) pid classHint)
    (fun i => ans.exited i || !decide (ans.clock (i + 1) < deadlineAt (ans.clock 0) ans.frequency timeoutMs))
    (Nat.zero_le n) (by simp [hclock]) (show n < 0 + (n + 1) by omega)
  have hwait : waitForMainWindow ans pid classHint timeoutMs (n + 1) = some (i, r) := hp
  exact ⟨i, r, fun fuel hf => poll_mono hp hf, hi, awaited_of_poll hwait⟩

/-- The client shows a splash screen 200 ms before its window; the wait ends with it. -/
def splashFirst : Watched where
  desktop n := ⟨3, 40, true, false, "Splash", ⟨0, 0, 400, 300⟩⟩ :: if n < 2 then [] else
    [⟨5, 40, true, false, "UnityWndClass", ⟨0, 0, 1, 1⟩⟩]
  exited _ := false
  clock n := UInt64.ofNat (1000000 * n)
  frequency := 10000000

theorem window_awaited_splash : ∃ i r, (∀ fuel, 299 < fuel →
      waitForMainWindow splashFirst 40 (some "UnityWndClass") 30000 fuel = some (i, r)) ∧ i ≤ 299 ∧
    Awaited splashFirst 40 (some "UnityWndClass") 30000 i r :=
  window_awaited splashFirst 40 (some "UnityWndClass") 30000 299 (by decide)

end MultiMadness
