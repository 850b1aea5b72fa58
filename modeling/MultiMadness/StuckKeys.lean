import MultiMadness.Desktop
/-!
# Stuck keys on the master

The master's window learns of a release from the hook's own event or by losing
the foreground. A re-assert injects what the broadcaster's keyboard holds, which
lags behind the hook's: a key released during the focus cycle goes down again in
the master, and no release follows.

- `no_stuck_keys`: if every re-asserted key is still down when it is injected,
  the master never believes a released key down.
-/

namespace MultiMadness.Desktop

open RunLib KeyState

/-- With nothing pending and the master in the foreground, every key its window
believes down is physically down. -/
def NoStuckKeys (s : Desktop) : Prop :=
  s.Drained → s.fg = s.bc.master → ∀ vk, s.believed s.bc.master vk = true → s.cap.keys.isDown vk = true

/-- A key re-asserted into the master is, at that moment, physically down and
not swallowed. -/
def ReassertsHeld (s : Desktop) : Label → Prop
  | .call =>
    match s.todo with
    | some (.inject .reassertHeld (.sendKey vk _ true _) :: _) =>
      s.fg = s.bc.master → s.cap.keys.isDown vk = true ∧ s.cap.hides vk = false
    | _ => True
  | _ => True

instance (s : Desktop) (l : Label) : Decidable (ReassertsHeld s l) := by
  unfold ReassertsHeld; split
  · split <;> infer_instance
  · infer_instance

/-- The master believes only keys down that are, and nothing while it is not in
the foreground. -/
structure Inv (s : Desktop) : Prop where
  held : ∀ vk, s.believed s.bc.master vk = true → s.cap.keys.isDown vk = true ∧ s.cap.hides vk = false
  away : s.fg ≠ s.bc.master → ∀ vk, s.believed s.bc.master vk = false
  aimed : ∀ cs, s.todo = some cs → Aimed s.bc.master s.fg cs

theorem inv_start (cap : Capture) (bc : Broadcaster) : Inv (start cap bc) :=
  ⟨fun _ h => (by cases h), fun _ _ => rfl, fun _ h => (by cases h)⟩

theorem hear_of_ne {s : Desktop} {i : Nat} (h : s.fg ≠ i) (vk : UInt16) (down : Bool) :
    s.hear vk down i = s.believed i := by
  rw [hear, Function.update_of_ne (Ne.symm h)]

theorem hear_self (s : Desktop) (vk : UInt16) (down : Bool) (v : UInt16) :
    s.hear vk down s.fg v = if v = vk then down else s.believed s.fg v := by
  rw [hear, Function.update_self, Function.update_apply]

theorem inv_key {env : Nat → Env} {s t : Desktop} {ts : UInt64} {msg : KeyMsg} {k : KbdLlHook} (hi : Inv s)
    (h : Change env s (.key ts msg k) t) : Inv t := by
  cases h with
  | key _ _ _ hacc =>
    have hdown : ∀ vk, (s.key ts msg k).cap.keys.isDown vk = _ := Feed.key_isDown hacc
    have hhide : (s.key ts msg k).cap.hides = s.cap.hides := hides_congr (s.hooked_key ts msg k).swallow
    cases hh : s.cap.hides (Capture.keyEvent ts msg k).vk with
    | true =>
      -- The window does not see the key, and did not believe it down.
      refine ⟨?_, hi.away, hi.aimed⟩
      intro vk hb
      obtain ⟨h1, h2⟩ := hi.held vk hb
      have hne : vk ≠ (Capture.keyEvent ts msg k).vk := by rintro rfl; rw [hh] at h2; cases h2
      exact ⟨by rw [hdown, if_neg hne]; exact h1, by rw [hhide]; exact h2⟩
    | false =>
      by_cases hfg : s.fg = s.bc.master
      · refine ⟨?_, fun hne => absurd hfg hne, hi.aimed⟩
        intro vk hb
        change s.hear _ _ s.bc.master vk = true at hb
        rw [← hfg, hear_self] at hb
        dsimp only
        rw [hdown, hhide]
        split
        · next hv => rw [if_pos hv] at hb; exact ⟨hb, by rw [hv]; exact hh⟩
        · next hv => rw [if_neg hv, hfg] at hb; exact hi.held vk hb
      · have hb : s.hear (Capture.keyEvent ts msg k).vk ((Capture.keyEvent ts msg k).kind = .keyDown) s.bc.master =
            s.believed s.bc.master := hear_of_ne hfg _ _
        refine ⟨?_, ?_, hi.aimed⟩
        · intro vk hv
          change s.hear _ _ s.bc.master vk = true at hv
          rw [hb, hi.away hfg vk] at hv
          cases hv
        · intro _ vk
          change s.hear _ _ s.bc.master vk = false
          rw [hb, hi.away hfg vk]

/-- A focus switch only clears windows, and clears the one it leaves. -/
theorem focus_believed {s : Desktop} {i m : Nat} {vk : UInt16} (h : (s.perform (.focus i)).believed m vk = true) :
    s.believed m vk = true ∧ (s.fg = m → i = m) := by
  simp only [perform] at h
  split at h
  · next he => exact ⟨h, fun hm => he.trans hm⟩
  · by_cases hm : s.fg = m
    · subst hm; simp at h
    · rw [Function.update_of_ne (Ne.symm hm)] at h
      exact ⟨h, fun hm' => absurd hm' hm⟩

theorem inv_focus {s : Desktop} {i : Nat} {cs : List Call} (hi : Inv s) (htodo : s.todo = some (.focus i :: cs)) :
    Inv { s.perform (.focus i) with todo := some cs } := by
  refine ⟨fun vk hb => hi.held vk (focus_believed hb).1, ?_, ?_⟩
  · intro hne vk
    rw [← Bool.not_eq_true]
    intro hb
    obtain ⟨hold, hm⟩ := focus_believed hb
    by_cases hfg : s.fg = s.bc.master
    · exact hne (hm hfg)
    · exact Bool.false_ne_true ((hi.away hfg vk).symm.trans hold)
  · intro _ h
    cases h
    exact hi.aimed _ htodo

/-- What is injected into the master is a re-asserted key that is down. -/
theorem inv_inject {s : Desktop} {sender : Sender} {out : Output} {cs : List Call} (hi : Inv s)
    (hc : ReassertsHeld s .call) (htodo : s.todo = some (.inject sender out :: cs)) :
    Inv { s.perform (.inject sender out) with todo := some cs } := by
  obtain ⟨haim, ha⟩ := hi.aimed _ htodo
  have hrest : ∀ ds, some cs = some ds → Aimed s.bc.master s.fg ds := fun _ h => by cases h; exact ha
  cases out with
  | sendKey vk scan down flags =>
    by_cases hfg : s.fg = s.bc.master
    · have hs : sender = .reassertHeld := haim.resolve_right fun h => h.2 hfg
      subst hs
      refine ⟨?_, fun hne => absurd hfg hne, hrest⟩
      intro v hb
      change s.hear vk down s.bc.master v = true at hb
      rw [← hfg, hear_self] at hb
      split at hb
      · next hv =>
        subst hb hv
        simp only [ReassertsHeld, htodo] at hc
        exact hc hfg
      · rw [hfg] at hb
        exact hi.held v hb
    · have hb : s.hear vk down s.bc.master = s.believed s.bc.master := hear_of_ne hfg _ _
      refine ⟨fun v hv => hi.held v ?_, ?_, hrest⟩
      · rw [← hb]; exact hv
      · intro _ v
        change s.hear vk down s.bc.master v = false
        rw [hb, hi.away hfg v]
  | _ => exact ⟨hi.held, hi.away, hrest⟩

/-- Every step that meets the condition keeps the invariant. -/
theorem inv_change {env : Nat → Env} {s t : Desktop} {l : Label} (hi : Inv s) (hc : ReassertsHeld s l)
    (h : Change env s l t) : Inv t := by
  cases l with
  | key ts msg k => exact inv_key hi h
  | mouse ts msg m =>
    cases h
    have hkeys : (s.mouse ts msg m).cap.keys = s.cap.keys := Feed.mouse_keys _ _ _ _
    have hhide := hides_congr (s.hooked_mouse ts msg m).swallow
    refine ⟨?_, hi.away, hi.aimed⟩
    intro vk hb
    dsimp only
    rw [hkeys, hhide]
    exact hi.held vk hb
  | pop =>
    cases h with
    | pop f hf =>
      obtain ⟨ev, ring, -, -, rfl⟩ := Feed.pop_eq_some hf
      exact ⟨hi.held, hi.away, hi.aimed⟩
  | apply =>
    cases h
    exact ⟨hi.held, hi.away, fun _ h => by cases h; exact script_aimed _ _ _ _⟩
  | call =>
    cases h with
    | call c cs htodo =>
      cases c with
      | focus i => exact inv_focus hi htodo
      | inject sender out => exact inv_inject hi hc htodo
  | done =>
    cases h
    exact ⟨hi.held, hi.away, fun _ h => by cases h⟩

/-- In every run in which each re-asserted key is, when it is injected, still
down and not swallowed, no key is ever stuck on the master. -/
theorem no_stuck_keys (env : Nat → Env) (cap : Capture) (bc : Broadcaster) (ls : List Label)
    (hc : AllSteps (step env) ReassertsHeld (start cap bc) ls) : Always (step env) NoStuckKeys (start cap bc) ls :=
  (always_of Inv (fun _ _ _ hi hc h => inv_change hi hc (change h)) (inv_start cap bc) hc).mono
    fun _ hi _ _ vk hb => (hi.held vk hb).1

/-! ## A release during a focus cycle -/

/-- Two clients, the first one the master, and the key `1` mirrored to both. -/
def oneMirrored : Broadcaster where
  routes := Routes.addKey {} { vk := 0x31 }
  targets := [⟨some 100⟩, ⟨some 200⟩]

def down (vk : UInt32) : Label := .key 0 .wmKeyDown { vkCode := vk }

def up (vk : UInt32) : Label := .key 0 .wmKeyUp { vkCode := vk }

/-- `A` is held while `1` is pressed and mirrored. -/
def holdAcrossCycle : List Label :=
  [down 0x41, .pop, .apply, .done, down 0x31, .pop, .apply, .call, .call, .call, .call, .call, .done]

theorem no_stuck_keys_held : Always (step fun _ => {}) NoStuckKeys (start {} oneMirrored) holdAcrossCycle :=
  no_stuck_keys (fun _ => {}) {} oneMirrored holdAcrossCycle (by decide +kernel)

/-- `A` is released while the slave is in the foreground; then the release is handled. -/
def releaseDuringCycle : List Label :=
  [down 0x41, .pop, .apply, .done, down 0x31, .pop, .apply, .call, up 0x41, .call, .call, .call, .call, .done, .pop,
    .apply, .done]

/-- The released key is re-asserted and stays down in the master. -/
theorem released_key_stuck :
    ∃ s, run (step fun _ => {}) (start {} oneMirrored) releaseDuringCycle = some s ∧ s.Drained ∧
      s.fg = s.bc.master ∧ s.believed s.bc.master 0x41 = true ∧ s.cap.keys.isDown 0x41 = false := by
  have h : ((run (step fun _ => {}) (start {} oneMirrored) releaseDuringCycle).map fun s =>
      (s.ring.items.isEmpty, s.popped.isNone, decide (s.fg = s.bc.master), s.believed s.bc.master 0x41,
        s.cap.keys.isDown 0x41)) = some (true, true, true, true, false) := by decide +kernel
  obtain ⟨s, hs, h⟩ := Option.map_eq_some_iff.1 h
  simp only [Prod.mk.injEq, List.isEmpty_iff, Option.isNone_iff_eq_none, decide_eq_true_eq] at h
  obtain ⟨h1, h2, h3, h4, h5⟩ := h
  exact ⟨s, hs, ⟨h1, h2⟩, h3, h4, h5⟩

end MultiMadness.Desktop
