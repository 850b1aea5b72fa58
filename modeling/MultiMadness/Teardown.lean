import MultiMadness.Placement
/-!
# What a session leaves behind

When the broadcaster's thread has ended, `cmd_run` calls `restore_style` for
every live instance, in order. The windows were saved in the same order, each
one as the conversions before it had left it, so a window that two instances
have is saved a second time without its frame.

- `teardown_at`: the last live instance that has a window decides.
- `teardown_restores`: which windows are what they were, after any session.
-/

namespace MultiMadness

open RunLib

namespace Arranging

/-- The instances whose windows are restored, in order. -/
def live (s : Arranging) : List (Hwnd × SavedStyle) :=
  ((s.session.instances.zip s.saved).filter fun p => !p.1.exited).map fun p => (p.1.hwnd, p.2)

def teardown (s : Arranging) : Screen := restoreAll s.screen s.live

/-- No instance from `i` on that has this window is live. -/
def GoneFrom (s : Arranging) (i : Nat) (hwnd : Hwnd) : Prop :=
  ∀ (j : Nat) (inst : Instance), i ≤ j → s.session.instances[j]? = some inst → inst.hwnd = hwnd → inst.exited = true

theorem live_after {s : Arranging} {i : Nat} {hwnd : Hwnd} (h : s.GoneFrom i hwnd) :
    ∀ p ∈ (((s.session.instances.zip s.saved).drop i).filter fun p => !p.1.exited).map fun p => (p.1.hwnd, p.2),
      p.1 ≠ hwnd := by
  intro p hp hk
  obtain ⟨⟨inst, saved⟩, hm, rfl⟩ := List.mem_map.1 hp
  obtain ⟨hm, hlive⟩ := List.mem_filter.1 hm
  obtain ⟨j, hj⟩ := List.mem_iff_getElem?.1 hm
  rw [List.getElem?_drop] at hj
  have hinst := (List.getElem?_zip_eq_some.1 hj).1
  have hex := h (i + j) inst (by omega) hinst hk
  simp [hex] at hlive

theorem mem_live {s : Arranging} {p : Hwnd × SavedStyle} (h : p ∈ s.live) :
    ∃ i : Nat, s.hwnds[i]? = some p.1 ∧ s.saved[i]? = some p.2 := by
  obtain ⟨⟨inst, saved⟩, hm, rfl⟩ := List.mem_map.1 h
  obtain ⟨i, hi⟩ := List.mem_iff_getElem?.1 (List.mem_filter.1 hm).1
  obtain ⟨hinst, hsaved⟩ := List.getElem?_zip_eq_some.1 hi
  exact ⟨i, by rw [hwnds, List.getElem?_map, hinst]; rfl, hsaved⟩

/-- The last live instance that has a window decides what becomes of it. -/
theorem teardown_at {s : Arranging} {i : Nat} {inst : Instance} {saved : SavedStyle}
    (hi : s.session.instances[i]? = some inst) (hs : s.saved[i]? = some saved) (hlive : inst.exited = false)
    (hlast : s.GoneFrom (i + 1) inst.hwnd) (hv : saved.valid = true) :
    s.teardown inst.hwnd = (s.screen inst.hwnd).map saved.onto := by
  have hzip : (s.session.instances.zip s.saved)[i]? = some (inst, saved) := List.getElem?_zip_eq_some.2 ⟨hi, hs⟩
  obtain ⟨hlt, hget⟩ := List.getElem?_eq_some_iff.1 hzip
  have hsplit : s.session.instances.zip s.saved =
      (s.session.instances.zip s.saved).take i ++ (inst, saved) :: (s.session.instances.zip s.saved).drop (i + 1) := by
    rw [← hget, List.getElem_cons_drop, List.take_append_drop]
  have hafter := live_after hlast
  unfold teardown live
  rw [hsplit, List.filter_append, List.filter_cons_of_pos (by simp [hlive]), List.map_append, List.map_cons]
  exact restoreAll_last hv fun p hp hk => absurd hk (hafter p hp)

/-- A window that no live instance has is left alone. -/
theorem teardown_other {s : Arranging} {hwnd : Hwnd} (h : s.GoneFrom 0 hwnd) : s.teardown hwnd = s.screen hwnd :=
  restoreAll_other fun p hp hk => absurd hk (live_after h p hp)

/-- What the session has saved, and of which windows. -/
theorem saved_of_run {setup : Setup} {bc : Broadcaster} {answers : ArrangeAnswers} {s t : Arranging} {ls : List Label}
    (hs : start setup bc answers = some s) (h : run step s ls = some t) :
    t.hwnds = setup.session.instances.map (·.hwnd) ∧
      t.saved = if setup.borderless then (makeAll setup.screen t.hwnds).1 else t.hwnds.map fun _ => {} := by
  have hf := (fixed_arrange hs).trans (fixed_run h)
  have hh : t.hwnds = setup.session.instances.map (·.hwnd) := hf.hwnds
  refine ⟨hh, ?_⟩
  rw [hf.saved, hh]
  dsimp only
  split <;> rfl

theorem invalid_of_map {hwnds : List Hwnd} {i : Nat} {saved : SavedStyle}
    (h : (hwnds.map fun _ => ({} : SavedStyle))[i]? = some saved) : saved.valid = false := by
  obtain ⟨hwnd, -, rfl⟩ := List.mem_map.1 (List.mem_of_getElem? h)
  rfl

/-- How the windows are left at the end of a session. -/
structure TornDown (setup : Setup) (t : Arranging) : Prop where
  /-- Its style, its extended style and its rectangle are what they were, unless
  an earlier instance has the same window and that had a frame. -/
  restored : setup.borderless = true → ∀ (i : Nat) (inst : Instance) (w w' : Window),
    t.session.instances[i]? = some inst → inst.exited = false → t.GoneFrom (i + 1) inst.hwnd →
    setup.screen inst.hwnd = some w → t.screen inst.hwnd = some w' →
    (t.teardown inst.hwnd = some w ↔ inst.hwnd ∉ t.hwnds.take i ∨ w.borderless = w)
  gone : ∀ hwnd, t.GoneFrom 0 hwnd → t.teardown hwnd = t.screen hwnd
  /-- A window that was not there to be saved. -/
  unsaved : ∀ hwnd, setup.screen hwnd = none → t.teardown hwnd = t.screen hwnd
  plain : setup.borderless = false → t.teardown = t.screen

/-- After any session, with swaps, failed batches, clients that exit and windows
that are moved or restyled from outside, the end restores exactly what was saved. -/
theorem teardown_restores {setup : Setup} {bc : Broadcaster} {answers : ArrangeAnswers} {s t : Arranging}
    {ls : List Label} (hs : start setup bc answers = some s) (h : run step s ls = some t) : TornDown setup t := by
  obtain ⟨-, hsaved⟩ := saved_of_run hs h
  refine ⟨?_, fun hwnd => teardown_other, ?_, ?_⟩
  · intro hb i inst w w' hi hlive hlast hw hw'
    have hhw : t.hwnds[i]? = some inst.hwnd := by rw [hwnds, List.getElem?_map, hi]; rfl
    rw [if_pos hb] at hsaved
    have hat := makeAll_saved setup.screen hhw
    rw [← hsaved, hw] at hat
    by_cases hm : inst.hwnd ∈ t.hwnds.take i
    · rw [if_pos hm] at hat
      rw [teardown_at hi hat hlive hlast rfl, hw']
      simp only [hm, not_true, false_or]
      exact Option.some_inj
    · rw [if_neg hm] at hat
      rw [teardown_at hi hat hlive hlast rfl, hw']
      exact iff_of_true rfl (.inl hm)
  · intro hwnd hw
    refine restoreAll_other fun p hp hk => ?_
    obtain ⟨i, hi, hsi⟩ := mem_live hp
    rw [hsaved] at hsi
    split at hsi
    · have hat := makeAll_saved setup.screen hi
      rw [hk, hw, Option.map_none, ite_self] at hat
      rw [← Option.some.inj (hat.symm.trans hsi)]
      rfl
    · exact invalid_of_map hsi
  · intro hb
    rw [hb, if_neg (by decide)] at hsaved
    funext hwnd
    refine restoreAll_other fun p hp _ => ?_
    obtain ⟨i, -, hsi⟩ := mem_live hp
    rw [hsaved] at hsi
    exact invalid_of_map hsi

/-- Three clients with a frame each, converted and laid out. -/
def framed : Setup where
  session := Running.threeClients
  layout := { kind := .pip }
  area := desk
  slavePolicy := {}
  processes := [some 10, some 20, none]
  borderless := true
  screen := threeWindows.screen
  scheduling := fun _ => none

def framedStart : Arranging := (start framed {} {}).get rfl

theorem framedStart_eq : start framed {} {} = some framedStart := rfl

/-- The second client exits between two presses of the hotkey. -/
def pressExitPress : List Label :=
  [.session .chooseNext, .arrange { batch := { begins := false } }, .session .swapReadTargets, .watch (· = 1),
    .session .swapPublish, .session .chooseNext, .arrange {}]

theorem pressExitPress_run : ∃ t, run step framedStart pressExitPress = some t := ⟨_, rfl⟩

theorem teardown_restores_exit : ∃ t, run step framedStart pressExitPress = some t ∧ TornDown framed t := by
  obtain ⟨t, ht⟩ := pressExitPress_run
  exact ⟨t, ht, teardown_restores framedStart_eq ht⟩

end Arranging

end MultiMadness
