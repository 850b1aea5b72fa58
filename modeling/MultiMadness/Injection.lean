import MultiMadness.Handling
/-!
# Injected input and the window it meets

`send_key`, `send_mouse_button` and `send_wheel` reach whichever window is in
the foreground. A delivery checks that this is its target; the held keys are
re-injected whether or not the focus came back to the master.

- `delivery_meant`: what a delivery injects meets its target, always.
- `handle_meant_iff`: everything a call of `handle` injects meets the window it
  is meant for exactly when the restore before a re-assert succeeds.
-/

namespace MultiMadness.Injection

open KeyState Broadcaster

/-- The calls that do not name a window. -/
def toForeground : Output → Bool
  | .sendKey .. | .sendMouseButton .. | .sendWheel .. => true
  | _ => false

/-- The instance an injection is meant for; moving the cursor back is for none. -/
def meantFor (b : Broadcaster) : Sender → Option Nat
  | .deliver t => some t
  | .reassertHeld => some b.master
  | .restoreCursor => none

/-- The injection met the window it is meant for. -/
def Meant (b : Broadcaster) (e : Sent) : Prop :=
  toForeground e.out = true → ∀ t ∈ meantFor b e.sender, (b.hwndOf t).isSome = true ∧ e.fg = b.hwndOf t

instance (b : Broadcaster) (e : Sent) : Decidable (Meant b e) :=
  inferInstanceAs (Decidable (_ → ∀ t ∈ meantFor b e.sender, _))

/-- What a call of `handle` sends, in order. -/
def sentDuring (b : Broadcaster) (env : Env) (os : Os) (ev : InputEvent) : List Sent :=
  (b.handle env os ev).2.log.drop os.log.length

/-- Injected input only reaches the window it is meant for. -/
def OnlyMeant (b : Broadcaster) (env : Env) (os : Os) (ev : InputEvent) : Prop :=
  ∀ e ∈ sentDuring b env os ev, Meant b e

instance (b : Broadcaster) (env : Env) (os : Os) (ev : InputEvent) : Decidable (OnlyMeant b env os ev) :=
  inferInstanceAs (Decidable (∀ e ∈ sentDuring b env os ev, Meant b e))

/-- If the event makes the focus leave the master while a key is held, the focus
call after the deliveries brings the master's window back. -/
def MasterReturns (b : Broadcaster) (env : Env) (os : Os) (ev : InputEvent) : Prop :=
  ∀ targets, rule ev b.routes (b.masterKeys.applyEvent ev).1 = some (targets, .focusCycle) →
    mirrorTargets targets (aliveMask env b.targets) b.master ≠ [] →
    0 < (b.masterKeys.applyEvent ev).1.heldCount →
    ∃ h, b.hwndOf b.master = some h ∧
      env.focus (os.focusCalls + (mirrorTargets targets (aliveMask env b.targets) b.master).length) = some h

theorem handled_sentDuring (b : Broadcaster) (env : Env) (os : Os) (ev : InputEvent) :
    Handled (b.applied ev) env os ev (sentDuring b env os ev) := by
  obtain ⟨es, hes, hh⟩ := b.handle_sent env os ev
  rwa [sentDuring, hes, List.drop_left]

/-- What a delivery injects meets its target. -/
theorem delivery_meant {b : Broadcaster} {env : Env} {ev : InputEvent} {s : Strategy} {t : Nat} {es : List Sent}
    (h : b.Delivery env ev s t es) : ∀ e ∈ es, Meant b e := by
  intro e he hf u hu
  cases s with
  | windowMessage =>
    obtain ⟨fg, rfl⟩ := h
    obtain ⟨o, ho, rfl⟩ := List.mem_map.1 he
    rcases mem_postOutputs ho with ⟨down, rfl⟩ | ⟨down, rfl⟩ | rfl <;> cases hf
  | focusCycle =>
    rcases h with rfl | ⟨w, hw, rfl⟩
    · cases he
    · obtain ⟨o, -, rfl⟩ := List.mem_map.1 he
      cases hu
      exact ⟨by rw [hw]; rfl, hw.symm⟩

theorem heldSent_mem {b : Broadcaster} {fg : Option Hwnd} {e : Sent} (h : e ∈ b.heldSent fg) :
    e.sender = .reassertHeld ∧ toForeground e.out = true ∧ e.fg = fg := by
  obtain ⟨i, -, rfl⟩ := mem_heldSent.1 h
  exact ⟨rfl, rfl, rfl⟩

theorem heldSent_ne_nil {b : Broadcaster} (h : 0 < b.masterKeys.heldCount) (fg : Option Hwnd) :
    ∃ e, e ∈ b.heldSent fg := by
  obtain ⟨i, hi⟩ := heldCount_pos.1 h
  exact ⟨_, mem_heldSent.2 ⟨i, hi, rfl⟩⟩

theorem hwndOf_lt {b : Broadcaster} {i : Nat} {h : Hwnd} (hh : b.hwndOf i = some h) : i < b.targets.length := by
  obtain ⟨t, ht, -⟩ := Option.bind_eq_some_iff.1 hh
  exact (List.getElem?_eq_some_iff.1 ht).1

/-- Every injection of a call of `handle` meets the window it is meant for
exactly when the master's window comes back before the held keys are injected. -/
theorem handle_meant_iff (b : Broadcaster) (env : Env) (os : Os) (ev : InputEvent) :
    OnlyMeant b env os ev ↔ MasterReturns b env os ev := by
  have hh := handled_sentDuring b env os ev
  unfold OnlyMeant
  generalize sentDuring b env os ev = es at hh
  constructor
  · intro hall targets hr hne hpos
    obtain ⟨sent, fg, rfl⟩ := hh.repaired hr hne
    -- Some key is held, so at least one injection depends on the restore.
    obtain ⟨e, he⟩ := heldSent_ne_nil (b := b.applied ev) hpos _
    obtain ⟨hsend, hout, hfg⟩ := heldSent_mem he
    obtain ⟨hsome, hm⟩ := hall e (List.mem_append_right _ (List.mem_append_right _ he)) hout b.master
      (by rw [hsend]; rfl)
    obtain ⟨h, hw⟩ := Option.isSome_iff_exists.1 hsome
    have hlt : (b.applied ev).master < (b.applied ev).targets.length := hwndOf_lt hw
    refine ⟨h, hw, ?_⟩
    rw [hfg, restoredFg, if_pos hlt, hw] at hm
    exact hm
  · intro hret e he
    rcases hh.entry he with ⟨s, t, sent, hd, hm⟩ | ⟨targets, fg, hr, hne, hc | hheld⟩
    · exact delivery_meant hd e hm
    · -- The cursor's way back is meant for no window.
      rw [(mem_cursorSent.1 hc).2]
      intro hf
      cases hf
    · obtain ⟨hsend, -, hfg⟩ := heldSent_mem hheld
      have hpos : 0 < (b.applied ev).masterKeys.heldCount := by
        by_contra h0
        rw [heldSent_nil h0] at hheld
        cases hheld
      obtain ⟨h, hw, hfoc⟩ := hret targets hr hne hpos
      have hlt : (b.applied ev).master < (b.applied ev).targets.length := hwndOf_lt hw
      intro _ t ht
      rw [hsend] at ht
      cases ht
      rw [hfg, restoredFg, if_pos hlt]
      exact ⟨by rw [hw]; rfl, hfoc.trans hw.symm⟩

/-! ## A master that refuses the focus -/

/-- Two clients, the first one the master, and the key `1` mirrored to both. -/
def twoClients : Broadcaster where
  routes := Routes.addKey {} { vk := 0x31 }
  targets := [⟨some 100⟩, ⟨some 200⟩]

/-- The slave takes the focus and keeps it: the master's activation fails. -/
def slaveKeepsFocus : Env where
  focus := fun _ => some 200

/-- Pressing `1` delivers it to the slave and then re-injects it, as the
master's held key, into the slave's window. -/
theorem reassert_into_slave :
    ¬ OnlyMeant twoClients slaveKeepsFocus { fg := some 100 } { kind := .keyDown, vk := 0x31 } := by
  decide +kernel

end MultiMadness.Injection
