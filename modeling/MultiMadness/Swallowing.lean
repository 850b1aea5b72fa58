import MultiMadness.Pipeline
/-!
# Swallowed keys

The hook keeps a swallowed key from the foreground application, press and
release, but records it like any other. A focus cycle re-injects every recorded
key that is held, whether or not its press was swallowed.

- `hook_hides`: the hook hides the keys of `Routes::swallows`.
- `swallow_agrees`: the routes, the planner and the hook answer alike.
- `never_reasserted_iff`: no swallowed key is re-injected exactly when no focus
  cycle meets one that is held.
-/

namespace MultiMadness.Pipeline

open RunLib KeyState

/-! ## The swallow table -/

/-- The pipeline as `cmd_run` starts it. -/
def cmdRun (r : Routes) (acceptForeign : Bool) (targets : List Target) (master : Nat) : Pipeline :=
  start (Capture.swallowTable r { acceptForeign := acceptForeign })
    ((({} : Broadcaster).setRoutes r).setTargets targets master)

/-- No step writes the swallow table. -/
theorem change_swallow {s t : Pipeline} (h : Change s t) : t.cap.swallow = s.cap.swallow := by
  cases h with
  | hooked ev f h => exact h.swallow
  | popped f h =>
    obtain ⟨ev, ring, -, -, rfl⟩ := Feed.pop_eq_some h
    rfl
  | _ => rfl

/-- At any moment of a run the hook hides from the foreground application
exactly the keys the routes swallow. -/
theorem hook_hides {r : Routes} {acceptForeign : Bool} {targets : List Target} {master : Nat} {ls : List Label}
    {s : Pipeline} (h : run step (cmdRun r acceptForeign targets master) ls = some s) (ts : UInt64) (msg : KeyMsg)
    (k : KbdLlHook) :
    (s.cap.onKey s.ring ts msg k).2.2 =
      (!s.cap.ignores k.dwExtraInfo (k.flags &&& LLKHF_INJECTED ≠ 0) &&
        r.swallows (code (Capture.keyIndex k))) := by
  have hs := run_inv (fun s => s.cap.swallow = (Capture.swallowTable r { acceptForeign := acceptForeign }).swallow)
    (fun _ _ _ hi hs => (change_swallow (change hs)).trans hi) rfl h
  rw [Capture.onKey_swallow, hs, Capture.swallowTable_swallow]

/-- What a plan says about swallowing depends on the key alone. -/
theorem plan_swallowed {ev : InputEvent} (hk : isKey ev.kind = true) (r : Routes) (alive : TargetMask) (master : Nat)
    (ks : KeyState) : (plan ev r alive master ks).swallowed = r.swallows ev.vk := by
  unfold plan Routes.swallows
  rw [if_pos hk]
  by_cases hs : r.swapHotkeyVk ≠ 0 ∧ ev.vk = r.swapHotkeyVk
  · have hs' : ev.vk = r.swapHotkeyVk ∧ ev.vk ≠ 0 := ⟨hs.2, by rw [hs.2]; exact hs.1⟩
    rw [if_pos hs, if_pos hs']
  · have hs' : ¬ (ev.vk = r.swapHotkeyVk ∧ ev.vk ≠ 0) := by
      rintro ⟨hv, h0⟩
      exact hs ⟨by rw [← hv]; exact h0, hv⟩
    rw [if_neg hs, if_neg hs']
    cases r.find ev.vk with
    | none => rfl
    | some b =>
      simp only [addDeliveries_eq]
      split
      · unfold addReassert; split <;> rfl
      · rfl

/-- `Routes::swallows`, `plan` and the hook decide alike about every key: the
planner for every event of the key, and the hook, at any moment of a run, for
every event of the key it does not ignore. -/
theorem swallow_agrees (r : Routes) (acceptForeign : Bool) (targets : List Target) (master : Nat) (ls : List Label)
    (s : Pipeline) (h : run step (cmdRun r acceptForeign targets master) ls = some s) (i : Fin 256) :
    (∀ ev alive m ks, isKey ev.kind = true → ev.vk = code i →
      (plan ev r alive m ks).swallowed = r.swallows (code i)) ∧
    ∀ ts msg k, Capture.keyIndex k = i → s.cap.ignores k.dwExtraInfo (k.flags &&& LLKHF_INJECTED ≠ 0) = false →
      (s.cap.onKey s.ring ts msg k).2.2 = r.swallows (code i) := by
  constructor
  · intro ev alive m ks hk hv
    rw [plan_swallowed hk, hv]
  · intro ts msg k hi hn
    rw [hook_hides h, hn, hi]
    rfl

/-- `1` was bound with `swallow`, then without, and `2` is both bound and the hotkey. -/
def reboundRoutes : Routes :=
  { (((Routes.addKey {} { vk := 0x31, swallow := true }).addKey { vk := 0x31 }).addKey { vk := 0x32 }) with
    swapHotkeyVk := 0x32 }

theorem swallow_agrees_rebound :
    ∃ s, run step (cmdRun reboundRoutes false [⟨some 100⟩] 0) [.key 1 .wmKeyDown { vkCode := 0x32 }] = some s ∧
      (s.cap.onKey s.ring 2 .wmKeyDown { vkCode := 0x32 }).2.2 = reboundRoutes.swallows (code 0x32) ∧
      (s.cap.onKey s.ring 2 .wmKeyUp { vkCode := 0x31 }).2.2 = reboundRoutes.swallows (code 0x31) ∧
      (plan { kind := .keyUp, vk := 0x31 } reboundRoutes 3 0 s.bc.masterKeys).swallowed =
        reboundRoutes.swallows (code 0x31) :=
  have h : run step (cmdRun reboundRoutes false [⟨some 100⟩] 0) [.key 1 .wmKeyDown { vkCode := 0x32 }] = some _ := rfl
  ⟨_, h, (swallow_agrees _ _ _ _ _ _ h 0x32).2 2 .wmKeyDown _ rfl rfl,
    (swallow_agrees _ _ _ _ _ _ h 0x31).2 2 .wmKeyUp _ rfl rfl, (swallow_agrees _ _ _ _ _ _ h 0x31).1 _ 3 0 _ rfl rfl⟩

/-! ## What the broadcaster re-injects -/

/-- No key that the routes swallow is among those re-injected so far. -/
def NeverReasserted (r : Routes) (s : Pipeline) : Prop :=
  ∀ e ∈ s.os.log, e.sender = .reassertHeld →
    ∀ vk scan flags, e.out = .sendKey vk scan true flags → r.swallows vk = false

/-- An event that makes the focus leave the master is not handled while the
broadcaster's keyboard, which then includes the event, has a swallowed key down. -/
def CyclesUnswallowed (r : Routes) (s : Pipeline) : Label → Prop
  | .handle env => ∀ ev, s.popped = some ev →
      cycles ev s.bc.routes (Broadcaster.aliveMask env s.bc.targets) s.bc.master (s.bc.masterKeys.applyEvent ev).1 →
      ∀ vk, (s.bc.masterKeys.applyEvent ev).1.isDown vk = true → r.swallows vk = false
  | _ => True

/-- One call of `handle` re-injects no swallowed key exactly when it does not
make the focus leave the master while one is held. -/
theorem neverReasserted_handle {r : Routes} {s t : Pipeline} {env : Env} (hn : NeverReasserted r s)
    (h : step s (.handle env) = some t) : NeverReasserted r t ↔ CyclesUnswallowed r s (.handle env) := by
  obtain ⟨ev, hp, rfl⟩ := step_handle.1 h
  obtain ⟨es, hlog, hh⟩ := s.bc.handle_sent env s.os ev
  obtain ⟨hall, hheld⟩ := Broadcaster.handled_reasserts hh
  constructor
  · intro ht ev' hp' hc vk hd
    cases hp.symm.trans hp'
    obtain ⟨i, rfl, hi⟩ := isDown_iff.1 hd
    obtain ⟨fg, hfg⟩ := hheld hc
    have he := hfg _ (Broadcaster.mem_heldSent.2 ⟨i, hi, rfl⟩)
    exact ht _ (by rw [hlog]; exact List.mem_append_right _ he) rfl _ _ _ rfl
  · intro hc e he hsend vk scan flags hout
    rcases List.mem_append.1 (hlog ▸ he : e ∈ s.os.log ++ es) with he | he
    · exact hn e he hsend vk scan flags hout
    · obtain ⟨hcyc, fg, hfg⟩ := hall e he hsend
      obtain ⟨i, hi, rfl⟩ := Broadcaster.mem_heldSent.1 hfg
      cases hout
      exact hc ev hp hcyc _ (by rw [isDown_code]; exact hi)

theorem neverReasserted_step {r : Routes} {s t : Pipeline} {l : Label} (hn : NeverReasserted r s)
    (h : step s l = some t) : NeverReasserted r t ↔ CyclesUnswallowed r s l := by
  cases l with
  | handle env => exact neverReasserted_handle hn h
  | key ts msg k => cases h; exact ⟨fun _ => trivial, fun _ => hn⟩
  | mouse ts msg m => cases h; exact ⟨fun _ => trivial, fun _ => hn⟩
  | pop =>
    obtain ⟨f, -, rfl⟩ := Option.map_eq_some_iff.1 h
    exact ⟨fun _ => trivial, fun _ => hn⟩
  | refreshConfig =>
    obtain ⟨-, rfl⟩ := step_refreshConfig.1 h
    exact ⟨fun _ => trivial, fun _ => hn⟩
  | setTargets targets master => cases h; exact ⟨fun _ => trivial, fun _ => hn⟩

/-- In a run of the pipeline no swallowed key is ever re-injected to the master
exactly when no focus cycle of the run meets a swallowed key that is held. -/
theorem never_reasserted_iff (r : Routes) (acceptForeign : Bool) (targets : List Target) (master : Nat)
    (ls : List Label) :
    Always step (NeverReasserted r) (cmdRun r acceptForeign targets master) ls ↔
      AllSteps step (CyclesUnswallowed r) (cmdRun r acceptForeign targets master) ls := by
  refine always_iff_allSteps (NeverReasserted r) (fun _ hn => hn)
    (fun _ _ _ hn hc h => (neverReasserted_step hn h).2 hc)
    (fun _ _ _ hn h ht => (neverReasserted_step hn h).1 ht) (fun s l h => ?_)
    (fun e he => absurd he List.not_mem_nil)
  cases l with
  | handle env =>
    intro ev hp
    simp only [step, hp, reduceCtorEq] at h
  | _ => trivial

/-- The key `1`, mirrored to both clients and kept from the master. -/
def swallowedRoutes : Routes := Routes.addKey {} { vk := 0x31, swallow := true }

def focusGoesAndReturns : Env where
  focus := fun n => if n = 0 then some 200 else some 100

/-- `1` is pressed alone: the hook swallows it, and the focus cycle it starts
injects it into the master. -/
theorem swallowed_key_reasserted :
    ∃ s, run step (cmdRun swallowedRoutes false [⟨some 100⟩, ⟨some 200⟩] 0)
        [.refreshConfig, .key 1 .wmKeyDown { vkCode := 0x31 }, .pop, .handle focusGoesAndReturns] = some s ∧
      ⟨.reassertHeld, .sendKey 0x31 0 true 0, some 100⟩ ∈ s.os.log ∧ ¬ NeverReasserted swallowedRoutes s := by
  have h : ((run step (cmdRun swallowedRoutes false [⟨some 100⟩, ⟨some 200⟩] 0)
      [.refreshConfig, .key 1 .wmKeyDown { vkCode := 0x31 }, .pop, .handle focusGoesAndReturns]).map fun s =>
      decide (⟨.reassertHeld, .sendKey 0x31 0 true 0, some 100⟩ ∈ s.os.log)) = some true := by decide +kernel
  obtain ⟨s, hs, hmem⟩ := Option.map_eq_some_iff.1 h
  have he := of_decide_eq_true hmem
  have hsw : swallowedRoutes.swallows 0x31 = true := by decide
  exact ⟨s, hs, he, fun hn => by simpa [hsw] using hn _ he rfl _ _ _ rfl⟩

end MultiMadness.Pipeline
