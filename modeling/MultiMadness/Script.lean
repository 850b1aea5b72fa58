import MultiMadness.Plans
/-!
# `handle`, one call at a time

`handle` as the list of calls it makes while every focus call succeeds, so that
physical input can arrive between any two of them. A window is named by its
instance.

- `handle_script`: the calls of the script leave what `handle` leaves.
-/

namespace MultiMadness

open KeyState

/-- One call of `execute`: the focus goes to an instance's window, or something
is injected. -/
inductive Call where
  | focus (i : Nat)
  | inject (sender : Sender) (out : Output)
deriving DecidableEq

namespace Broadcaster

/-- The calls of one action. -/
def calls (b : Broadcaster) (env : Env) (ev : InputEvent) (a : Action) : List Call :=
  match a.kind with
  | .deliver =>
    if a.target ≥ b.targets.length then []
    else if a.strategy = .windowMessage then (b.postOutputs env a.target ev).map (.inject (.deliver a.target))
    else .focus a.target :: (b.sendOutputs env a.target ev).map (.inject (.deliver a.target))
  | .restoreFocus => if b.master < b.targets.length then [.focus b.master] else []
  | .restoreCursor => [.inject .restoreCursor (.sendMouseMoveAbs (toAbsolute env.virtualScreen ev.x ev.y))]
  | .reassertHeld =>
    b.masterKeys.downKeys.map fun (i, k) => .inject .reassertHeld (.sendKey (code i) k.scan true k.flags)
  -- No swap callback is set, so the master stays.
  | .swapMaster => []

theorem calls_deliver (b : Broadcaster) (env : Env) (ev : InputEvent) (s : Strategy) (t : Nat) :
    b.calls env ev (deliverTo s t) =
      if t ≥ b.targets.length then []
      else if s = .windowMessage then (b.postOutputs env t ev).map (.inject (.deliver t))
      else .focus t :: (b.sendOutputs env t ev).map (.inject (.deliver t)) := rfl

/-- The calls of `handle` once it has applied the event. -/
def script (b : Broadcaster) (env : Env) (ev : InputEvent) : List Call :=
  if b.targets.isEmpty then [] else (b.planOf env ev).actions.flatMap (b.calls env ev)

/-! ## The script is what `handle` does -/

section Calls
variable (w : Nat → Option Hwnd) (env : Env)

/-- The foreground window after some calls, when `w` gives the windows of the instances. -/
def fgAfter : Option Hwnd → List Call → Option Hwnd
  | fg, [] => fg
  | _, .focus i :: cs => fgAfter (w i) cs
  | fg, .inject .. :: cs => fgAfter fg cs

/-- What some calls send. -/
def sentBy : Option Hwnd → List Call → List Sent
  | _, [] => []
  | _, .focus i :: cs => sentBy (w i) cs
  | fg, .inject sender out :: cs => ⟨sender, out, fg⟩ :: sentBy fg cs

/-- Every focus call succeeds; the first one is the `n`-th of the run. -/
def Focuses : Nat → List Call → Prop
  | _, [] => True
  | n, .focus i :: cs => (∃ h, w i = some h ∧ env.focus n = some h) ∧ Focuses (n + 1) cs
  | n, .inject .. :: cs => Focuses n cs

def focusCount (cs : List Call) : Nat := cs.countP fun c => match c with | .focus _ => true | .inject .. => false

theorem sentBy_append (fg : Option Hwnd) (cs ds : List Call) :
    sentBy w fg (cs ++ ds) = sentBy w fg cs ++ sentBy w (fgAfter w fg cs) ds := by
  induction cs generalizing fg with
  | nil => rfl
  | cons c cs ih => cases c <;> simp [sentBy, fgAfter, ih]

theorem fgAfter_append (fg : Option Hwnd) (cs ds : List Call) :
    fgAfter w fg (cs ++ ds) = fgAfter w (fgAfter w fg cs) ds := by
  induction cs generalizing fg with
  | nil => rfl
  | cons c cs ih => cases c <;> simp [fgAfter, ih]

theorem focusCount_append (cs ds : List Call) : focusCount (cs ++ ds) = focusCount cs + focusCount ds :=
  List.countP_append

theorem focuses_append {n : Nat} {cs ds : List Call} (h : Focuses w env n (cs ++ ds)) :
    Focuses w env n cs ∧ Focuses w env (n + focusCount cs) ds := by
  induction cs generalizing n with
  | nil => exact ⟨trivial, h⟩
  | cons c cs ih =>
    cases c with
    | focus i =>
      obtain ⟨h1, h2⟩ := ih h.2
      refine ⟨⟨h.1, h1⟩, ?_⟩
      rw [show n + focusCount (.focus i :: cs) = n + 1 + focusCount cs by simp [focusCount]; omega]
      exact h2
    | inject sender out =>
      obtain ⟨h1, h2⟩ := ih h
      exact ⟨h1, by simpa [focusCount] using h2⟩

theorem inject_calls (sender : Sender) (outs : List Output) (fg : Option Hwnd) :
    sentBy w fg (outs.map (.inject sender)) = outs.map (⟨sender, ·, fg⟩) ∧
      fgAfter w fg (outs.map (.inject sender)) = fg ∧ focusCount (outs.map (.inject sender)) = 0 := by
  induction outs with
  | nil => exact ⟨rfl, rfl, rfl⟩
  | cons out outs ih => simpa [sentBy, fgAfter, focusCount] using ih

/-- The calls `cs` take the system from `os` to `os'`. -/
structure Did (os os' : Os) (cs : List Call) : Prop where
  log : os'.log = os.log ++ sentBy w os.fg cs
  fg : os'.fg = fgAfter w os.fg cs
  focusCalls : os'.focusCalls = os.focusCalls + focusCount cs

theorem did_append {os os' os'' : Os} {cs ds : List Call} (h : Did w os os' cs) (h' : Did w os' os'' ds) :
    Did w os os'' (cs ++ ds) := by
  refine ⟨?_, ?_, ?_⟩
  · rw [h'.log, h.log, h.fg, sentBy_append, List.append_assoc]
  · rw [h'.fg, h.fg, fgAfter_append]
  · rw [h'.focusCalls, h.focusCalls, focusCount_append, Nat.add_assoc]

theorem did_outputs {os os' : Os} (sender : Sender) (outs : List Output)
    (h : os'.log = os.log ++ outs.map (⟨sender, ·, os.fg⟩) ∧ os'.fg = os.fg ∧ os'.focusCalls = os.focusCalls) :
    Did w os os' (outs.map (.inject sender)) := by
  obtain ⟨hs, hf, hn⟩ := inject_calls w sender outs os.fg
  exact ⟨by rw [hs]; exact h.1, by rw [hf]; exact h.2.1, by rw [hn]; exact h.2.2⟩

end Calls

section Script
variable {b : Broadcaster} {env : Env}

theorem deliver_did {os : Os} {a : Action} {ev : InputEvent} (hk : a.kind = .deliver)
    (hf : Focuses b.hwndOf env os.focusCalls (b.calls env ev a)) :
    Did b.hwndOf os (b.deliver env os a ev).2 (b.calls env ev a) := by
  unfold calls deliver at *
  simp only [hk] at hf ⊢
  split
  · exact ⟨by simp [sentBy], rfl, rfl⟩
  · next ht =>
    rw [if_neg ht] at hf
    split
    · exact did_outputs _ _ _ (b.post_os env os a.target ev)
    · next hw =>
      rw [if_neg hw] at hf
      obtain ⟨⟨h, hh, hfoc⟩, -⟩ := hf
      have hok : (bringToForeground env os (b.hwndOf a.target)).2 = true := bringToForeground_iff.2 ⟨h, hh, hfoc⟩
      rw [if_neg (not_not.2 hok)]
      have hfocus : Did b.hwndOf os (bringToForeground env os (b.hwndOf a.target)).1 [.focus a.target] :=
        ⟨by simp [sentBy, bringToForeground], hfoc.trans hh.symm, rfl⟩
      have hsend := did_outputs b.hwndOf _ _
        (b.send_os env (bringToForeground env os (b.hwndOf a.target)).1 a.target ev)
      have hd := did_append _ hfocus hsend
      exact ⟨hd.log, hd.fg, hd.focusCalls⟩

theorem act_did {os : Os} {a : Action} {ev : InputEvent} (hk : a.kind ≠ .swapMaster)
    (hf : Focuses b.hwndOf env os.focusCalls (b.calls env ev a)) :
    Did b.hwndOf os (act env ev (b, os) a).2 (b.calls env ev a) := by
  cases hka : a.kind with
  | deliver =>
    have hd := deliver_did hka hf
    simpa only [act, hka] using hd
  | restoreFocus =>
    simp only [act, calls, restoreFocus, hka] at hf ⊢
    split
    · next hm =>
      rw [if_pos hm] at hf
      obtain ⟨⟨h, hh, hfoc⟩, -⟩ := hf
      exact ⟨by simp [sentBy, bringToForeground], hfoc.trans hh.symm, rfl⟩
    · exact ⟨by simp [sentBy], rfl, rfl⟩
  | restoreCursor => simp only [act, calls, hka]; exact ⟨rfl, rfl, rfl⟩
  | reassertHeld =>
    simp only [act, calls, hka]
    have hd := did_outputs b.hwndOf .reassertHeld
      (b.masterKeys.downKeys.map fun (i, k) => .sendKey (code i) k.scan true k.flags)
      (by simpa only [heldSent, List.map_map, Function.comp_def] using b.reassertHeld_os env os)
    simpa only [List.map_map, Function.comp_def] using hd
  | swapMaster => exact absurd hka hk

/-- The calls of an action only depend on the configuration. -/
theorem calls_config {c : Broadcaster} (h : b.config = c.config) : b.calls = c.calls ∧ b.hwndOf = c.hwndOf := by
  obtain ⟨hw, hc, hp⟩ := windows_config h
  simp only [config, Prod.mk.injEq] at h
  obtain ⟨-, ht, hm, hk⟩ := h
  refine ⟨?_, hw⟩
  funext env ev a
  simp only [calls, postOutputs, sendOutputs, hw, hc, hp, ht, hm, hk]

theorem actions_did {ev : InputEvent} (l : List Action) (hl : ∀ a ∈ l, a.kind ≠ .swapMaster) (s : Broadcaster × Os)
    (hc : s.1.config = b.config) (hf : Focuses b.hwndOf env s.2.focusCalls (l.flatMap (b.calls env ev))) :
    Did b.hwndOf s.2 (l.foldl (act env ev) s).2 (l.flatMap (b.calls env ev)) := by
  induction l generalizing s with
  | nil => exact ⟨by simp [sentBy], rfl, rfl⟩
  | cons a l ih =>
    obtain ⟨hcalls, hw⟩ := calls_config hc
    rw [List.flatMap_cons] at hf ⊢
    obtain ⟨h1, h2⟩ := focuses_append _ _ hf
    have hd : Did b.hwndOf s.2 (act env ev s a).2 (b.calls env ev a) := by
      rw [← hcalls, ← hw] at h1 ⊢
      exact act_did (hl a List.mem_cons_self) h1
    have hcfg := (act_config env ev s a (hl a List.mem_cons_self)).trans hc
    rw [← hd.focusCalls] at h2
    exact did_append _ hd (ih (fun c hm => hl c (List.mem_cons_of_mem _ hm)) _ hcfg h2)

/-- What `handle` sends is what its script sends, when every focus call of the
script succeeds and no swap callback is set. -/
theorem handle_script (b : Broadcaster) (env : Env) (os : Os) (ev : InputEvent) (hswap : env.onSwap = none)
    (hf : Focuses (b.applied ev).hwndOf env os.focusCalls ((b.applied ev).script env ev)) :
    Did (b.applied ev).hwndOf os (b.handle env os ev).2 ((b.applied ev).script env ev) := by
  rw [handle_eq]
  unfold script at hf ⊢
  split
  · next ht =>
    rw [if_pos (show (b.applied ev).targets.isEmpty = true from ht)]
    exact ⟨by simp [sentBy], rfl, rfl⟩
  · next ht =>
    rw [if_neg (show ¬ (b.applied ev).targets.isEmpty = true from ht)] at hf ⊢
    generalize b.applied ev = c at hf ⊢
    by_cases hs : isSwapHotkey ev c.routes
    · rw [planOf, plan_actions, if_pos hs]
      split
      · simp only [List.foldl_cons, List.foldl_nil, List.flatMap_cons, List.flatMap_nil, act, calls, swapMaster, hswap]
        exact ⟨by simp [sentBy], rfl, rfl⟩
      · exact ⟨by simp [sentBy], rfl, rfl⟩
    · exact actions_did _ (no_swap fun h => hs h.1) (c, os) rfl hf

end Script

end Broadcaster

end MultiMadness
