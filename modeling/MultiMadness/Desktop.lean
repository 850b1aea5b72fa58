import MultiMadness.RunLib.Runs
import MultiMadness.Feed
import MultiMadness.Script
/-!
# Physical input during a focus cycle

The hooks, the ring, the broadcaster taking the calls of its scripts one at a
time, and the windows. A window is named by its instance and remembers which
keys it believes down until it loses the foreground. Every focus call succeeds;
what we inject never passes the hooks.

The state keeps what no code reads: which window each published key event
reached, and which window each delivered key reached.

- `change`: what every step does.
- `script_aimed`: a key that is injected was re-asserted, or is delivered to the
  window that is in the foreground, a slave's.
-/

namespace MultiMadness

open RunLib KeyState

/-- `swallow_[vk]`. -/
def Capture.hides (c : Capture) (vk : UInt16) : Bool :=
  match slot vk with
  | none => false
  | some i => c.swallow i

structure Desktop extends Feed where
  bc : Broadcaster
  /-- What is left of the script of the popped event, once it is applied. -/
  todo : Option (List Call) := none
  /-- The instance whose window is in the foreground. -/
  fg : Nat
  believed : Nat → UInt16 → Bool := fun _ _ => false
  /-- The window that received the `n`-th publication, for keys not swallowed. -/
  seen : List (Option Nat) := []
  /-- The `n`-th event handled was delivered while this window was in the foreground. -/
  deliveries : List (Nat × Nat) := []

namespace Desktop

inductive Label where
  | key (ts : UInt64) (msg : KeyMsg) (k : KbdLlHook)
  | mouse (ts : UInt64) (msg : MouseMsg) (m : MsLlHook)
  | pop
  | apply
  | call
  | done

/-- A new capture and a new broadcaster, however configured; the master is in
the foreground. -/
def start (cap : Capture) (bc : Broadcaster) : Desktop :=
  { Feed.start cap with bc := { bc with masterKeys := KeyState.init }, fg := bc.master }

/-- The foreground window sees a key. -/
def hear (s : Desktop) (vk : UInt16) (down : Bool) : Nat → UInt16 → Bool :=
  Function.update s.believed s.fg (Function.update (s.believed s.fg) vk down)

def perform (s : Desktop) : Call → Desktop
  | .focus i =>
    { s with
      fg := i
      believed := if i = s.fg then s.believed else Function.update s.believed s.fg fun _ => false }
  | .inject sender (.sendKey vk _ down _) =>
    { s with
      believed := s.hear vk down
      deliveries :=
        match sender with
        | .deliver _ => s.deliveries ++ [(s.handled, s.fg)]
        | _ => s.deliveries }
  | .inject _ _ => s

/-- `env n` is the system while the `n`-th event is handled. -/
def step (env : Nat → Env) (s : Desktop) : Label → Option Desktop
  | .key ts msg k =>
    if s.cap.ignores k.dwExtraInfo (k.flags &&& LLKHF_INJECTED ≠ 0) then none
    else
      let ev := Capture.keyEvent ts msg k
      let swallow := (s.cap.onKey s.ring ts msg k).2.2
      some { s with
        toFeed := s.key ts msg k
        believed := if swallow then s.believed else s.hear ev.vk (ev.kind = .keyDown)
        seen := s.seen ++ (s.cap.keyPublished ts msg k).toList.map fun _ => if swallow then none else some s.fg }
  | .mouse ts msg m =>
    some { s with
      toFeed := s.mouse ts msg m
      seen := s.seen ++ (s.cap.mousePublished ts msg m).toList.map fun _ => none }
  | .pop => s.pop.map fun f => { s with toFeed := f }
  | .apply =>
    match s.popped, s.todo with
    | some ev, none => some { s with bc := s.bc.applied ev, todo := some ((s.bc.applied ev).script (env s.handled) ev) }
    | _, _ => none
  | .call =>
    match s.todo with
    | some (c :: cs) => some { s.perform c with todo := some cs }
    | _ => none
  | .done =>
    match s.todo with
    | some [] => some { s with toFeed := s.done, todo := none }
    | _ => none

/-! ## What a call leaves alone -/

@[simp] theorem perform_feed (s : Desktop) (c : Call) : (s.perform c).toFeed = s.toFeed := by
  cases c with
  | focus i => rfl
  | inject sender out => cases out <;> rfl

@[simp] theorem perform_bc (s : Desktop) (c : Call) : (s.perform c).bc = s.bc := by
  cases c with
  | focus i => rfl
  | inject sender out => cases out <;> rfl

@[simp] theorem perform_seen (s : Desktop) (c : Call) : (s.perform c).seen = s.seen := by
  cases c with
  | focus i => rfl
  | inject sender out => cases out <;> rfl

/-! ## What the hook hides -/

@[simp] theorem hides_code (c : Capture) (i : Fin 256) : c.hides (code i) = c.swallow i := by simp [Capture.hides]

theorem hides_congr {c d : Capture} (h : c.swallow = d.swallow) : c.hides = d.hides := by
  funext vk; simp [Capture.hides, h]

/-- The hook's answer to an accepted key event. -/
theorem onKey_hides {c : Capture} {k : KbdLlHook}
    (h : c.ignores k.dwExtraInfo (k.flags &&& LLKHF_INJECTED ≠ 0) = false) (ring : EventRing) (ts : UInt64)
    (msg : KeyMsg) : (c.onKey ring ts msg k).2.2 = c.hides (Capture.keyEvent ts msg k).vk := by
  rw [Capture.onKey_swallow, h]
  exact (hides_code c (Capture.keyIndex k)).symm

/-! ## What a step does -/

/-- A step, with what it requires and what it leaves. -/
inductive Change (env : Nat → Env) (s : Desktop) : Label → Desktop → Prop where
  | key (ts : UInt64) (msg : KeyMsg) (k : KbdLlHook)
      (hacc : s.cap.ignores k.dwExtraInfo (k.flags &&& LLKHF_INJECTED ≠ 0) = false) :
      Change env s (.key ts msg k)
        { s with
          toFeed := s.key ts msg k
          believed :=
            if s.cap.hides (Capture.keyEvent ts msg k).vk then s.believed
            else s.hear (Capture.keyEvent ts msg k).vk ((Capture.keyEvent ts msg k).kind = .keyDown)
          seen := s.seen ++ (s.cap.keyPublished ts msg k).toList.map fun _ =>
            if s.cap.hides (Capture.keyEvent ts msg k).vk then none else some s.fg }
  | mouse (ts : UInt64) (msg : MouseMsg) (m : MsLlHook) :
      Change env s (.mouse ts msg m)
        { s with
          toFeed := s.mouse ts msg m
          seen := s.seen ++ (s.cap.mousePublished ts msg m).toList.map fun _ => none }
  | pop (f : Feed) (hf : s.pop = some f) : Change env s .pop { s with toFeed := f }
  | apply (ev : InputEvent) (hp : s.popped = some ev) (htodo : s.todo = none) :
      Change env s .apply
        { s with bc := s.bc.applied ev, todo := some ((s.bc.applied ev).script (env s.handled) ev) }
  | call (c : Call) (cs : List Call) (htodo : s.todo = some (c :: cs)) :
      Change env s .call { s.perform c with todo := some cs }
  | done (htodo : s.todo = some []) : Change env s .done { s with toFeed := s.done, todo := none }

theorem change {env : Nat → Env} {s t : Desktop} {l : Label} (h : step env s l = some t) : Change env s l t := by
  cases l with
  | key ts msg k =>
    simp only [step] at h
    split at h
    · cases h
    · next hacc =>
      rw [onKey_hides (Bool.eq_false_iff.2 hacc)] at h
      cases h
      exact .key ts msg k (Bool.eq_false_iff.2 hacc)
  | mouse ts msg m => cases h; exact .mouse ts msg m
  | pop =>
    obtain ⟨f, hf, rfl⟩ := Option.map_eq_some_iff.1 h
    exact .pop f hf
  | apply =>
    simp only [step] at h
    split at h
    · next ev hp htodo => cases h; exact .apply ev hp htodo
    · cases h
  | call =>
    simp only [step] at h
    split at h
    · next c cs htodo => cases h; exact .call c cs htodo
    · cases h
  | done =>
    simp only [step] at h
    split at h
    · next htodo => cases h; exact .done htodo
    · cases h

/-! ## Where a script's keys go -/

/-- A key injected while `fg` is in the foreground is a held key, or delivered
to a slave that is `fg`. -/
def AimedAt (master fg : Nat) (sender : Sender) : Output → Prop
  | .sendKey .. => sender = .reassertHeld ∨ sender = .deliver fg ∧ fg ≠ master
  | _ => True

/-- Every key of the calls is aimed at the window it meets. -/
def Aimed (master : Nat) : Nat → List Call → Prop
  | _, [] => True
  | _, .focus i :: cs => Aimed master i cs
  | fg, .inject sender out :: cs => AimedAt master fg sender out ∧ Aimed master fg cs

/-- What is left of a script stays aimed. -/
theorem aimed_perform {master : Nat} {s : Desktop} {c : Call} {cs : List Call} (h : Aimed master s.fg (c :: cs)) :
    Aimed master (s.perform c).fg cs := by
  cases c with
  | focus i => exact h
  | inject sender out => cases out <;> exact h.2

/-- The calls that deliver a key to `t`. -/
def deliversKey (t : Nat) : Call → Bool
  | .inject (.deliver i) (.sendKey ..) => i = t
  | _ => false

section Scripts
variable {b : Broadcaster} {env : Env} {ev : InputEvent} {master : Nat}

theorem aimed_injects {fg : Nat} {sender : Sender} {outs : List Output} {cs : List Call}
    (h : ∀ out ∈ outs, AimedAt master fg sender out) (hcs : Aimed master fg cs) :
    Aimed master fg (outs.map (.inject sender) ++ cs) := by
  induction outs with
  | nil => exact hcs
  | cons out outs ih =>
    exact ⟨h out List.mem_cons_self, ih fun o ho => h o (List.mem_cons_of_mem _ ho)⟩

/-- One delivery, then calls that are aimed whatever the foreground. -/
theorem aimed_delivery {s : Strategy} {t : Nat} {cs : List Call} (ht : t ≠ master) (hcs : ∀ fg, Aimed master fg cs)
    (fg : Nat) : Aimed master fg (b.calls env ev (deliverTo s t) ++ cs) := by
  rw [Broadcaster.calls_deliver]
  by_cases hlen : t ≥ b.targets.length
  · rw [if_pos hlen]; exact hcs fg
  rw [if_neg hlen]
  by_cases hs : s = .windowMessage
  · rw [if_pos hs]
    refine aimed_injects (fun out ho => ?_) (hcs fg)
    rcases Broadcaster.mem_postOutputs ho with ⟨down, rfl⟩ | ⟨down, rfl⟩ | rfl <;> trivial
  · rw [if_neg hs]
    have hsend : Aimed master t ((b.sendOutputs env t ev).map (.inject (.deliver t)) ++ cs) := by
      refine aimed_injects (fun out _ => ?_) (hcs t)
      cases out with
      | sendKey => exact .inr ⟨rfl, ht⟩
      | _ => trivial
    exact hsend

theorem aimed_deliveries {s : Strategy} {l : List Nat} (hl : ∀ t ∈ l, t ≠ master) {cs : List Call}
    (hcs : ∀ fg, Aimed master fg cs) (fg : Nat) :
    Aimed master fg ((l.map (deliverTo s)).flatMap (b.calls env ev) ++ cs) := by
  induction l generalizing fg with
  | nil => exact hcs fg
  | cons t l ih =>
    rw [List.map_cons, List.flatMap_cons, List.append_assoc]
    exact aimed_delivery (hl t List.mem_cons_self) (fun fg => ih (fun u hu => hl u (List.mem_cons_of_mem _ hu)) fg) fg

/-- What the repairs inject is aimed wherever it goes. -/
theorem repairs_free {ks : KeyState} {c : Call} (h : c ∈ (repairs ev ks).flatMap (b.calls env ev)) :
    (∃ i, c = .focus i) ∨ ∃ sender out, c = .inject sender out ∧ (∀ i, sender ≠ .deliver i) ∧
      ∀ master fg, AimedAt master fg sender out := by
  obtain ⟨a, ha, hc⟩ := List.mem_flatMap.1 h
  unfold Broadcaster.calls at hc
  rcases repairs_kind ha with hk | hk | hk <;> simp only [hk] at hc
  · rw [List.mem_singleton] at hc
    exact .inr ⟨_, _, hc, by simp, fun _ _ => trivial⟩
  · split at hc
    · rw [List.mem_singleton] at hc; exact .inl ⟨_, hc⟩
    · cases hc
  · obtain ⟨⟨i, k⟩, -, rfl⟩ := List.mem_map.1 hc
    exact .inr ⟨_, _, rfl, by simp, fun _ _ => .inl rfl⟩

theorem aimed_of_free {cs : List Call}
    (h : ∀ c ∈ cs, (∃ i, c = .focus i) ∨ ∃ sender out, c = .inject sender out ∧ (∀ i, sender ≠ .deliver i) ∧
      ∀ master fg, AimedAt master fg sender out) (master fg : Nat) : Aimed master fg cs := by
  induction cs generalizing fg with
  | nil => trivial
  | cons c cs ih =>
    have ih' := ih fun d hd => h d (List.mem_cons_of_mem _ hd)
    rcases h c List.mem_cons_self with ⟨i, rfl⟩ | ⟨sender, out, rfl, -, ha⟩
    · exact ih' i
    · exact ⟨ha master fg, ih' fg⟩

/-- Every key of a script is aimed at the window it meets. -/
theorem script_aimed (b : Broadcaster) (env : Env) (ev : InputEvent) (fg : Nat) :
    Aimed b.master fg (b.script env ev) := by
  unfold Broadcaster.script
  split
  · trivial
  · rw [Broadcaster.planOf, plan_actions]
    split
    · split
      · trivial
      · trivial
    · cases hr : rule ev b.routes b.masterKeys with
      | none => trivial
      | some r =>
        obtain ⟨targets, s⟩ := r
        simp only [Option.map_some, Option.getD_some, ruleActions, List.flatMap_append]
        refine aimed_deliveries (fun t ht => (mem_mirrorTargets.1 ht).2.2.2) (fun fg => ?_) fg
        split
        · exact aimed_of_free (fun c hc => repairs_free hc) b.master fg
        · trivial

end Scripts

end Desktop

end MultiMadness
