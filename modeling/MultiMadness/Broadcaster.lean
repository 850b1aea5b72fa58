import MultiMadness.Capture
import MultiMadness.Dispatch
import MultiMadness.LatencyStats
/-!
# The broadcaster

`broadcaster.cpp`: `handle` applies an event to its copy of the keyboard, plans
it and executes the plan against the desktop. The operating system is an
environment `Env` of answers, one per call, and a state `Os` that records what
was sent and which window was in the foreground then. How long a call waits and
sleeps is left out.
-/

namespace MultiMadness

open KeyState

/-- A window handle; a null `HWND` is `none`. -/
abbrev Hwnd := Nat

structure Target where
  hwnd : Option Hwnd := none
deriving DecidableEq

/-- Who asks for an injection. -/
inductive Sender where
  | deliver (target : Nat)
  | reassertHeld
  | restoreCursor
deriving DecidableEq

/-- The calls of `inject.hpp`. -/
inductive Output where
  | sendKey (vk scan : UInt16) (down : Bool) (flags : UInt16)
  | sendMouseButton (vk : UInt16) (down : Bool)
  | sendMouseMoveAbs (p : AbsPoint)
  | sendWheel (vertical horizontal : Int)
  | postKey (hwnd : Option Hwnd) (vk scan : UInt16) (down : Bool) (flags : UInt16)
  | postMouseButton (hwnd : Option Hwnd) (vk : UInt16) (down : Bool) (clientX clientY : Int)
  | postWheel (hwnd : Option Hwnd) (vertical horizontal screenX screenY : Int)
deriving DecidableEq

/-- One injection, and the foreground window it met. -/
structure Sent where
  sender : Sender
  out : Output
  fg : Option Hwnd
deriving DecidableEq

/-- What the swap callback of `cmd_run` does to the broadcaster: publish new
targets, then bring a window to the foreground. -/
structure SwapCall where
  targets : List Target
  master : Nat
  focus : Option Hwnd

/-- The operating system's answers. `focus n` is the foreground window when the
`n`-th call of `bring_to_foreground` returns. -/
structure Env where
  isWindow : Hwnd → Bool := fun _ => true
  focus : Nat → Option Hwnd := fun _ => none
  accepts : Nat → Bool := fun _ => true
  clientRect : Option Hwnd → Rect := fun _ => {}
  virtualScreen : Rect := {}
  qpcNow : Nat → UInt64 := fun _ => 0
  qpcFrequency : UInt64 := 1
  onSwap : Option SwapCall := none

structure Os where
  fg : Option Hwnd := none
  focusCalls : Nat := 0
  sends : Nat := 0
  clockReads : Nat := 0
  log : List Sent := []

/-- It reports whether the target is the foreground window when it returns; a
failed call may leave any other window there. -/
def bringToForeground (env : Env) (os : Os) (target : Option Hwnd) : Os × Bool :=
  ({ os with fg := env.focus os.focusCalls, focusCalls := os.focusCalls + 1 },
    target.isSome && env.focus os.focusCalls = target)

/-- A call of `inject.hpp`; the answer is whether the system accepted it. -/
def emit (env : Env) (os : Os) (sender : Sender) (out : Output) : Os × Bool :=
  ({ os with sends := os.sends + 1, log := os.log ++ [⟨sender, out, os.fg⟩] }, env.accepts os.sends)

/-- `qpc_to_us`. -/
def qpcToUs (env : Env) (ticks : UInt64) : UInt32 := (ticks * 1000000 / env.qpcFrequency).toUInt32

/-- `Broadcaster::Snapshot`. -/
structure Snapshot where
  latency : LatencyStats := {}
  deliveries : UInt64 := 0
  focusFailures : UInt64 := 0
  injectFailures : UInt64 := 0

structure Broadcaster where
  pendingRoutes : Routes := {}
  pendingTargets : List Target := []
  pendingMaster : Nat := 0
  configVersion : UInt64 := 1
  routes : Routes := {}
  targets : List Target := []
  master : Nat := 0
  seenVersion : UInt64 := 0
  masterKeys : KeyState := KeyState.init
  stats : Snapshot := {}

namespace Broadcaster

def setRoutes (b : Broadcaster) (routes : Routes) : Broadcaster :=
  { b with pendingRoutes := routes, configVersion := b.configVersion + 1 }

def setTargets (b : Broadcaster) (targets : List Target) (master : Nat) : Broadcaster :=
  { b with pendingTargets := targets, pendingMaster := master, configVersion := b.configVersion + 1 }

def refreshConfig (b : Broadcaster) : Broadcaster :=
  if b.configVersion = b.seenVersion then b
  else
    { b with
      routes := b.pendingRoutes
      targets := b.pendingTargets
      master := b.pendingMaster
      seenVersion := b.configVersion }

/-- The window of an instance; null for an index `targets_` does not have. -/
def hwndOf (b : Broadcaster) (i : Nat) : Option Hwnd := (b.targets[i]?).bind (·.hwnd)

def clientOf (b : Broadcaster) (env : Env) (i : Nat) : Rect :=
  if i < b.targets.length then env.clientRect (b.hwndOf i) else {}

def focusFailed (b : Broadcaster) : Broadcaster :=
  { b with stats := { b.stats with focusFailures := b.stats.focusFailures + 1 } }

/-- The counters at the end of a delivery. -/
def delivered (b : Broadcaster) (us : UInt32) (ok : Bool) : Broadcaster :=
  { b with
    stats := { b.stats with
      latency := b.stats.latency.record us
      deliveries := b.stats.deliveries + 1
      injectFailures := if ok then b.stats.injectFailures else b.stats.injectFailures + 1 } }

/-- Where a mouse event goes on the target's client area. -/
def mapped (b : Broadcaster) (env : Env) (target : Nat) (x y : Int) : Point :=
  denormalize (b.clientOf env target) (normalize (b.clientOf env b.master) x y)

/-- The `WindowMessage` branch of `deliver`. -/
def post (b : Broadcaster) (env : Env) (os : Os) (target : Nat) (ev : InputEvent) : Os × Bool :=
  let hwnd := b.hwndOf target
  if isKey ev.kind then
    emit env os (.deliver target) (.postKey hwnd ev.vk ev.scan (ev.kind = .keyDown) ev.flags)
  else
    let client := b.clientOf env target
    let p := b.mapped env target ev.x ev.y
    if isMouseButton ev.kind then
      emit env os (.deliver target)
        (.postMouseButton hwnd ev.vk (ev.kind = .mouseDown) (p.x - client.x) (p.y - client.y))
    else if ev.kind = .wheel then emit env os (.deliver target) (.postWheel hwnd ev.y ev.x p.x p.y)
    else (os, true)

/-- What `deliver` sends once the target is in the foreground. -/
def send (b : Broadcaster) (env : Env) (os : Os) (target : Nat) (ev : InputEvent) : Os × Bool :=
  if isKey ev.kind then
    emit env os (.deliver target) (.sendKey ev.vk ev.scan (ev.kind = .keyDown) ev.flags)
  else
    let p := b.mapped env target ev.x ev.y
    let (os, ok) := emit env os (.deliver target) (.sendMouseMoveAbs (toAbsolute env.virtualScreen p.x p.y))
    if isMouseButton ev.kind then
      let (os, ok') := emit env os (.deliver target) (.sendMouseButton ev.vk (ev.kind = .mouseDown))
      (os, ok && ok')
    else if ev.kind = .wheel then
      let (os, ok') := emit env os (.deliver target) (.sendWheel ev.y ev.x)
      (os, ok && ok')
    else (os, ok)

/-- The clock reading and the counters after a delivery's injection. -/
def account (env : Env) (ev : InputEvent) (b : Broadcaster) : Os × Bool → Broadcaster × Os
  | (os, ok) => (b.delivered (qpcToUs env (env.qpcNow os.clockReads - ev.ts)) ok,
      { os with clockReads := os.clockReads + 1 })

def deliver (b : Broadcaster) (env : Env) (os : Os) (a : Action) (ev : InputEvent) : Broadcaster × Os :=
  if a.target ≥ b.targets.length then (b, os)
  else if a.strategy = .windowMessage then account env ev b (b.post env os a.target ev)
  else
    let (os, focused) := bringToForeground env os (b.hwndOf a.target)
    -- Injecting now would hit whatever is foreground instead.
    if ¬ focused then (b.focusFailed, os) else account env ev b (b.send env os a.target ev)

def reassertHeld (b : Broadcaster) (env : Env) (os : Os) : Os :=
  b.masterKeys.downKeys.foldl
    (fun os (i, k) => (emit env os .reassertHeld (.sendKey (code i) k.scan true k.flags)).1) os

def restoreFocus (b : Broadcaster) (env : Env) (os : Os) : Broadcaster × Os :=
  if b.master < b.targets.length then
    let (os, focused) := bringToForeground env os (b.hwndOf b.master)
    (if ¬ focused then b.focusFailed else b, os)
  else (b, os)

def restoreCursor (env : Env) (os : Os) (ev : InputEvent) : Os :=
  (emit env os .restoreCursor (.sendMouseMoveAbs (toAbsolute env.virtualScreen ev.x ev.y))).1

/-- The swap callback, when one is set, and the refresh that follows. -/
def swapMaster (b : Broadcaster) (env : Env) (os : Os) : Broadcaster × Os :=
  match env.onSwap with
  | none => (b.refreshConfig, os)
  | some call =>
    ((b.setTargets call.targets call.master).refreshConfig, (bringToForeground env os call.focus).1)

/-- One turn of the loop of `execute`. -/
def act (env : Env) (ev : InputEvent) (s : Broadcaster × Os) (a : Action) : Broadcaster × Os :=
  match a.kind with
  | .deliver => s.1.deliver env s.2 a ev
  | .restoreFocus => s.1.restoreFocus env s.2
  | .restoreCursor => (s.1, restoreCursor env s.2 ev)
  | .reassertHeld => (s.1, s.1.reassertHeld env s.2)
  | .swapMaster => s.1.swapMaster env s.2

def execute (b : Broadcaster) (env : Env) (os : Os) (p : Plan) (ev : InputEvent) : Broadcaster × Os :=
  p.actions.foldl (act env ev) (b, os)

/-- The live targets of `handle`. -/
def aliveMask (env : Env) (targets : List Target) : TargetMask :=
  (List.range (min targets.length 32)).foldl
    (fun alive i =>
      match (targets[i]?).bind (·.hwnd) with
      | some h => if env.isWindow h then alive ||| targetBit i else alive
      | none => alive)
    0

/-- `handle` up to its plan: the event is applied first. -/
def applied (b : Broadcaster) (ev : InputEvent) : Broadcaster :=
  { b with masterKeys := (b.masterKeys.applyEvent ev).1 }

def planOf (b : Broadcaster) (env : Env) (ev : InputEvent) : Plan :=
  plan ev b.routes (aliveMask env b.targets) b.master b.masterKeys

def handle (b : Broadcaster) (env : Env) (os : Os) (ev : InputEvent) : Broadcaster × Os :=
  let b := b.applied ev
  if b.targets.isEmpty then (b, os)
  else
    let p := b.planOf env ev
    if p.actions.isEmpty then (b, os) else b.execute env os p ev

/-! ## What `handle` leaves alone -/

/-- The part of the broadcaster that only events and publications change. -/
def config (b : Broadcaster) : Routes × List Target × Nat × KeyState := (b.routes, b.targets, b.master, b.masterKeys)

/-- Everything but the counters. -/
def uncounted (b : Broadcaster) : Broadcaster := { b with stats := {} }

theorem deliver_uncounted (b : Broadcaster) (env : Env) (os : Os) (a : Action) (ev : InputEvent) :
    (b.deliver env os a ev).1.uncounted = b.uncounted := by
  unfold deliver
  split
  · rfl
  · split
    · rfl
    · dsimp only; split <;> rfl

theorem restoreFocus_uncounted (b : Broadcaster) (env : Env) (os : Os) :
    (b.restoreFocus env os).1.uncounted = b.uncounted := by
  unfold restoreFocus
  split
  · dsimp only; split <;> rfl
  · rfl

/-- Only the swap action changes more than the counters. -/
theorem act_uncounted (env : Env) (ev : InputEvent) (s : Broadcaster × Os) (a : Action) (h : a.kind ≠ .swapMaster) :
    (act env ev s a).1.uncounted = s.1.uncounted := by
  cases hk : a.kind with
  | deliver => simp only [act, hk, deliver_uncounted]
  | restoreFocus => simp only [act, hk, restoreFocus_uncounted]
  | restoreCursor | reassertHeld => simp only [act, hk]
  | swapMaster => exact absurd hk h

theorem foldl_act_uncounted (env : Env) (ev : InputEvent) (l : List Action) (s : Broadcaster × Os)
    (h : ∀ a ∈ l, a.kind ≠ .swapMaster) : (l.foldl (act env ev) s).1.uncounted = s.1.uncounted := by
  induction l generalizing s with
  | nil => rfl
  | cons a l ih =>
    rw [List.foldl_cons, ih _ (fun c hc => h c (List.mem_cons_of_mem _ hc)),
      act_uncounted env ev s a (h a List.mem_cons_self)]

/-- Only the swap action changes the configuration. -/
theorem act_config (env : Env) (ev : InputEvent) (s : Broadcaster × Os) (a : Action) (h : a.kind ≠ .swapMaster) :
    (act env ev s a).1.config = s.1.config := by
  have hu := congrArg config (act_uncounted env ev s a h)
  exact hu

theorem foldl_act_config (env : Env) (ev : InputEvent) (l : List Action) (s : Broadcaster × Os)
    (h : ∀ a ∈ l, a.kind ≠ .swapMaster) : (l.foldl (act env ev) s).1.config = s.1.config := by
  have hu := congrArg config (foldl_act_uncounted env ev l s h)
  exact hu

@[simp] theorem refreshConfig_masterKeys (b : Broadcaster) : b.refreshConfig.masterKeys = b.masterKeys := by
  unfold refreshConfig; split <;> rfl

@[simp] theorem swapMaster_masterKeys (b : Broadcaster) (env : Env) (os : Os) :
    (b.swapMaster env os).1.masterKeys = b.masterKeys := by
  unfold swapMaster
  split
  · exact refreshConfig_masterKeys b
  · exact refreshConfig_masterKeys _

theorem config_masterKeys {b c : Broadcaster} (h : b.config = c.config) : b.masterKeys = c.masterKeys := by
  simp only [config, Prod.mk.injEq] at h; exact h.2.2.2

theorem act_masterKeys (env : Env) (ev : InputEvent) (s : Broadcaster × Os) (a : Action) :
    (act env ev s a).1.masterKeys = s.1.masterKeys := by
  by_cases h : a.kind = .swapMaster
  · simp [act, h]
  · exact config_masterKeys (act_config env ev s a h)

/-- Handling an event applies it to the broadcaster's keyboard and does nothing
else to it. -/
theorem handle_masterKeys (b : Broadcaster) (env : Env) (os : Os) (ev : InputEvent) :
    (b.handle env os ev).1.masterKeys = (b.masterKeys.applyEvent ev).1 := by
  have h : ∀ (l : List Action) (s : Broadcaster × Os), (l.foldl (act env ev) s).1.masterKeys = s.1.masterKeys := by
    intro l
    induction l with
    | nil => exact fun _ => rfl
    | cons a l ih => exact fun s => (ih _).trans (act_masterKeys env ev s a)
  unfold handle
  dsimp only
  split
  · rfl
  · split
    · rfl
    · exact h _ _

/-! ## The live targets -/

/-- One turn of the loop sets bit `i` if the window of instance `i` exists. -/
theorem getLsbD_aliveStep (env : Env) (targets : List Target) {i : Nat} (hi : i < 32) (m : TargetMask) (j : Nat) :
    (match (targets[i]?).bind (·.hwnd) with
      | some h => if env.isWindow h then m ||| targetBit i else m
      | none => m).getLsbD j = true ↔
      m.getLsbD j = true ∨ j = i ∧ ∃ h, (targets[i]?).bind (·.hwnd) = some h ∧ env.isWindow h = true := by
  cases (targets[i]?).bind (·.hwnd) with
  | none => simp
  | some h =>
    by_cases hw : env.isWindow h = true
    · simp only [hw, if_true, BitVec.getLsbD_or, Bool.or_eq_true, getLsbD_targetBit, Bool.and_eq_true, decide_eq_true_eq]
      refine or_congr_right ⟨fun hj => ⟨hj.2, h, rfl, hw⟩, ?_⟩
      rintro ⟨rfl, -⟩
      exact ⟨hi, rfl⟩
    · simp [hw]

theorem getLsbD_aliveFold (env : Env) (targets : List Target) (l : List Nat) (hl : ∀ i ∈ l, i < 32)
    (m : TargetMask) (j : Nat) :
    (l.foldl (fun alive i =>
        match (targets[i]?).bind (·.hwnd) with
        | some h => if env.isWindow h then alive ||| targetBit i else alive
        | none => alive) m).getLsbD j = true ↔
      m.getLsbD j = true ∨ j ∈ l ∧ ∃ h, (targets[j]?).bind (·.hwnd) = some h ∧ env.isWindow h = true := by
  induction l generalizing m with
  | nil => simp
  | cons i l ih =>
    rw [List.foldl_cons, ih (fun k hk => hl k (List.mem_cons_of_mem _ hk)),
      getLsbD_aliveStep env targets (hl i List.mem_cons_self), List.mem_cons]
    constructor
    · rintro ((hm | ⟨rfl, hw⟩) | ⟨hj, hw⟩)
      · exact .inl hm
      · exact .inr ⟨.inl rfl, hw⟩
      · exact .inr ⟨.inr hj, hw⟩
    · rintro (hm | ⟨rfl | hj, hw⟩)
      · exact .inl (.inl hm)
      · exact .inl (.inr ⟨rfl, hw⟩)
      · exact .inr ⟨hj, hw⟩

/-- The live targets: the first 32 whose window exists. -/
theorem getLsbD_aliveMask {env : Env} {targets : List Target} {i : Nat} :
    (aliveMask env targets).getLsbD i = true ↔
      i < 32 ∧ ∃ h, (targets[i]?).bind (·.hwnd) = some h ∧ env.isWindow h = true := by
  rw [aliveMask, getLsbD_aliveFold env targets _ (fun i hi => by have := List.mem_range.1 hi; omega)]
  simp only [BitVec.ofNat_eq_ofNat, BitVec.getLsbD_zero, Bool.false_eq_true, false_or, List.mem_range]
  constructor
  · rintro ⟨hi, hh⟩; exact ⟨by omega, hh⟩
  · rintro ⟨hi, h, hh, hw⟩
    obtain ⟨t, ht, -⟩ := Option.bind_eq_some_iff.1 hh
    have := (List.getElem?_eq_some_iff.1 ht).1
    exact ⟨by omega, h, hh, hw⟩

/-- A plan of `handle` delivers only to existing windows of `targets_`. -/
theorem mirrorTargets_alive {env : Env} {targets : List Target} {mask : TargetMask} {master i : Nat}
    (h : i ∈ mirrorTargets mask (aliveMask env targets) master) : i < targets.length := by
  obtain ⟨-, -, ha, -⟩ := mem_mirrorTargets.1 h
  obtain ⟨-, w, hw, -⟩ := getLsbD_aliveMask.1 ha
  obtain ⟨t, ht, -⟩ := Option.bind_eq_some_iff.1 hw
  exact (List.getElem?_eq_some_iff.1 ht).1

end Broadcaster

end MultiMadness
