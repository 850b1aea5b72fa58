import MultiMadness.Draining
import MultiMadness.WakeLib.Event
/-!
# Wake-ups and the end of the broadcaster thread

`publish` pushes into the ring and then sets the event that `run` waits on;
`stop` stores its flag and then sets the same event. `run` looks at the flag,
waits at most 20 ms, and drains the ring. The event resets itself when it wakes
`run` up.

- `moves_waiter`: every step is a step of a consumer that waits on one event.
- `no_lost_wakeup`: no accepted event and no stop waits for the timeout.
- `stop_joins`: after `stop` the thread ends in a fixed number of its own steps.
-/

namespace MultiMadness

open RunLib WakeLib

/-- Where the thread is: before the test of the flag, waiting, in the body of
the loop, or at its end. -/
inductive Position where
  | check
  | asleep
  | awake
  | ended
deriving DecidableEq

/-- Where a call of `stop` is. -/
inductive Stopping where
  | no
  | stored
  | told
deriving DecidableEq

/-- The pipeline under `run`, with the event and the flag. -/
structure Wakeups extends Draining where
  loop : Position := .check
  signaled : Bool := false
  /-- `publish` has used the ring and not set the event yet. -/
  pushed : Bool := false
  stop : Bool := false
  stopping : Stopping := .no

namespace Wakeups

inductive Label where
  | key (ts : UInt64) (msg : KeyMsg) (k : KbdLlHook)
  | mouse (ts : UInt64) (msg : MouseMsg) (m : MsLlHook)
  | setEvent
  | publish (call : Publication)
  | check
  | wake
  | timeout
  | refreshConfig
  | pop
  | handle (env : Env)
  | empty
  | storeStop
  | stopEvent
  | start

/-- A new capture and a new broadcaster; the event is created unset. -/
def start (cap : Capture) : Wakeups := { Draining.start cap with }

/-- The steps of the pipeline that a step consists of. -/
def drains : Label → List Draining.Label
  | .key ts msg k => [.key ts msg k]
  | .mouse ts msg m => [.mouse ts msg m]
  | .publish call => [.publish call]
  | .wake | .timeout => [.wake]
  | .refreshConfig => [.refreshConfig]
  | .pop => [.pop]
  | .handle env => [.handle env]
  | .empty => [.empty]
  | .setEvent | .check | .storeStop | .stopEvent | .start => []

/-- What a step requires besides. The thread is joined before it is started again. -/
def allows (s : Wakeups) : Label → Bool
  | .key .. | .mouse .. => !s.pushed
  | .setEvent => s.pushed
  | .publish _ => true
  | .check => s.loop = .check
  | .wake => s.loop = .asleep && s.signaled
  | .timeout => s.loop = .asleep && !s.signaled
  | .refreshConfig | .pop | .handle _ | .empty => s.loop = .awake
  | .storeStop => s.stopping = .no
  | .stopEvent => s.stopping = .stored
  | .start => s.loop = .ended && s.stopping = .told

/-- What a step leaves, when `d` is what it leaves of the pipeline. -/
def after (s : Wakeups) (d : Draining) : Label → Wakeups
  | .key ts msg k => { s with toDraining := d, pushed := (s.cap.keyPublished ts msg k).isSome }
  | .mouse ts msg m => { s with toDraining := d, pushed := (s.cap.mousePublished ts msg m).isSome }
  | .setEvent => { s with toDraining := d, pushed := false, signaled := true }
  | .publish _ | .refreshConfig | .pop | .handle _ => { s with toDraining := d }
  | .check => { s with toDraining := d, loop := if s.stop then .ended else .asleep }
  | .wake => { s with toDraining := d, loop := .awake, signaled := false }
  | .timeout => { s with toDraining := d, loop := .awake }
  | .empty => { s with toDraining := d, loop := .check }
  | .storeStop => { s with toDraining := d, stop := true, stopping := .stored }
  | .stopEvent => { s with toDraining := d, signaled := true, stopping := .told }
  | .start => { s with toDraining := d, loop := .check, stop := false, stopping := .no }

def step (s : Wakeups) (l : Label) : Option Wakeups :=
  if s.allows l then (run Draining.step s.toDraining (drains l)).map (s.after · l) else none

/-! ## What a step does -/

/-- A step, with what the pipeline did and what the loop, the event and the
flag were and are. -/
inductive Change (s : Wakeups) : Label → Wakeups → Prop where
  | key (ts : UInt64) (msg : KeyMsg) (k : KbdLlHook) (hp : s.pushed = false) :
      Change s (.key ts msg k)
        { s with toFeed := s.key ts msg k, pushed := (s.cap.keyPublished ts msg k).isSome }
  | mouse (ts : UInt64) (msg : MouseMsg) (m : MsLlHook) (hp : s.pushed = false) :
      Change s (.mouse ts msg m)
        { s with toFeed := s.mouse ts msg m, pushed := (s.cap.mousePublished ts msg m).isSome }
  | setEvent (hp : s.pushed = true) : Change s .setEvent { s with pushed := false, signaled := true }
  | publish (call : Publication) : Change s (.publish call) { s with toDraining := s.toDraining.publish call }
  | enter (hl : s.loop = .check) (hs : s.stop = false) : Change s .check { s with loop := .asleep }
  | leave (hl : s.loop = .check) (hs : s.stop = true) : Change s .check { s with loop := .ended }
  | wake (hl : s.loop = .asleep) (hpc : s.pc = .waiting) (hs : s.signaled = true) :
      Change s .wake { s with pc := .woken, loop := .awake, signaled := false }
  | timeout (hl : s.loop = .asleep) (hpc : s.pc = .waiting) (hs : s.signaled = false) :
      Change s .timeout { s with pc := .woken, loop := .awake }
  | refreshConfig (hl : s.loop = .awake) (hpc : s.pc = .woken) :
      Change s .refreshConfig { s with toDraining := { s.toDraining.refresh with pc := .draining } }
  | pop (ev : InputEvent) (ring : EventRing) (hl : s.loop = .awake) (hpc : s.pc = .draining) (hp : s.popped = none)
      (hr : s.ring.items = ev :: ring.items) :
      Change s .pop { s with popped := some ev, ring := ring, poppedAt := s.configs.length - 1 }
  | handle (env : Env) (ev : InputEvent) (d : Draining) (hl : s.loop = .awake) (hp : s.popped = some ev)
      (hf : d.toFeed = s.done) (hpc : d.pc = s.pc) : Change s (.handle env) { s with toDraining := d }
  | empty (hl : s.loop = .awake) (hpc : s.pc = .draining) (hp : s.popped = none) (hr : s.ring.items = []) :
      Change s .empty { s with pc := .waiting, loop := .check }
  | storeStop (hs : s.stopping = .no) : Change s .storeStop { s with stop := true, stopping := .stored }
  | stopEvent (hs : s.stopping = .stored) : Change s .stopEvent { s with signaled := true, stopping := .told }
  | start (hl : s.loop = .ended) (hs : s.stopping = .told) :
      Change s .start { s with loop := .check, stop := false, stopping := .no }

theorem step_eq_some {s t : Wakeups} {l : Label} : step s l = some t ↔
    s.allows l = true ∧ ∃ d, run Draining.step s.toDraining (drains l) = some d ∧ s.after d l = t := by
  simp only [step, Option.ite_none_right_eq_some, Option.map_eq_some_iff]

theorem run_one {d e : Draining} {l : Draining.Label} : run Draining.step d [l] = some e ↔ Draining.step d l = some e := by
  rw [run_cons_some]
  exact ⟨fun ⟨_, h, he⟩ => by cases he; exact h, fun h => ⟨e, h, rfl⟩⟩

theorem handle_change {s d : Draining} {env : Env} (h : Draining.step s (.handle env) = some d) :
    ∃ ev, s.popped = some ev ∧ d.toFeed = s.done ∧ d.pc = s.pc := by
  simp only [Draining.step] at h
  split at h
  · cases h
  · next ev hp =>
    cases h
    refine ⟨ev, hp, rfl, ?_⟩
    dsimp only
    split
    · unfold Draining.swap
      split <;> rfl
    · rfl

theorem wake_change {s d : Draining} (h : Draining.step s .wake = some d) :
    s.pc = .waiting ∧ d = { s with pc := .woken } := by
  simp only [Draining.step, Option.ite_none_right_eq_some, Option.some.injEq] at h
  exact ⟨h.1, h.2.symm⟩

theorem change {s t : Wakeups} {l : Label} (h : step s l = some t) : Change s l t := by
  obtain ⟨ha, d, hd, rfl⟩ := step_eq_some.1 h
  cases l with
  | key ts msg k => cases hd; exact .key ts msg k (by simpa [allows] using ha)
  | mouse ts msg m => cases hd; exact .mouse ts msg m (by simpa [allows] using ha)
  | setEvent => cases hd; exact .setEvent ha
  | publish call => cases hd; exact .publish call
  | check =>
    cases hd
    have hl : s.loop = .check := of_decide_eq_true ha
    by_cases hs : s.stop = true
    · rw [after, if_pos hs]; exact .leave hl hs
    · rw [after, if_neg hs]; exact .enter hl (Bool.eq_false_iff.2 hs)
  | wake =>
    simp only [allows, Bool.and_eq_true, decide_eq_true_eq] at ha
    obtain ⟨hpc, rfl⟩ := wake_change (run_one.1 hd)
    exact .wake ha.1 hpc ha.2
  | timeout =>
    simp only [allows, Bool.and_eq_true, decide_eq_true_eq, Bool.not_eq_true'] at ha
    obtain ⟨hpc, rfl⟩ := wake_change (run_one.1 hd)
    exact .timeout ha.1 hpc ha.2
  | refreshConfig =>
    have hd' := run_one.1 hd
    simp only [Draining.step, Option.ite_none_right_eq_some, Option.some.injEq] at hd'
    obtain ⟨hpc, rfl⟩ := hd'
    exact .refreshConfig (of_decide_eq_true ha) hpc
  | pop =>
    have hd' := run_one.1 hd
    simp only [Draining.step, Option.ite_none_right_eq_some, Option.map_eq_some_iff] at hd'
    obtain ⟨hpc, f, hf, rfl⟩ := hd'
    obtain ⟨ev, ring, hp, hr, rfl⟩ := Feed.pop_eq_some hf
    exact .pop ev ring (of_decide_eq_true ha) hpc hp hr
  | handle env =>
    obtain ⟨ev, hp, hf, hpc⟩ := handle_change (run_one.1 hd)
    exact .handle env ev d (of_decide_eq_true ha) hp hf hpc
  | empty =>
    have hd' := run_one.1 hd
    simp only [Draining.step] at hd'
    split at hd'
    · next hpc hp hr => cases hd'; exact .empty (of_decide_eq_true ha) hpc hp (Fifo.pop_eq_none.1 hr)
    · cases hd'
  | storeStop => cases hd; exact .storeStop (of_decide_eq_true ha)
  | stopEvent => cases hd; exact .stopEvent (of_decide_eq_true ha)
  | start =>
    cases hd
    simp only [allows, Bool.and_eq_true, decide_eq_true_eq] at ha
    exact .start ha.1 ha.2

/-- The pipeline's side of a step is a run of the pipeline. -/
theorem run_drains {s t : Wakeups} {l : Label} (h : step s l = some t) :
    run Draining.step s.toDraining (drains l) = some t.toDraining := by
  obtain ⟨-, d, hd, rfl⟩ := step_eq_some.1 h
  rw [hd]
  cases l <;> rfl

/-! ## The event -/

/-- What there is to do for the thread. -/
inductive Cond where
  | ring
  | stop
deriving DecidableEq

/-- The thread as a consumer: it passes the ring at the end of its loop, and
the flag when it goes to wait. -/
def waiter (s : Wakeups) : Waiter Cond where
  up
    | .ring => !s.ring.items.isEmpty
    | .stop => s.stop
  owed
    | .ring => s.pushed
    | .stop => s.stopping = .stored
  passed
    | .ring => s.loop ≠ .awake
    | .stop => s.loop = .asleep
  signaled := s.signaled

/-- What a step is to the event. -/
def moves (s : Wakeups) : Label → List (Waiter.Move Cond)
  | .key ts msg k => if (s.cap.keyPublished ts msg k).isSome then [.raise .ring] else []
  | .mouse ts msg m => if (s.cap.mousePublished ts msg m).isSome then [.raise .ring] else []
  | .setEvent => [.signal .ring]
  | .check => if s.stop then [] else [.pass .stop]
  | .wake => [.wake]
  | .timeout => [.timeout]
  | .pop => if s.ring.items.length = 1 then [.lower .ring] else []
  | .empty => [.pass .ring]
  | .storeStop => [.raise .stop]
  | .stopEvent => [.signal .stop]
  | .start => [.lower .stop]
  | .publish _ | .refreshConfig | .handle _ => []

/-- A callback that publishes leaves the ring with something in it; one that
does not leaves it as it was. -/
theorem hooked_ring {f g : Feed} {ev : Option InputEvent} (h : Feed.Hooked f ev g) :
    (!g.ring.items.isEmpty) = (ev.isSome || !f.ring.items.isEmpty) := by
  cases h with
  | quiet n => rfl
  | published ev hev =>
    rw [f.published_ring ev, Fifo.push_ok]
    by_cases hlt : f.ring.items.length < 4096
    · simp [hlt]
    · have hne : f.ring.items ≠ [] := fun h => hlt (by rw [h]; decide)
      simp [hlt, hne]

/-- Two consumers are equal when they agree on both conditions. -/
theorem waiter_eq {w v : Waiter Cond} (hu : ∀ c, w.up c = v.up c) (ho : ∀ c, w.owed c = v.owed c)
    (hp : ∀ c, w.passed c = v.passed c) (hs : w.signaled = v.signaled) : w = v :=
  Waiter.ext (funext hu) (funext ho) (funext hp) hs

theorem waiter_hooked {s : Wakeups} {ev : Option InputEvent} {f : Feed} (h : Feed.Hooked s.toFeed ev f)
    (hp : s.pushed = false) :
    run Waiter.step s.waiter (if ev.isSome then [.raise .ring] else []) =
      some (waiter { s with toFeed := f, pushed := ev.isSome }) := by
  have hr := hooked_ring h
  cases ev with
  | none =>
    simp only [Option.isSome_none, Bool.false_or] at hr
    simp [waiter, hr, hp]
  | some ev =>
    simp only [Option.isSome_some, Bool.true_or] at hr
    have howed : s.waiter.owed .ring = false := hp
    rw [Option.isSome_some, if_pos rfl, run_cons, Waiter.step, howed, if_neg Bool.false_ne_true, Option.bind_some, run_nil]
    refine congrArg some (waiter_eq ?_ ?_ (fun _ => rfl) rfl) <;> intro c <;> cases c <;> simp [waiter, hr]

/-- Every step is a step of the consumer on its event. -/
theorem moves_waiter {s t : Wakeups} {l : Label} (h : step s l = some t) :
    run Waiter.step s.waiter (s.moves l) = some t.waiter := by
  cases change h with
  | key ts msg k hp => exact waiter_hooked (s.hooked_key ts msg k) hp
  | mouse ts msg m hp => exact waiter_hooked (s.hooked_mouse ts msg m) hp
  | setEvent hp =>
    have howed : s.waiter.owed .ring = true := hp
    rw [moves, run_cons, Waiter.step, howed, if_pos rfl, Option.bind_some, run_nil]
    refine congrArg some (waiter_eq (fun _ => rfl) ?_ (fun _ => rfl) rfl)
    rintro (_ | _) <;> simp [waiter]
  | publish call => rfl
  | enter hl hs =>
    have hup : s.waiter.up .stop = false := hs
    rw [moves, if_neg (Bool.eq_false_iff.1 hs), run_cons, Waiter.step, hup, if_neg Bool.false_ne_true, Option.bind_some,
      run_nil]
    refine congrArg some (waiter_eq (fun _ => rfl) (fun _ => rfl) ?_ rfl)
    rintro (_ | _) <;> simp [waiter, hl]
  | leave hl hs =>
    rw [moves, if_pos hs, run_nil]
    refine congrArg some (waiter_eq (fun _ => rfl) (fun _ => rfl) ?_ rfl)
    rintro (_ | _) <;> simp [waiter, hl]
  | wake hl hpc hs =>
    have hsig : s.waiter.signaled = true := hs
    rw [moves, run_cons, Waiter.step, hsig, if_pos rfl, Option.bind_some, run_nil]
    refine congrArg some (waiter_eq (fun _ => rfl) (fun _ => rfl) ?_ rfl)
    rintro (_ | _) <;> simp [waiter]
  | timeout hl hpc hs =>
    have hsig : s.waiter.signaled = false := hs
    rw [moves, run_cons, Waiter.step, hsig, if_neg Bool.false_ne_true, Option.bind_some, run_nil]
    refine congrArg some (waiter_eq (fun _ => rfl) (fun _ => rfl) ?_ (hs.symm))
    rintro (_ | _) <;> simp [waiter]
  | refreshConfig hl hpc => rfl
  | pop ev ring hl hpc hp hr =>
    have hlen : s.ring.items.length = 1 ↔ ring.items = [] := by
      rw [hr, List.length_cons, Nat.add_eq_right, List.length_eq_zero_iff]
    by_cases he : ring.items = []
    · have hpassed : s.waiter.passed .ring = false := by simp [waiter, hl]
      rw [moves, if_pos (hlen.2 he), run_cons, Waiter.step, hpassed, if_neg Bool.false_ne_true, Option.bind_some, run_nil]
      refine congrArg some (waiter_eq ?_ (fun _ => rfl) (fun _ => rfl) rfl)
      rintro (_ | _) <;> simp [waiter, he]
    · rw [moves, if_neg fun h => he (hlen.1 h), run_nil]
      refine congrArg some (waiter_eq ?_ (fun _ => rfl) (fun _ => rfl) rfl)
      rintro (_ | _) <;> simp [waiter, hr, he]
  | handle env ev d hl hp hf hpc =>
    rw [moves, run_nil]
    refine congrArg some (waiter_eq ?_ (fun _ => rfl) (fun _ => rfl) rfl)
    have hring : d.ring = s.done.ring := by rw [hf]
    rintro (_ | _) <;> simp [waiter, hring, Feed.done]
  | empty hl hpc hp hr =>
    have hup : s.waiter.up .ring = false := by simp [waiter, hr]
    rw [moves, run_cons, Waiter.step, hup, if_neg Bool.false_ne_true, Option.bind_some, run_nil]
    refine congrArg some (waiter_eq (fun _ => rfl) (fun _ => rfl) ?_ rfl)
    rintro (_ | _) <;> simp [waiter, hl]
  | storeStop hs =>
    have howed : s.waiter.owed .stop = false := by simp [waiter, hs]
    rw [moves, run_cons, Waiter.step, howed, if_neg Bool.false_ne_true, Option.bind_some, run_nil]
    refine congrArg some (waiter_eq ?_ ?_ (fun _ => rfl) rfl) <;> rintro (_ | _) <;> simp [waiter]
  | stopEvent hs =>
    have howed : s.waiter.owed .stop = true := by simp [waiter, hs]
    rw [moves, run_cons, Waiter.step, howed, if_pos rfl, Option.bind_some, run_nil]
    refine congrArg some (waiter_eq (fun _ => rfl) ?_ (fun _ => rfl) rfl)
    rintro (_ | _) <;> simp [waiter]
  | start hl hs =>
    have hpassed : s.waiter.passed .stop = false := by simp [waiter, hl]
    rw [moves, run_cons, Waiter.step, hpassed, if_neg Bool.false_ne_true, Option.bind_some, run_nil]
    refine congrArg some (waiter_eq ?_ ?_ ?_ rfl) <;> rintro (_ | _) <;> simp [waiter, hl, hs]

theorem covered_start (cap : Capture) : (start cap).waiter.Covered := by
  rintro (_ | _) - hu <;> cases hu

theorem covered_step {s t : Wakeups} {l : Label} (hw : s.waiter.Covered) (h : step s l = some t) : t.waiter.Covered :=
  Waiter.covered_run hw (moves_waiter h)

/-- Nothing the thread has to do waits for the timeout. -/
structure Noticed (s : Wakeups) : Prop where
  ring : s.loop ≠ .awake → s.ring.items ≠ [] → s.signaled = true ∨ s.pushed = true
  stop : s.loop = .asleep → s.stop = true → s.signaled = true ∨ s.stopping = .stored
  timeout : (step s .timeout).isSome = true →
    (s.ring.items = [] ∨ s.pushed = true) ∧ (s.stop = false ∨ s.stopping = .stored)

theorem noticed_of_covered {s : Wakeups} (hw : s.waiter.Covered) : Noticed s := by
  have hring : s.loop ≠ .awake → s.ring.items ≠ [] → s.signaled = true ∨ s.pushed = true := fun hl hr =>
    hw .ring (by simpa [waiter] using hl) (by simpa [waiter] using hr)
  have hstop : s.loop = .asleep → s.stop = true → s.signaled = true ∨ s.stopping = .stored := fun hl hs => by
    simpa [waiter] using hw .stop (by simpa [waiter] using hl) hs
  refine ⟨hring, hstop, ?_⟩
  intro h
  obtain ⟨t, ht⟩ := Option.isSome_iff_exists.1 h
  cases change ht with
  | timeout hl hpc hs =>
    constructor
    · by_cases hr : s.ring.items = []
      · exact .inl hr
      · exact .inr ((hring (by rw [hl]; decide) hr).resolve_left (by rw [hs]; decide))
    · cases hst : s.stop with
      | false => exact .inl rfl
      | true => exact .inr ((hstop hl hst).resolve_left (by rw [hs]; decide))

/-- In every interleaving of the hooks, the publications, the calls of `stop`
and the thread, which is a run of the pipeline: an event that is in the ring
while the thread is not in its loop's body, and a flag that is set while it
waits, have set the event that wakes it up or are about to. -/
theorem no_lost_wakeup (cap : Capture) (ls : List Label) (s : Wakeups) (h : run step (start cap) ls = some s) :
    (∃ ds, run Draining.step (Draining.start cap) ds = some s.toDraining) ∧ Noticed s := by
  constructor
  · exact run_simulates (fun _ => True) toDraining (fun _ l => drains l) (fun _ _ _ _ _ => trivial)
      (fun _ _ _ _ => run_drains) trivial h
  · exact noticed_of_covered (run_inv (fun s => s.waiter.Covered) (fun _ _ _ => covered_step) (covered_start cap) h)

/-- An event arrives while the thread goes to wait. -/
theorem no_lost_wakeup_late : ∃ s, run step (start {})
      [.check, .timeout, .refreshConfig, .empty, .key 1 .wmKeyDown { vkCode := 0x41 }, .check, .setEvent] = some s ∧
    s.loop = .asleep ∧ s.ring.items ≠ [] ∧ s.signaled = true ∧ Noticed s := by
  refine ⟨_, rfl, rfl, by decide, rfl, ?_⟩
  exact (no_lost_wakeup {} [.check, .timeout, .refreshConfig, .empty, .key 1 .wmKeyDown { vkCode := 0x41 }, .check,
    .setEvent] _ rfl).2

/-! ## After `stop` -/

namespace Label

/-- A step of the thread. -/
def own : Label → Bool
  | .check | .wake | .timeout | .refreshConfig | .pop | .handle _ | .empty => true
  | _ => false

/-- No callback, and no new start. -/
def quiet : Label → Bool
  | .key .. | .mouse .. | .start => false
  | _ => true

end Label

/-- The steps to the end of the drain. -/
def drainLeft (s : Wakeups) : Nat := 2 * s.ring.items.length + (if s.popped.isSome then 1 else 0) + 1

/-- The thread's own steps to its end, once it has been told to stop. -/
def left (s : Wakeups) : Nat :=
  match s.loop with
  | .ended => 0
  | .check => 1
  | .asleep => s.drainLeft + 3
  | .awake => s.drainLeft + 1 + if s.pc = .woken then 1 else 0

/-- Where the loop is, and what has been popped there. -/
structure Placed (s : Wakeups) : Prop where
  outside : s.loop ≠ .awake → s.pc = .waiting ∧ s.popped = none
  inside : s.loop = .awake → s.pc = .woken ∧ s.popped = none ∨ s.pc = .draining

theorem placed_step {s t : Wakeups} {l : Label} (hp : Placed s) (h : step s l = some t) : Placed t := by
  obtain ⟨ho, hi⟩ := hp
  cases change h with
  | key ts msg k hpush =>
    have hf := (s.hooked_key ts msg k).frame.1
    exact ⟨fun hl => ⟨(ho hl).1, hf.trans (ho hl).2⟩, fun hl => (hi hl).imp_left fun h => ⟨h.1, hf.trans h.2⟩⟩
  | mouse ts msg m hpush =>
    have hf := (s.hooked_mouse ts msg m).frame.1
    exact ⟨fun hl => ⟨(ho hl).1, hf.trans (ho hl).2⟩, fun hl => (hi hl).imp_left fun h => ⟨h.1, hf.trans h.2⟩⟩
  | setEvent hpush => exact ⟨ho, hi⟩
  | publish call => exact ⟨ho, hi⟩
  | enter hl hs => exact ⟨fun _ => ho (by rw [hl]; decide), nofun⟩
  | leave hl hs => exact ⟨fun _ => ho (by rw [hl]; decide), nofun⟩
  | wake hl hpc hs => exact ⟨fun h => absurd rfl h, fun _ => .inl ⟨rfl, (ho (by rw [hl]; decide)).2⟩⟩
  | timeout hl hpc hs => exact ⟨fun h => absurd rfl h, fun _ => .inl ⟨rfl, (ho (by rw [hl]; decide)).2⟩⟩
  | refreshConfig hl hpc => exact ⟨fun h => absurd hl h, fun _ => .inr rfl⟩
  | pop ev ring hl hpc hpop hr => exact ⟨fun h => absurd hl h, fun _ => .inr hpc⟩
  | handle env ev d hl hpop hf hpc =>
    refine ⟨fun h => absurd hl h, fun _ => .inr ?_⟩
    rcases hi hl with h | h
    · exact absurd (h.2.symm.trans hpop) nofun
    · exact hpc.trans h
  | empty hl hpc hpop hr => exact ⟨fun _ => ⟨rfl, hpop⟩, nofun⟩
  | storeStop hs => exact ⟨ho, hi⟩
  | stopEvent hs => exact ⟨ho, hi⟩
  | start hl hs => exact ⟨fun _ => ho (by rw [hl]; decide), nofun⟩

/-- What holds in every state of a run. -/
structure Sound (s : Wakeups) : Prop where
  placed : Placed s
  covered : s.waiter.Covered
  flag : s.stopping ≠ .no → s.stop = true

theorem sound_start (cap : Capture) : Sound (start cap) :=
  ⟨⟨fun _ => ⟨rfl, rfl⟩, nofun⟩, covered_start cap, fun h => absurd rfl h⟩

theorem sound_step {s t : Wakeups} {l : Label} (hs : Sound s) (h : step s l = some t) : Sound t := by
  refine ⟨placed_step hs.placed h, covered_step hs.covered h, ?_⟩
  cases change h with
  | storeStop hst => exact fun _ => rfl
  | stopEvent hst => exact fun _ => hs.flag (by rw [hst]; decide)
  | start hl hst => exact fun h => absurd rfl h
  | _ => exact hs.flag

/-- The stop has been announced. -/
structure Told (s : Wakeups) : Prop extends Sound s where
  told : s.stopping = .told

theorem Told.stopped {s : Wakeups} (h : Told s) : s.stop = true := h.flag (by rw [h.told]; decide)

theorem Told.signaled {s : Wakeups} (h : Told s) (hl : s.loop = .asleep) : s.signaled = true :=
  ((noticed_of_covered h.covered).stop hl h.stopped).resolve_right (by rw [h.told]; decide)

/-- Each step of the thread takes one from what is left; the others take nothing. -/
theorem left_step {s t : Wakeups} {l : Label} (hs : Told s) (hq : l.quiet = true) (h : step s l = some t) :
    Told t ∧ left t + (if l.own then 1 else 0) = left s := by
  have ht := sound_step hs.toSound h
  cases change h with
  | key ts msg k hpush => cases hq
  | mouse ts msg m hpush => cases hq
  | setEvent hpush => exact ⟨⟨ht, hs.told⟩, rfl⟩
  | publish call => exact ⟨⟨ht, hs.told⟩, rfl⟩
  | enter hl hst => rw [hs.stopped] at hst; cases hst
  | leave hl hst => exact ⟨⟨ht, hs.told⟩, by simp [left, hl, Label.own]⟩
  | wake hl hpc hsig =>
    refine ⟨⟨ht, hs.told⟩, ?_⟩
    simp only [left, hl, Label.own, drainLeft, if_true]
  | timeout hl hpc hsig => rw [hs.signaled hl] at hsig; cases hsig
  | refreshConfig hl hpc =>
    refine ⟨⟨ht, hs.told⟩, ?_⟩
    simp [left, hl, hpc, Label.own, drainLeft, Draining.refresh]
  | pop ev ring hl hpc hpop hr =>
    refine ⟨⟨ht, hs.told⟩, ?_⟩
    simp only [left, hl, hpc, Label.own, drainLeft, hpop, hr, List.length_cons]
    simp
    omega
  | handle env ev d hl hpop hf hpc =>
    refine ⟨⟨ht, hs.told⟩, ?_⟩
    simp [left, hl, hpc, Label.own, drainLeft, hpop, hf, Feed.done]
    omega
  | empty hl hpc hpop hr =>
    refine ⟨⟨ht, hs.told⟩, ?_⟩
    simp [left, hl, hpc, Label.own, drainLeft, hpop, hr]
  | storeStop hst => rw [hs.told] at hst; cases hst
  | stopEvent hst => rw [hs.told] at hst; cases hst
  | start hl hst => cases hq

theorem step_isSome {s : Wakeups} {l : Label} (ha : s.allows l = true)
    (hd : (run Draining.step s.toDraining (drains l)).isSome = true) : (step s l).isSome = true := by
  rw [step, if_pos ha, Option.isSome_map]
  exact hd

theorem run_one_isSome {d : Draining} {l : Draining.Label} (h : (Draining.step d l).isSome = true) :
    (run Draining.step d [l]).isSome = true := by
  obtain ⟨e, he⟩ := Option.isSome_iff_exists.1 h
  rw [run_one.2 he]
  rfl

/-- In the body of the loop the thread refreshes, takes an event, handles it, or
finds the ring empty. -/
theorem awake_enabled {s : Wakeups} (hp : Placed s) (hl : s.loop = .awake) :
    ∃ l, l.own = true ∧ (step s l).isSome = true := by
  have ha : decide (s.loop = .awake) = true := decide_eq_true hl
  rcases hp.inside hl with ⟨hpc, -⟩ | hpc
  · refine ⟨.refreshConfig, rfl, step_isSome ha (run_one_isSome ?_)⟩
    rw [Draining.step, if_pos hpc]
    rfl
  · cases hpop : s.popped with
    | some ev =>
      refine ⟨.handle {}, rfl, step_isSome ha (run_one_isSome ?_)⟩
      simp only [Draining.step, hpop]
      rfl
    | none =>
      cases hr : s.ring.pop with
      | none =>
        refine ⟨.empty, rfl, step_isSome ha (run_one_isSome ?_)⟩
        simp only [Draining.step, hpc, hpop, hr]
        rfl
      | some p =>
        refine ⟨.pop, rfl, step_isSome ha (run_one_isSome ?_)⟩
        simp only [Draining.step, hpc, if_true, Feed.pop, hpop, hr]
        rfl

/-- The thread always has a step, wherever its loop is. -/
theorem own_enabled {s : Wakeups} (hs : Told s) (hl : s.loop ≠ .ended) :
    ∃ l, l.own = true ∧ (step s l).isSome = true := by
  cases hloop : s.loop with
  | check => exact ⟨.check, rfl, step_isSome (decide_eq_true hloop) rfl⟩
  | asleep =>
    have hpc := (hs.placed.outside (by rw [hloop]; decide)).1
    refine ⟨.wake, rfl, step_isSome ?_ (run_one_isSome ?_)⟩
    · simp [allows, hloop, hs.signaled hloop]
    · rw [Draining.step, if_pos hpc]
      rfl
  | awake => exact awake_enabled hs.placed hloop
  | ended => exact absurd hloop hl

/-- Caught with work before it, the thread finishes it. -/
def Finishing (s : Wakeups) : Prop := s.loop = .check ∨ s.loop = .ended → s.ring.items = []

theorem finishing_step {s t : Wakeups} {l : Label} (hf : Finishing s) (hq : l.quiet = true) (h : step s l = some t) :
    Finishing t := by
  cases change h with
  | key ts msg k hpush => cases hq
  | mouse ts msg m hpush => cases hq
  | start hl hst => cases hq
  | setEvent hpush => exact hf
  | publish call => exact hf
  | enter hl hst => exact nofun
  | leave hl hst => exact fun _ => hf (.inl hl)
  | wake hl hpc hsig => exact nofun
  | timeout hl hpc hsig => exact nofun
  | refreshConfig hl hpc => intro h; simp [hl] at h
  | pop ev ring hl hpc hpop hr => intro h; simp [hl] at h
  | handle env ev d hl hpop hf' hpc => intro h; simp [hl] at h
  | empty hl hpc hpop hr => exact fun _ => hr
  | storeStop hst => exact hf
  | stopEvent hst => exact hf

theorem left_eq_zero {s : Wakeups} : left s = 0 ↔ s.loop = .ended := by
  unfold left drainLeft
  cases s.loop <;> simp

theorem left_le (s : Wakeups) (hp : Placed s) : left s ≤ 8196 := by
  have hring := s.ring.bounded
  unfold left drainLeft
  cases hl : s.loop with
  | check => simp
  | ended => simp
  | asleep =>
    rw [(hp.outside (by rw [hl]; decide)).2]
    simp
    omega
  | awake =>
    rcases hp.inside hl with ⟨hpc, hpop⟩ | hpc
    · simp [hpc, hpop]
      omega
    · simp only [hpc]
      split <;> simp <;> omega

/-- Once `stop` has set its flag and its event and no callback comes any more,
the thread is never blocked, ends after a fixed number of its own steps, at most
two for each event and four more, and drains the ring unless it was about to
test the flag. -/
theorem stop_joins (cap : Capture) (ls ms : List Label) {s t : Wakeups} (h : run step (start cap) ls = some s)
    (hs : s.stopping = .told) (hq : ∀ m ∈ ms, m.quiet = true) (ht : run step s ms = some t) :
    left t + ms.countP (·.own) = left s ∧ left s ≤ 8196 ∧ (t.loop = .ended ↔ left t = 0) ∧
      (t.loop ≠ .ended → ∃ l, l.own = true ∧ (step t l).isSome = true) ∧
      (s.loop = .asleep ∨ s.loop = .awake → t.loop = .ended → t.ring.items = [] ∧ t.popped = none) := by
  have hsound : Sound s := run_inv Sound (fun _ _ _ => sound_step) (sound_start cap) h
  have hquiet : AllSteps step (fun _ l => l.quiet = true) s ms := allSteps_of_forall hq s
  obtain ⟨htold, hleft⟩ := run_spends Told left (·.own)
    (fun _ _ _ hu hl => left_step hu hl) ⟨hsound, hs⟩ hquiet ht
  refine ⟨hleft, left_le s hsound.placed, left_eq_zero.symm, own_enabled htold, ?_⟩
  intro hloop hend
  have hfin : Finishing t := run_inv_of Finishing (fun _ _ _ hf hl => finishing_step hf hl)
    (fun hl => by rcases hloop with h | h <;> simp [h] at hl) hquiet ht
  exact ⟨hfin (.inr hend), (htold.placed.outside (by rw [hend]; decide)).2⟩

/-- The thread waits, a key is pressed, and `stop` is called. -/
def pressedAndStopped : List Label := [.check, .key 1 .wmKeyDown { vkCode := 0x41 }, .storeStop, .setEvent, .stopEvent]

def lastSteps : List Label := [.wake, .refreshConfig, .pop, .handle {}, .empty, .check]

theorem stop_joins_pressed : ∃ s t, run step (start {}) pressedAndStopped = some s ∧ run step s lastSteps = some t ∧
    left s = 6 ∧ t.loop = .ended ∧ t.handled = 1 ∧ t.ring.items = [] ∧ t.popped = none := by
  refine ⟨_, _, rfl, rfl, by decide, rfl, rfl, ?_⟩
  exact (stop_joins {} pressedAndStopped lastSteps rfl rfl (by decide) rfl).2.2.2.2 (.inl rfl) rfl

end Wakeups

end MultiMadness
