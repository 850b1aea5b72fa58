import MultiMadness.RunLib.Runs
import MultiMadness.Feed
import MultiMadness.Handling
/-!
# The capture thread and the broadcaster thread

The hooks push into the ring, `Broadcaster::run` pops and handles. A callback,
a pop and a call of `handle` are one step each: no step of the other thread
touches what they read and write, apart from the ring.

- `change`: what every step does.
- `keyboard_replayed`: the broadcaster's keyboard is an exact delayed replay of
  the hook's.
-/

namespace MultiMadness

open RunLib KeyState

structure Pipeline extends Feed where
  bc : Broadcaster
  os : Os := {}

namespace Pipeline

open Feed (Hooked Queued)

inductive Label where
  | key (ts : UInt64) (msg : KeyMsg) (k : KbdLlHook)
  | mouse (ts : UInt64) (msg : MouseMsg) (m : MsLlHook)
  | pop
  | handle (env : Env)
  | refreshConfig
  | setTargets (targets : List Target) (master : Nat)

/-- A new capture and a new broadcaster, however configured. -/
def start (cap : Capture) (bc : Broadcaster) : Pipeline :=
  { Feed.start cap with bc := { bc with masterKeys := KeyState.init } }

def step (s : Pipeline) : Label → Option Pipeline
  | .key ts msg k => some { s with toFeed := s.key ts msg k }
  | .mouse ts msg m => some { s with toFeed := s.mouse ts msg m }
  | .pop => s.pop.map fun f => { s with toFeed := f }
  | .handle env =>
    match s.popped with
    | none => none
    | some ev =>
      let (bc, os) := s.bc.handle env s.os ev
      some { s with toFeed := s.done, bc := bc, os := os }
  | .refreshConfig => if s.popped.isSome then none else some { s with bc := s.bc.refreshConfig }
  | .setTargets targets master => some { s with bc := s.bc.setTargets targets master }

/-- What a step does: a callback, a pop, one event handled, or the broadcaster
configured. -/
inductive Change (s : Pipeline) : Pipeline → Prop where
  | hooked (ev : Option InputEvent) (f : Feed) (h : Hooked s.toFeed ev f) : Change s { s with toFeed := f }
  | popped (f : Feed) (h : s.pop = some f) : Change s { s with toFeed := f }
  | handled (ev : InputEvent) (bc : Broadcaster) (os : Os) (hp : s.popped = some ev)
      (hk : bc.masterKeys = (s.bc.masterKeys.applyEvent ev).1) : Change s { s with toFeed := s.done, bc := bc, os := os }
  | configured (bc : Broadcaster) (hk : bc.masterKeys = s.bc.masterKeys) : Change s { s with bc := bc }

theorem step_handle {s t : Pipeline} {env : Env} : step s (.handle env) = some t ↔ ∃ ev, s.popped = some ev ∧
    t = { s with
      toFeed := s.done
      bc := (s.bc.handle env s.os ev).1
      os := (s.bc.handle env s.os ev).2 } := by
  simp only [step]
  cases s.popped with
  | none => simp
  | some ev => simp [eq_comm]

theorem step_refreshConfig {s t : Pipeline} : step s .refreshConfig = some t ↔
    s.popped = none ∧ t = { s with bc := s.bc.refreshConfig } := by
  simp only [step]
  cases s.popped with
  | none => simp [eq_comm]
  | some ev => simp

theorem change {s t : Pipeline} {l : Label} (h : step s l = some t) : Change s t := by
  cases l with
  | key ts msg k => cases h; exact .hooked _ _ (s.hooked_key ts msg k)
  | mouse ts msg m => cases h; exact .hooked _ _ (s.hooked_mouse ts msg m)
  | pop =>
    obtain ⟨f, hf, rfl⟩ := Option.map_eq_some_iff.1 h
    exact .popped f hf
  | handle env =>
    obtain ⟨ev, hp, rfl⟩ := step_handle.1 h
    exact .handled ev _ _ hp (s.bc.handle_masterKeys env s.os ev)
  | refreshConfig =>
    obtain ⟨-, rfl⟩ := step_refreshConfig.1 h
    exact .configured _ (s.bc.refreshConfig_masterKeys)
  | setTargets targets master => cases h; exact .configured _ rfl

theorem queued_change {s t : Pipeline} (hq : Queued s.toFeed) (h : Change s t) : Queued t.toFeed := by
  cases h with
  | hooked ev f h => exact Feed.queued_hooked hq h
  | popped f h => exact Feed.queued_pop hq h
  | handled ev bc os hp hk => exact Feed.queued_done hq hp
  | configured bc hk => exact hq

/-! ## The replay -/

/-- Applying the events of `rs` one after another takes the keyboard `ks`
through the keyboards they were published with, to `last`; every key event of
them changes it. -/
def Replays : KeyState → List Published → KeyState → Prop
  | ks, [], last => ks = last
  | ks, r :: rs, last =>
    (ks.applyEvent r.ev).1 = r.keys ∧ (isKey r.ev.kind = true → (ks.applyEvent r.ev).2 = true) ∧
      Replays r.keys rs last

theorem Replays.snoc {ks last : KeyState} {rs : List Published} {r : Published} (h : Replays ks rs last)
    (hk : (last.applyEvent r.ev).1 = r.keys) (hc : isKey r.ev.kind = true → (last.applyEvent r.ev).2 = true) :
    Replays ks (rs ++ [r]) r.keys := by
  induction rs generalizing ks with
  | nil => cases h; exact ⟨hk, hc, rfl⟩
  | cons q rs ih => exact ⟨h.1, h.2.1, ih h.2.2⟩

/-- The broadcaster's keyboard, brought up to date by what is pending, is the hook's. -/
def Behind (s : Pipeline) : Prop :=
  s.cap.dropped = 0 → Replays s.bc.masterKeys (s.history.drop s.handled) s.cap.keys

theorem behind_published {s : Pipeline} (hq : Queued s.toFeed) (hb : Behind s) {ev : InputEvent}
    (hev : isKey ev.kind = true → (s.cap.keys.applyEvent ev).2 = true) :
    Behind { s with toFeed := s.published ev } := by
  intro h0
  have h0' : (s.published ev).cap.dropped = 0 := h0
  rw [Feed.published_dropped] at h0'
  have hok : (s.ring.push ev).2 = true := by
    by_contra hn
    rw [if_neg hn] at h0'
    cases h0'
  rw [if_pos hok] at h0'
  have hle : s.handled ≤ s.history.length := by rw [← hq.accepted_eq h0']; exact hq.handled_le
  have hs := (hb h0').snoc (r := ⟨ev, (s.cap.keys.applyEvent ev).1, (s.ring.push ev).2⟩) rfl hev
  rw [← List.drop_append_of_le_length hle, ← Feed.published_history] at hs
  change Replays s.bc.masterKeys ((s.published ev).history.drop s.handled) (s.published ev).cap.keys
  rw [Feed.published_keys]
  exact hs

theorem behind_change {s t : Pipeline} (hq : Queued s.toFeed) (hb : Behind s) (h : Change s t) : Behind t := by
  cases h with
  | hooked ev f h =>
    cases h with
    | quiet n => exact hb
    | published ev hev => exact behind_published hq hb hev
  | popped f h =>
    obtain ⟨ev, ring, -, -, rfl⟩ := Feed.pop_eq_some h
    exact hb
  | handled ev bc os hp hk =>
    intro h0
    obtain ⟨r, rs, hd, hr, -⟩ := hq.drop_handled hp
    have hrep := hb h0
    rw [hq.accepted_eq h0] at hd
    rw [hd] at hrep
    change Replays bc.masterKeys (s.history.drop (s.handled + 1)) s.cap.keys
    rw [← List.tail_drop, hd, List.tail_cons, hk, ← hr, hrep.1]
    exact hrep.2.2
  | configured bc hk =>
    intro h0
    change Replays bc.masterKeys (s.history.drop s.handled) s.cap.keys
    rw [hk]
    exact hb h0

/-- What holds of the broadcaster's keyboard between any two steps. -/
structure DelayedReplay (s : Pipeline) : Prop where
  /-- What is published and not handled yet waits in order. -/
  order : (s.history.drop s.handled).map (·.ev) = s.popped.toList ++ s.ring.items
  /-- The popped event is the oldest unhandled publication. Applying it gives
  the hook's keyboard right after that publication, and changes something if it
  is a key event. -/
  applied : ∀ ev, s.popped = some ev → ∃ r, s.history[s.handled]? = some r ∧ r.ev = ev ∧
    (s.bc.applied ev).masterKeys = r.keys ∧ (isKey ev.kind = true → (s.bc.masterKeys.applyEvent ev).2 = true)
  /-- The event is planned with that keyboard, and handling it leaves it. -/
  planned : ∀ ev r, s.popped = some ev → s.history[s.handled]? = some r →
    (∀ env, (s.bc.applied ev).planOf env ev =
      plan ev s.bc.routes (Broadcaster.aliveMask env s.bc.targets) s.bc.master r.keys) ∧
    ∀ env t, step s (.handle env) = some t → t.bc.masterKeys = r.keys
  caughtUp : s.Drained → s.bc.masterKeys = s.cap.keys

theorem delayedReplay_of {s : Pipeline} (hq : Queued s.toFeed) (hb : Behind s) (h0 : s.cap.dropped = 0) :
    DelayedReplay s := by
  have hrep := hb h0
  have hacc := hq.accepted_eq h0
  have hhead : ∀ ev, s.popped = some ev → ∃ r, s.history[s.handled]? = some r ∧ r.ev = ev ∧
      (s.bc.applied ev).masterKeys = r.keys ∧ (isKey ev.kind = true → (s.bc.masterKeys.applyEvent ev).2 = true) := by
    intro ev hp
    obtain ⟨r, rs, hd, hr, -⟩ := hq.drop_handled hp
    rw [hacc] at hd
    rw [hd] at hrep
    subst hr
    exact ⟨r, by rw [← List.head?_drop, hd, List.head?_cons], rfl, hrep.1, hrep.2.1⟩
  refine ⟨?_, hhead, ?_, ?_⟩
  · rw [← hacc]; exact hq.pending
  · intro ev r hp hr
    obtain ⟨r', hr', -, hk, -⟩ := hhead ev hp
    cases hr.symm.trans hr'
    refine ⟨fun env => by rw [← hk]; rfl, ?_⟩
    intro env t ht
    obtain ⟨ev', hp', rfl⟩ := step_handle.1 ht
    cases hp.symm.trans hp'
    rw [← hk]
    exact s.bc.handle_masterKeys env s.os ev
  · rintro ⟨hring, hpop⟩
    have hpend := hq.pending
    rw [hacc, hring, hpop] at hpend
    rw [List.map_eq_nil_iff.1 hpend] at hrep
    exact hrep

/-- In every interleaving of hook callbacks with the broadcaster in which no
push was rejected, the broadcaster's keyboard is an exact delayed replay of the
hook's. -/
theorem keyboard_replayed (cap : Capture) (bc : Broadcaster) (ls : List Label) (s : Pipeline)
    (h : run step (start cap bc) ls = some s) (h0 : s.cap.dropped = 0) : DelayedReplay s := by
  have hi := run_inv (fun s => Queued s.toFeed ∧ Behind s)
    (fun _ _ _ hi hs => ⟨queued_change hi.1 (change hs), behind_change hi.1 hi.2 (change hs)⟩)
    (show Queued (start cap bc).toFeed ∧ Behind (start cap bc) from ⟨Feed.queued_start cap, fun _ => rfl⟩) h
  exact delayedReplay_of hi.1 hi.2 h0

/-- The key `A` goes down, repeats and goes up; its press is popped. -/
def pressRepeatRelease : List Label :=
  [.key 1 .wmKeyDown { vkCode := 0x41 }, .key 2 .wmKeyDown { vkCode := 0x41 }, .key 3 .wmKeyUp { vkCode := 0x41 },
    .pop]

theorem keyboard_replayed_popped :
    ∃ s, run step (start {} {}) pressRepeatRelease = some s ∧ s.popped.isSome = true ∧ DelayedReplay s := by
  have h : ((run step (start {} {}) pressRepeatRelease).map fun s => (s.cap.dropped, s.popped.isSome)) =
      some (0, true) := by decide +kernel
  obtain ⟨s, hs, h'⟩ := Option.map_eq_some_iff.1 h
  simp only [Prod.mk.injEq] at h'
  exact ⟨s, hs, h'.2, keyboard_replayed {} {} pressRepeatRelease s hs h'.1⟩

end Pipeline

end MultiMadness
