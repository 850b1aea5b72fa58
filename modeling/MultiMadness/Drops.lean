import MultiMadness.Pipeline
/-!
# Key transitions the ring drops

`on_key` records a transition before it knows whether the ring takes the event.
A transition the ring rejects turns the broadcaster's view of its key upside
down, until the ring takes one of the same key again or rejects a second one.

- `insync_iff`: the two keyboards agree exactly when every key has missed an
  even number of transitions since the last one that got through.
-/

namespace MultiMadness.Pipeline

open RunLib KeyState
open Feed (Queued)

/-- How many transitions of `vk` the ring has rejected since it last took one. -/
def missed (vk : UInt16) (h : List Published) : Nat :=
  h.foldl (fun n r => if r.OfKey vk then if r.accepted then 0 else n + 1 else n) 0

theorem missed_snoc (vk : UInt16) (h : List Published) (r : Published) :
    missed vk (h ++ [r]) = if r.OfKey vk then if r.accepted then 0 else missed vk h + 1 else missed vk h := by
  rw [missed, List.foldl_append]; rfl

/-- The broadcaster's keyboard once it has handled what is pending. -/
def latest (s : Pipeline) : KeyState :=
  (s.accepted.drop s.handled).foldl (fun ks r => (ks.applyEvent r.ev).1) s.bc.masterKeys

theorem latest_drained {s : Pipeline} (hq : Queued s.toFeed) (hd : s.Drained) : s.latest = s.bc.masterKeys := by
  have h := hq.pending
  rw [hd.1, hd.2] at h
  rw [latest, List.map_eq_nil_iff.1 h]
  rfl

/-- A rejected transition of a key flips what the broadcaster will believe of it. -/
def Flipped (s : Pipeline) : Prop :=
  ∀ vk, s.cap.keys.isDown vk = (s.latest.isDown vk ^^ decide (missed vk s.history % 2 = 1))

theorem published_latest {s : Pipeline} (hq : Queued s.toFeed) (ev : InputEvent) :
    ({ s with toFeed := s.published ev } : Pipeline).latest =
      if (s.ring.push ev).2 then (s.latest.applyEvent ev).1 else s.latest := by
  unfold latest
  dsimp only
  rw [Feed.published_accepted]
  split
  · rw [show (s.published ev).handled = s.handled from rfl, List.drop_append_of_le_length hq.handled_le,
      List.foldl_append]
    rfl
  · rfl

theorem flipped_published {s : Pipeline} (hq : Queued s.toFeed) (hf : Flipped s) {ev : InputEvent}
    (hev : isKey ev.kind = true → (s.cap.keys.applyEvent ev).2 = true) :
    Flipped { s with toFeed := s.published ev } := by
  intro vk
  rw [published_latest hq]
  dsimp only
  rw [Feed.published_keys, Feed.published_history, missed_snoc]
  cases hk : isKey ev.kind with
  | false =>
    have hn : ∀ (ks : KeyState), (ks.applyEvent ev).1 = ks := fun ks => by rw [applyEvent, apply_of_not_key ks hk]
    simp only [hn, ite_self, Published.OfKey, hk, Bool.false_eq_true, false_and, if_false]
    exact hf vk
  | true =>
    have hc := hev hk
    obtain ⟨i, hi⟩ := code_of_apply hc
    have hnew : (s.latest.applyEvent ev).1.isDown vk =
        if vk = ev.vk then decide (ev.kind = .keyDown) else s.latest.isDown vk := by
      rw [applyEvent, hi]; exact isDown_apply_key s.latest hk i ev.scan ev.flags vk
    rw [show (s.cap.keys.applyEvent ev).1.isDown vk = _ from isDown_apply hc vk]
    by_cases hv : vk = ev.vk
    · subst hv
      simp only [Published.OfKey, hk, and_self, if_true]
      split
      · rw [hnew]; simp
      · -- A missed transition: the hook's key flips, the broadcaster's does not.
        have hb : s.cap.keys.isDown ev.vk = !decide (ev.kind = .keyDown) := isDown_before hc
        have hold := hf ev.vk
        rw [hb] at hold
        rw [← Bool.not_not (decide (ev.kind = .keyDown)), hold, ← Bool.xor_not]
        congr 1
        rcases Nat.mod_two_eq_zero_or_one (missed ev.vk s.history) with h | h <;>
          simp [h, Nat.add_mod]
    · have hne : ¬ Published.OfKey ⟨ev, (s.cap.keys.applyEvent ev).1, (s.ring.push ev).2⟩ vk := fun h => hv h.2.symm
      rw [if_neg hv, if_neg hne, hf vk]
      split
      · rw [hnew, if_neg hv]
      · rfl

theorem flipped_change {s t : Pipeline} (hq : Queued s.toFeed) (hf : Flipped s) (h : Change s t) : Flipped t := by
  cases h with
  | hooked ev f h =>
    cases h with
    | quiet n => exact hf
    | published ev hev => exact flipped_published hq hf hev
  | popped f h =>
    obtain ⟨ev, ring, -, -, rfl⟩ := Feed.pop_eq_some h
    exact hf
  | handled ev bc os hp hk =>
    obtain ⟨r, rs, hd, hr, -⟩ := hq.drop_handled hp
    have hl : s.latest = (s.accepted.drop (s.handled + 1)).foldl (fun ks r => (ks.applyEvent r.ev).1) bc.masterKeys := by
      rw [latest, ← List.tail_drop, hd, List.foldl_cons, List.tail_cons, hr, hk]
    intro vk
    have hv := hf vk
    rw [hl] at hv
    exact hv
  | configured bc hk =>
    intro vk
    have hv := hf vk
    rw [latest, ← hk] at hv
    exact hv

theorem flipped_run {cap : Capture} {bc : Broadcaster} {ls : List Label} {s : Pipeline}
    (h : run step (start cap bc) ls = some s) : Queued s.toFeed ∧ Flipped s :=
  run_inv (fun s => Queued s.toFeed ∧ Flipped s)
    (fun _ _ _ hi hs => ⟨queued_change hi.1 (change hs), flipped_change hi.1 hi.2 (change hs)⟩)
    ⟨Feed.queued_start cap, fun vk => by simp [start, Feed.start, latest, Feed.accepted, missed]⟩ h

/-- The broadcaster and the hook report the same keys down. -/
def InSync (s : Pipeline) : Prop := ∀ vk, s.bc.masterKeys.isDown vk = s.cap.keys.isDown vk

/-- In every run, once the ring is drained, the two keyboards agree exactly when
no key has missed an odd number of transitions since the ring last took one. -/
theorem insync_iff (cap : Capture) (bc : Broadcaster) (ls : List Label) (s : Pipeline)
    (h : run step (start cap bc) ls = some s) (hd : s.Drained) :
    InSync s ↔ ∀ vk, missed vk s.history % 2 = 0 := by
  obtain ⟨hq, hf⟩ := flipped_run h
  have hl := latest_drained hq hd
  constructor
  · intro hs vk
    have hv := hf vk
    rw [hl, hs vk] at hv
    by_contra hodd
    have h1 : missed vk s.history % 2 = 1 := by omega
    rw [h1] at hv
    simp at hv
  · intro heven vk
    rw [hf vk, hl, heven vk]
    simp

/-- `A` goes down and is handled. -/
def pressHandled : List Label := [.key 1 .wmKeyDown { vkCode := 0x41 }, .pop, .handle {}]

theorem insync_iff_press : ∃ s, run step (start {} {}) pressHandled = some s ∧ s.cap.keys.isDown 0x41 = true ∧
    (InSync s ↔ ∀ vk, missed vk s.history % 2 = 0) := by
  have h : ((run step (start {} {}) pressHandled).map fun s =>
      (s.ring.items.isEmpty, s.popped.isNone, s.cap.keys.isDown 0x41)) = some (true, true, true) := by decide +kernel
  obtain ⟨s, hs, h⟩ := Option.map_eq_some_iff.1 h
  simp only [Prod.mk.injEq, List.isEmpty_iff, Option.isNone_iff_eq_none] at h
  obtain ⟨hring, hpop, hdown⟩ := h
  exact ⟨s, hs, hdown, insync_iff {} {} pressHandled s hs ⟨hring, hpop⟩⟩

/-! ## A release that is lost -/

def wheelTick : Label := .mouse 2 .wmMouseWheel { pt := ⟨0, 0⟩, mouseData := 0x00780000 }

/-- `A` goes down, the wheel fills the ring, `A` goes up; then everything is handled. -/
def releaseIntoFullRing : List Label :=
  [.key 1 .wmKeyDown { vkCode := 0x41 }] ++ List.replicate 4095 wheelTick ++ [.key 3 .wmKeyUp { vkCode := 0x41 }] ++
    (List.replicate 4096 [.pop, .handle {}]).flatten

def wheelEvent : InputEvent := { ts := 2, kind := .wheel, x := 0, y := 120 }

theorem ignores_plain (c : Capture) : c.ignores 0 false = false := by simp [Capture.ignores, kInjectMagic]

theorem step_wheelTick (s : Pipeline) : step s wheelTick = some { s with toFeed := s.published wheelEvent } := by
  refine congrArg (fun f => some { s with toFeed := f }) (Feed.mouse_eq ?_)
  unfold Capture.mousePublished
  rw [show s.cap.ignores 0 (decide ((0 : UInt32) &&& LLMHF_INJECTED ≠ 0)) = false from ignores_plain s.cap]
  rfl

theorem run_wheelTicks (n : Nat) (s : Pipeline) (hn : s.ring.items.length + n ≤ 4096) :
    ∃ t, run step s (List.replicate n wheelTick) = some t ∧ t.ring.items.length = s.ring.items.length + n ∧
      t.cap.keys = s.cap.keys ∧ t.popped = s.popped ∧ ∀ vk, missed vk t.history = missed vk s.history := by
  induction n generalizing s with
  | zero => exact ⟨s, rfl, rfl, rfl, rfl, fun _ => rfl⟩
  | succ n ih =>
    have hok : (s.ring.push wheelEvent).2 = true := by rw [Fifo.push_ok, decide_eq_true_eq]; omega
    have hlen : (s.published wheelEvent).ring.items.length = s.ring.items.length + 1 := by
      rw [Feed.published_ring, if_pos hok, List.length_append, List.length_singleton]
    obtain ⟨t, ht, h1, h2, h3, h4⟩ := ih { s with toFeed := s.published wheelEvent } (by dsimp only; omega)
    refine ⟨t, ?_, by dsimp only at h1; omega, ?_, h3, ?_⟩
    · rw [List.replicate_succ, run_cons, step_wheelTick]; exact ht
    · rw [h2, Feed.published_keys, applyEvent, apply_of_not_key _ rfl]
    · intro vk
      rw [h4, Feed.published_history, missed_snoc, if_neg (fun h => by cases h.1)]

theorem run_drain (n : Nat) (s : Pipeline) (hn : s.ring.items.length = n) (hp : s.popped = none) :
    ∃ t, run step s (List.replicate n [.pop, .handle {}]).flatten = some t ∧ t.Drained ∧ t.cap = s.cap ∧
      t.history = s.history := by
  induction n generalizing s with
  | zero => exact ⟨s, rfl, ⟨List.eq_nil_of_length_eq_zero hn, hp⟩, rfl, rfl⟩
  | succ n ih =>
    cases hr : s.ring.pop with
    | none =>
      rw [Fifo.pop_eq_none.1 hr] at hn
      cases hn
    | some q =>
      obtain ⟨ev, ring⟩ := q
      have hlen := congrArg List.length (Fifo.pop_eq_some.1 hr)
      rw [List.length_cons] at hlen
      have hpop : s.pop = some { s.toFeed with popped := some ev, ring := ring } := by
        unfold Feed.pop; rw [hp, hr]
      obtain ⟨t, ht, h1, h2, h3⟩ := ih
        { s with
          popped := none, ring := ring, bc := (s.bc.handle {} s.os ev).1, os := (s.bc.handle {} s.os ev).2,
          handled := s.handled + 1 } (by dsimp only; omega) rfl
      refine ⟨t, ?_, h1, h2, h3⟩
      rw [List.replicate_succ, List.flatten_cons, List.cons_append, List.cons_append, List.nil_append, run_cons]
      simp only [step, hpop, Option.map_some, Option.bind_some, run_cons]
      exact ht

def releaseEvent : InputEvent := { ts := 3, kind := .keyUp, vk := 0x41 }

theorem release_changes {ks : KeyState} (h : ks.isDown 0x41 = true) : (ks.applyEvent releaseEvent).2 = true := by
  have hc := @changes_iff ks .keyUp rfl 0x41 0 0
  rw [show ks.isDown (code 0x41) = true from h] at hc
  exact hc

theorem step_release (s : Pipeline) (h : s.cap.keys.isDown 0x41 = true) :
    step s (.key 3 .wmKeyUp { vkCode := 0x41 }) = some { s with toFeed := s.published releaseEvent } := by
  refine congrArg (fun f => some { s with toFeed := f }) (Feed.key_eq ?_)
  exact Capture.keyPublished_iff.2 ⟨ignores_plain s.cap, rfl, release_changes h⟩

/-- The dropped release leaves `A` down in the broadcaster's keyboard. -/
theorem dropped_release_stays_down :
    ∃ s, run step (start {} {}) releaseIntoFullRing = some s ∧ s.Drained ∧ s.cap.keys.isDown 0x41 = false ∧
      s.bc.masterKeys.isDown 0x41 = true := by
  -- The press is accepted.
  have h1 : ((run step (start {} {}) [.key 1 .wmKeyDown { vkCode := 0x41 }]).map fun s =>
      (s.ring.items.length, s.cap.keys.isDown 0x41, s.popped, missed 0x41 s.history)) = some (1, true, none, 0) := by
    decide +kernel
  obtain ⟨s1, hs1, h1⟩ := Option.map_eq_some_iff.1 h1
  simp only [Prod.mk.injEq] at h1
  obtain ⟨hlen1, hdown1, hpop1, hmiss1⟩ := h1
  obtain ⟨s2, hs2, hlen2, hkeys2, hpop2, hmiss2⟩ := run_wheelTicks 4095 s1 (by omega)
  -- The release changes the hook's keyboard and meets a full ring.
  have hfull : (s2.ring.push releaseEvent).2 = false := by rw [Fifo.push_ok, decide_eq_false_iff_not]; omega
  have hdown2 : s2.cap.keys.isDown 0x41 = true := by rw [hkeys2]; exact hdown1
  have hs3 := step_release s2 hdown2
  have hlen3 : (s2.published releaseEvent).ring.items.length = 4096 := by
    rw [Feed.published_ring, if_neg (by simp [hfull])]; omega
  obtain ⟨s4, hs4, hdr, hcap, hhist⟩ := run_drain 4096 { s2 with toFeed := s2.published releaseEvent } hlen3 (hpop2.trans hpop1)
  have hrun : run step (start {} {}) releaseIntoFullRing = some s4 := by
    unfold releaseIntoFullRing
    rw [List.append_assoc, List.append_assoc]
    refine run_append_some.2 ⟨s1, hs1, run_append_some.2 ⟨s2, hs2, run_append_some.2 ⟨_, ?_, hs4⟩⟩⟩
    rw [run_cons, hs3]; rfl
  obtain ⟨hq, hf⟩ := flipped_run hrun
  have hup : s4.cap.keys.isDown 0x41 = false := by
    rw [hcap, Feed.published_keys]
    exact isDown_apply (release_changes hdown2) 0x41
  have hmiss : missed 0x41 s4.history = 1 := by
    rw [hhist, Feed.published_history, missed_snoc, if_pos ⟨rfl, rfl⟩, hfull, hmiss2, hmiss1]; rfl
  refine ⟨s4, hrun, hdr, hup, ?_⟩
  have h := hf 0x41
  rw [latest_drained hq hdr, hup, hmiss] at h
  simpa using h

end MultiMadness.Pipeline
