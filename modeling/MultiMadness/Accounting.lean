import Mathlib.Data.List.Induction
import MultiMadness.Plans
import MultiMadness.Refresh
/-!
# The delivery counters

`deliver` and the `RestoreFocus` branch of `execute` make their calls first and
take the statistics lock only to write the result down, so a `snapshot` or a
`reset_stats` of another thread falls before or after an `Update`, never inside
one.

- `act_calls`: an action is its calls and then its update.
- `Inv`: the counters are what the updates since the last reset make of them.
- `accounting_consistent`: what every snapshot shows, and that every delivery is
  settled once.
- `counters_wrap`: after 2^64 deliveries the counters are back at 0.
-/

namespace MultiMadness

open RunLib

/-- What a thread holding the statistics lock writes down. -/
inductive Update where
  | delivered (us : UInt32) (ok : Bool)
  /-- The early return of `deliver`. -/
  | focusFailed
  | restoreFailed
deriving DecidableEq

namespace Update

/-- The update of a `Deliver` action. -/
def ofDeliver : Update → Bool
  | .delivered _ _ | .focusFailed => true
  | .restoreFailed => false

/-- An injection went out. -/
def landed : Update → Bool
  | .delivered _ _ => true
  | _ => false

/-- An injection went out and the system refused it. -/
def refused : Update → Bool
  | .delivered _ ok => !ok
  | _ => false

end Update

namespace Broadcaster

def update (b : Broadcaster) : Update → Broadcaster
  | .delivered us ok => b.delivered us ok
  | .focusFailed | .restoreFailed => b.focusFailed

def snapshot (b : Broadcaster) : Snapshot := b.stats

def resetStats (b : Broadcaster) : Broadcaster := { b with stats := {} }

/-! ## An action without its update -/

/-- The clock reading after a delivery's injection. -/
def timed (env : Env) (ev : InputEvent) : Os × Bool → Os × Option Update
  | (os, ok) => ({ os with clockReads := os.clockReads + 1 },
      some (.delivered (qpcToUs env (env.qpcNow os.clockReads - ev.ts)) ok))

/-- `deliver` up to its statistics. -/
def deliverCalls (b : Broadcaster) (env : Env) (os : Os) (a : Action) (ev : InputEvent) : Os × Option Update :=
  if a.target ≥ b.targets.length then (os, none)
  else if a.strategy = .windowMessage then timed env ev (b.post env os a.target ev)
  else
    let (os, focused) := bringToForeground env os (b.hwndOf a.target)
    if ¬ focused then (os, some .focusFailed) else timed env ev (b.send env os a.target ev)

/-- `RestoreFocus` up to its statistics. -/
def restoreCalls (b : Broadcaster) (env : Env) (os : Os) : Os × Option Update :=
  if b.master < b.targets.length then
    let (os, focused) := bringToForeground env os (b.hwndOf b.master)
    (os, if ¬ focused then some .restoreFailed else none)
  else (os, none)

/-- One turn of the loop of `execute` up to the statistics. -/
def actCalls (env : Env) (ev : InputEvent) (s : Broadcaster × Os) (a : Action) :
    (Broadcaster × Os) × Option Update :=
  match a.kind with
  | .deliver => let (os, u) := s.1.deliverCalls env s.2 a ev; ((s.1, os), u)
  | .restoreFocus => let (os, u) := s.1.restoreCalls env s.2; ((s.1, os), u)
  | .restoreCursor | .reassertHeld | .swapMaster => (act env ev s a, none)

def settle : (Broadcaster × Os) × Option Update → Broadcaster × Os
  | (s, none) => s
  | (s, some u) => (s.1.update u, s.2)

theorem deliver_calls (b : Broadcaster) (env : Env) (os : Os) (a : Action) (ev : InputEvent) :
    b.deliver env os a ev = settle ((b, (b.deliverCalls env os a ev).1), (b.deliverCalls env os a ev).2) := by
  unfold deliver deliverCalls
  split
  · rfl
  · split
    · rfl
    · dsimp only
      split <;> rfl

theorem restoreFocus_calls (b : Broadcaster) (env : Env) (os : Os) :
    b.restoreFocus env os = settle ((b, (b.restoreCalls env os).1), (b.restoreCalls env os).2) := by
  unfold restoreFocus restoreCalls
  split
  · dsimp only
    split <;> rfl
  · rfl

/-- An action is its calls and then its update. -/
theorem act_calls (env : Env) (ev : InputEvent) (s : Broadcaster × Os) (a : Action) :
    act env ev s a = settle (actCalls env ev s a) := by
  cases hk : a.kind with
  | deliver => simp only [act, actCalls, hk]; exact s.1.deliver_calls env s.2 a ev
  | restoreFocus => simp only [act, actCalls, hk]; exact s.1.restoreFocus_calls env s.2
  | restoreCursor | reassertHeld | swapMaster => simp only [actCalls, hk]; rfl

/-- The calls of an action leave the statistics alone. -/
theorem actCalls_stats (env : Env) (ev : InputEvent) (s : Broadcaster × Os) (a : Action) :
    (actCalls env ev s a).1.1.stats = s.1.stats := by
  cases hk : a.kind with
  | deliver | restoreFocus => simp only [actCalls, hk]
  | restoreCursor | reassertHeld => simp only [actCalls, act, hk]
  | swapMaster =>
    simp only [actCalls, act, hk, swapMaster]
    split <;> (unfold refreshConfig; split <;> rfl)

/-- An update writes to the statistics what it would write to any other copy of
them. -/
theorem update_stats {b c : Broadcaster} (h : b.stats = c.stats) (u : Update) :
    (b.update u).stats = (c.update u).stats := by
  cases u <;> simp only [update, delivered, focusFailed, h]

end Broadcaster

/-! ## What updates add up to -/

/-- The statistics of a broadcaster that starts from none. -/
def counters (us : List Update) : Snapshot := (us.foldl Broadcaster.update {}).stats

theorem counters_append (us : List Update) (u : Update) (b : Broadcaster) (h : b.stats = counters us) :
    (b.update u).stats = counters (us ++ [u]) := by
  rw [counters, List.foldl_concat]
  exact Broadcaster.update_stats h u

/-- The counters, as numbers of updates. -/
theorem counters_eq (us : List Update) :
    (counters us).latency.count = UInt64.ofNat (us.countP Update.landed) ∧
      (counters us).deliveries = UInt64.ofNat (us.countP Update.landed) ∧
      (counters us).focusFailures = UInt64.ofNat (us.countP fun u => !u.landed) ∧
      (counters us).injectFailures = UInt64.ofNat (us.countP Update.refused) := by
  unfold counters
  induction us using List.reverseRecOn with
  | nil => exact ⟨rfl, rfl, rfl, rfl⟩
  | append_singleton us u ih =>
    obtain ⟨hc, hd, hf, hi⟩ := ih
    simp only [List.foldl_concat, List.countP_append, List.countP_singleton, UInt64.ofNat_add]
    cases u with
    | delivered t ok =>
      simp only [Broadcaster.update, Broadcaster.delivered, LatencyStats.record, hc, hd, hf, hi]
      cases ok <;> exact ⟨rfl, rfl, (UInt64.add_zero _).symm, by simp [Update.refused]⟩
    | focusFailed | restoreFailed =>
      simp only [Broadcaster.update, Broadcaster.focusFailed, hc, hd, hf, hi]
      exact ⟨(UInt64.add_zero _).symm, (UInt64.add_zero _).symm, rfl, (UInt64.add_zero _).symm⟩

/-- Every update counts a delivery or a focus failure. -/
theorem landed_add_missed (us : List Update) :
    us.countP Update.landed + us.countP (fun u => !u.landed) = us.length := by
  rw [List.length_eq_countP_add_countP Update.landed]
  simp

theorem refused_le_landed (us : List Update) : us.countP Update.refused ≤ us.countP Update.landed :=
  List.countP_mono_left fun u _ h => by cases u <;> simp_all [Update.refused, Update.landed]

/-! ## The threads -/

/-- The broadcaster's thread in the middle of a plan, and what no code reads:
the updates since the last reset, each snapshot taken with those updates, and
how many deliveries began, had no such target, and were settled. -/
structure Accounting where
  bc : Broadcaster := {}
  os : Os := {}
  ev : InputEvent := {}
  todo : List Action := []
  pending : Option Update := none
  since : List Update := []
  shots : List (Snapshot × List Update) := []
  begun : Nat := 0
  skipped : Nat := 0
  settled : Nat := 0

namespace Accounting

inductive Label where
  | publish (call : Publication)
  | refreshConfig
  | handle (env : Env) (ev : InputEvent)
  | execute (p : Plan) (ev : InputEvent)
  | calls (env : Env)
  | update
  | snapshot
  | resetStats

/-- The broadcaster's thread is between two events. -/
def idle (s : Accounting) : Bool := s.todo.isEmpty && s.pending.isNone

/-- The calls of the next action. -/
def takes (s : Accounting) (env : Env) (a : Action) (rest : List Action) : Accounting :=
  let ((bc, os), u) := Broadcaster.actCalls env s.ev (s.bc, s.os) a
  { s with
    bc := bc
    os := os
    todo := rest
    pending := u
    begun := if a.kind = .deliver then s.begun + 1 else s.begun
    skipped := if a.kind = .deliver ∧ u.isNone then s.skipped + 1 else s.skipped }

def step (s : Accounting) : Label → Option Accounting
  | .publish call => some { s with bc := s.bc.publish call }
  | .refreshConfig => if s.idle then some { s with bc := s.bc.refreshConfig } else none
  | .handle env ev =>
    if s.idle then
      let bc := s.bc.applied ev
      some { s with bc := bc, ev := ev, todo := if bc.targets.isEmpty then [] else (bc.planOf env ev).actions }
    else none
  | .execute p ev => if s.idle then some { s with ev := ev, todo := p.actions } else none
  | .calls env =>
    match s.pending, s.todo with
    | none, a :: rest => some (s.takes env a rest)
    | _, _ => none
  -- The thread has the lock.
  | .update =>
    match s.pending with
    | none => none
    | some u =>
      some { s with
        bc := s.bc.update u
        pending := none
        since := s.since ++ [u]
        settled := if u.ofDeliver then s.settled + 1 else s.settled }
  | .snapshot => some { s with shots := s.shots ++ [(s.bc.snapshot, s.since)] }
  | .resetStats => some { s with bc := s.bc.resetStats, since := [] }

/-- The pending update, if it is that of a delivery. -/
def inFlight (s : Accounting) : Nat := if s.pending.any Update.ofDeliver then 1 else 0

/-- What a step does to the counters and to the deliveries. -/
inductive Change (s : Accounting) : Label → Accounting → Prop where
  | outside (l : Label) (bc : Broadcaster) (ev : InputEvent) (todo : List Action) (hs : bc.stats = s.bc.stats) :
      Change s l { s with bc := bc, ev := ev, todo := todo }
  | took (env : Env) (a : Action) (rest : List Action) (hp : s.pending = none) (ht : s.todo = a :: rest) :
      Change s (.calls env) (s.takes env a rest)
  | updated (u : Update) (hp : s.pending = some u) :
      Change s .update
        { s with
          bc := s.bc.update u
          pending := none
          since := s.since ++ [u]
          settled := if u.ofDeliver then s.settled + 1 else s.settled }
  | shot : Change s .snapshot { s with shots := s.shots ++ [(s.bc.snapshot, s.since)] }
  | reset : Change s .resetStats { s with bc := s.bc.resetStats, since := [] }

theorem change {s t : Accounting} {l : Label} (h : step s l = some t) : Change s l t := by
  cases l with
  | publish call => cases h; exact .outside _ _ _ _ (by cases call <;> rfl)
  | refreshConfig =>
    simp only [step] at h
    split at h
    · cases h; exact .outside _ _ _ _ (by unfold Broadcaster.refreshConfig; split <;> rfl)
    · cases h
  | handle env ev =>
    simp only [step] at h
    split at h
    · cases h; exact .outside _ _ _ _ rfl
    · cases h
  | execute p ev =>
    simp only [step] at h
    split at h
    · cases h; exact .outside _ _ _ _ rfl
    · cases h
  | calls env =>
    simp only [step] at h
    split at h
    · next a rest hp ht => cases h; exact .took env a rest hp ht
    · cases h
  | update =>
    simp only [step] at h
    split at h
    · cases h
    · next u hp => cases h; exact .updated u hp
  | snapshot => cases h; exact .shot
  | resetStats => cases h; exact .reset

/-! ## The invariant -/

/-- The counters are those of the updates since the last reset, now and in every
snapshot; a delivery is settled once. -/
structure Inv (s : Accounting) : Prop where
  stats : s.bc.stats = counters s.since
  shots : ∀ shot ∈ s.shots, shot.1 = counters shot.2
  deliveries : s.begun = s.settled + s.skipped + s.inFlight

/-- The calls of a delivery have an update or found no target; no other action
has an update of a delivery. -/
theorem ofDeliver_actCalls (env : Env) (ev : InputEvent) (s : Broadcaster × Os) (a : Action) (u : Update)
    (h : (Broadcaster.actCalls env ev s a).2 = some u) : u.ofDeliver = true ↔ a.kind = .deliver := by
  cases hk : a.kind with
  | deliver =>
    simp only [Broadcaster.actCalls, hk, Broadcaster.deliverCalls] at h
    refine iff_of_true ?_ rfl
    split at h
    · cases h
    · split at h
      · cases h; rfl
      · split at h <;> (cases h; rfl)
  | restoreFocus =>
    simp only [Broadcaster.actCalls, hk, Broadcaster.restoreCalls] at h
    refine iff_of_false ?_ nofun
    split at h
    · split at h
      · cases h; nofun
      · cases h
    · cases h
  | restoreCursor | reassertHeld | swapMaster =>
    simp only [Broadcaster.actCalls, hk] at h
    cases h

theorem takes_deliveries {s : Accounting} {env : Env} {a : Action} {rest : List Action} (hp : s.pending = none)
    (h : s.begun = s.settled + s.skipped + s.inFlight) :
    (s.takes env a rest).begun =
      (s.takes env a rest).settled + (s.takes env a rest).skipped + (s.takes env a rest).inFlight := by
  simp only [inFlight, hp, Option.any_none, Bool.false_eq_true, if_false] at h
  obtain ⟨⟨⟨bc, os⟩, u⟩, hc⟩ : ∃ r, Broadcaster.actCalls env s.ev (s.bc, s.os) a = r := ⟨_, rfl⟩
  have hu := ofDeliver_actCalls env s.ev (s.bc, s.os) a
  rw [hc] at hu
  simp only [takes, inFlight, hc]
  cases u with
  | none =>
    by_cases hk : a.kind = .deliver
    · simp only [hk, Option.isNone_none, and_self, if_true, Option.any_none, Bool.false_eq_true, if_false]
      omega
    · simp only [hk, false_and, if_false, Option.any_none, Bool.false_eq_true]
      exact h
  | some u =>
    simp only [Option.isNone_some, Bool.false_eq_true, and_false, if_false, Option.any_some, hu u rfl]
    split <;> omega

theorem inv_step (s : Accounting) (l : Label) (t : Accounting) (hi : Inv s) (h : step s l = some t) : Inv t := by
  obtain ⟨hs, hsh, hd⟩ := hi
  cases change h with
  | outside _ bc ev todo hb => exact ⟨hb.trans hs, hsh, hd⟩
  | took env a rest hp ht =>
    exact ⟨(Broadcaster.actCalls_stats env s.ev (s.bc, s.os) a).trans hs, hsh, takes_deliveries hp hd⟩
  | updated u hp =>
    refine ⟨counters_append s.since u s.bc hs, hsh, ?_⟩
    simp only [inFlight, hp, Option.any_some] at hd
    simp only [inFlight, Option.any_none, Bool.false_eq_true, if_false]
    split at hd <;> simp_all
    omega
  | shot =>
    refine ⟨hs, ?_, hd⟩
    intro shot hm
    rcases List.mem_append.1 hm with hm | hm
    · exact hsh shot hm
    · rw [List.mem_singleton.1 hm]
      exact hs
  | reset => exact ⟨rfl, hsh, hd⟩

theorem inv_run {s : Accounting} {ls : List Label} (h : run step {} ls = some s) : Inv s :=
  run_inv Inv inv_step ⟨rfl, fun _ hm => absurd hm List.not_mem_nil, rfl⟩ h

/-! ## The plans of `handle` -/

/-- No delivery of the rest of a plan of `handle` will miss its target: a swap,
which could take it away, is a plan of its own. -/
structure Sound (s : Accounting) : Prop where
  targets : ∀ a ∈ s.todo, a.kind = .deliver → a.target < s.bc.targets.length
  swap : ∀ a ∈ s.todo, a.kind = .swapMaster → s.todo = [a]
  skipped : s.skipped = 0

/-- The plan comes from `handle`. -/
def Planned : Label → Prop
  | .execute _ _ => False
  | _ => True

theorem idle_todo {s : Accounting} (h : s.idle = true) : s.todo = [] := by
  simp only [idle, Bool.and_eq_true, List.isEmpty_iff] at h
  exact h.1

theorem idle_pending {s : Accounting} (h : s.idle = true) : s.pending = none := by
  simp only [idle, Bool.and_eq_true, Option.isNone_iff_eq_none] at h
  exact h.2

theorem planOf_sound (b : Broadcaster) (env : Env) (ev : InputEvent) :
    (∀ a ∈ (b.planOf env ev).actions, a.kind = .deliver → a.target < b.targets.length) ∧
      ∀ a ∈ (b.planOf env ev).actions, a.kind = .swapMaster → (b.planOf env ev).actions = [a] := by
  constructor
  · intro a ha hk
    obtain ⟨pre, post, hp⟩ := List.append_of_mem ha
    have hu := undisturbed b env {} ev pre a post hp
    have hc : _ = b.targets := congrArg (fun c => c.2.1) hu.1
    rw [← hc]
    exact hu.2 hk
  · intro a ha hk
    obtain ⟨hs, hd⟩ := swap_iff.1 ⟨a, ha, hk⟩
    have hp : (b.planOf env ev).actions = [{ kind := .swapMaster }] := swap_alone hs hd _ _ _
    rw [hp] at ha ⊢
    rw [List.mem_singleton.1 ha]

/-- A delivery to a target there is has an update. -/
theorem deliverCalls_some {b : Broadcaster} {env : Env} {os : Os} {a : Action} {ev : InputEvent}
    (h : a.target < b.targets.length) : (b.deliverCalls env os a ev).2.isNone = false := by
  unfold Broadcaster.deliverCalls
  rw [if_neg (Nat.not_le.2 h)]
  split
  · rfl
  · dsimp only
    split <;> rfl

theorem sound_step (s : Accounting) (l : Label) (t : Accounting) (hi : Sound s) (hl : Planned l)
    (h : step s l = some t) : Sound t := by
  obtain ⟨ht, hsw, hk⟩ := hi
  cases l with
  | publish call => cases h; exact ⟨by cases call <;> exact ht, hsw, hk⟩
  | refreshConfig =>
    simp only [step] at h
    split at h
    · next hidle =>
      cases h
      refine ⟨?_, hsw, hk⟩
      rw [idle_todo hidle]
      exact fun a ha => absurd ha List.not_mem_nil
    · cases h
  | handle env ev =>
    simp only [step] at h
    split at h
    · cases h
      obtain ⟨hpt, hps⟩ := planOf_sound (s.bc.applied ev) env ev
      refine ⟨?_, ?_, hk⟩
      · intro a ha
        dsimp only at ha ⊢
        split at ha
        · cases ha
        · exact hpt a ha
      · intro a ha hka
        dsimp only at ha ⊢
        split at ha
        · cases ha
        · next he => rw [if_neg he]; exact hps a ha hka
    · cases h
  | execute p ev => exact hl.elim
  | calls env =>
    simp only [step] at h
    split at h
    · next a rest hp htodo =>
      cases h
      rw [htodo] at ht hsw
      by_cases hka : a.kind = .swapMaster
      · -- Nothing follows the swap.
        have hrest : rest = [] := (List.cons.inj (hsw a List.mem_cons_self hka)).2
        simp only [takes, hka, reduceCtorEq, false_and, if_false, hrest]
        exact ⟨fun a ha => absurd ha List.not_mem_nil, fun a ha => absurd ha List.not_mem_nil, hk⟩
      · have hb : (s.takes env a rest).bc = s.bc := by
          cases hc : a.kind with
          | swapMaster => exact absurd hc hka
          | _ => simp only [takes, Broadcaster.actCalls, Broadcaster.act, hc]
        refine ⟨?_, ?_, ?_⟩
        · rw [hb]
          exact fun c hc => ht c (List.mem_cons_of_mem _ hc)
        · intro c hc hkc
          have hl := hsw c (List.mem_cons_of_mem _ hc) hkc
          rw [(List.cons.inj hl).2] at hc
          cases hc
        · simp only [takes]
          rw [if_neg, hk]
          rintro ⟨hd, hn⟩
          have hsome : (s.bc.deliverCalls env s.os a s.ev).2.isNone = false := deliverCalls_some (ht a List.mem_cons_self hd)
          simp only [Broadcaster.actCalls, hd, hsome] at hn
          cases hn
    · cases h
  | update =>
    simp only [step] at h
    split at h
    · cases h
    · next u hp => cases h; exact ⟨by cases u <;> exact ht, hsw, hk⟩
  | snapshot | resetStats => cases h; exact ⟨ht, hsw, hk⟩

/-- Uninterrupted, the rest of a plan does what the loop of `execute` does. -/
theorem run_todo (env : Env) (l : List Action) (s : Accounting) (ht : s.todo = l) (hp : s.pending = none) :
    ∃ ls t, run step s ls = some t ∧ (t.bc, t.os) = l.foldl (Broadcaster.act env s.ev) (s.bc, s.os) := by
  induction l generalizing s with
  | nil => exact ⟨[], s, rfl, rfl⟩
  | cons a rest ih =>
    have hact := Broadcaster.act_calls env s.ev (s.bc, s.os) a
    obtain ⟨⟨⟨bc, os⟩, u⟩, hc⟩ : ∃ r, Broadcaster.actCalls env s.ev (s.bc, s.os) a = r := ⟨_, rfl⟩
    have hcalls : step s (.calls env) = some (s.takes env a rest) := by simp only [step, hp, ht]
    rw [List.foldl_cons, hact, hc]
    cases u with
    | none =>
      obtain ⟨ls, t, hr, he⟩ := ih (s.takes env a rest) rfl (by simp only [takes, hc])
      refine ⟨.calls env :: ls, t, run_cons_some.2 ⟨_, hcalls, hr⟩, ?_⟩
      rw [he]
      simp only [takes, hc, Broadcaster.settle]
    | some u =>
      have hpend : (s.takes env a rest).pending = some u := by simp only [takes, hc]
      have hupd : ∃ v, step (s.takes env a rest) .update = some v ∧ v.todo = rest ∧ v.pending = none ∧
          v.ev = s.ev ∧ (v.bc, v.os) = (bc.update u, os) := by
        simp only [step, hpend]
        exact ⟨_, rfl, rfl, rfl, rfl, by simp only [takes, hc]⟩
      obtain ⟨v, hv, hvt, hvp, hve, hvs⟩ := hupd
      obtain ⟨ls, t, hr, he⟩ := ih v hvt hvp
      refine ⟨.calls env :: .update :: ls, t, run_cons_some.2 ⟨_, hcalls, run_cons_some.2 ⟨v, hv, hr⟩⟩, ?_⟩
      rw [he, hve, hvs]
      rfl

/-- Uninterrupted, the steps of an event are `handle`. -/
theorem run_handle (s : Accounting) (env : Env) (ev : InputEvent) (hs : s.idle = true) :
    ∃ ls t, run step s (.handle env ev :: ls) = some t ∧ (t.bc, t.os) = s.bc.handle env s.os ev := by
  have hp : s.pending = none := idle_pending hs
  have hstep : ∃ u, step s (.handle env ev) = some u ∧ u.pending = none ∧ u.ev = ev ∧ u.bc = s.bc.applied ev ∧
      u.os = s.os ∧
      u.todo = if s.bc.targets.isEmpty then [] else ((s.bc.applied ev).planOf env ev).actions := by
    simp only [step, hs, if_true]
    exact ⟨_, rfl, hp, rfl, rfl, rfl, rfl⟩
  obtain ⟨u, hu, hup, hue, hub, huo, hut⟩ := hstep
  obtain ⟨ls, t, hr, he⟩ := run_todo env _ u hut hup
  refine ⟨ls, t, run_cons_some.2 ⟨u, hu, hr⟩, ?_⟩
  rw [he, s.bc.handle_eq, hue, hub, huo]
  split <;> rfl

/-! ## What a snapshot shows -/

/-- The updates of deliveries, and of failed restores. -/
def delivers (us : List Update) : Nat := us.countP Update.ofDeliver
def failedRestores (us : List Update) : Nat := us.countP fun u => !u.ofDeliver

/-- A snapshot with the updates since the last reset. -/
structure Consistent (shot : Snapshot) (us : List Update) : Prop where
  count : shot.latency.count = shot.deliveries
  total : shot.deliveries + shot.focusFailures = UInt64.ofNat (delivers us + failedRestores us)
  exact : us.length < UInt64.size →
    shot.injectFailures ≤ shot.deliveries ∧
      shot.deliveries.toNat + shot.focusFailures.toNat = delivers us + failedRestores us

theorem delivers_add (us : List Update) : delivers us + failedRestores us = us.length := by
  rw [delivers, failedRestores, List.length_eq_countP_add_countP Update.ofDeliver]
  simp

theorem consistent_counters (us : List Update) : Consistent (counters us) us := by
  obtain ⟨hc, hd, hf, hi⟩ := counters_eq us
  have hlen := landed_add_missed us
  refine ⟨hc.trans hd.symm, ?_, ?_⟩
  · rw [hd, hf, ← UInt64.ofNat_add, hlen, delivers_add]
  · intro hfit
    have hle := refused_le_landed us
    rw [hd, hf, hi, UInt64.le_iff_toNat_le, UInt64.toNat_ofNat_of_lt' (by omega), UInt64.toNat_ofNat_of_lt' (by omega),
      UInt64.toNat_ofNat_of_lt' (by omega), delivers_add]
    exact ⟨hle, hlen⟩

/-- A system that refuses the first injection only. -/
def refusesFirst : Env := { accepts := fun n => n ≠ 0 }

def wheelRoutes : Routes := { mouseTargets := targetBit 1, mouseStrategy := .windowMessage }
def wheelTargets : List Target := [{ hwnd := some 1 }, { hwnd := some 2 }]
def wheelEvent : InputEvent := { kind := .wheel, y := 120 }

/-- One turn of the wheel, posted to the only slave. -/
def turn : List Label := [.handle refusesFirst wheelEvent, .calls refusesFirst, .update]

def setUp : List Label := [.publish (.setRoutes (some wheelRoutes)), .publish (.setTargets wheelTargets 0), .refreshConfig]

/-- Every snapshot of every run is consistent; every delivery that began found
no target, is pending or was settled once; and a delivery of a plan of `handle`
finds its target. -/
theorem accounting_consistent {ls : List Label} {s : Accounting} (h : run step {} ls = some s) :
    (∀ shot ∈ s.shots, Consistent shot.1 shot.2) ∧ s.begun = s.settled + s.skipped + s.inFlight ∧
      ((∀ l ∈ ls, Planned l) → s.skipped = 0) := by
  have hi := inv_run h
  refine ⟨?_, hi.deliveries, ?_⟩
  · intro shot hm
    rw [hi.shots shot hm]
    exact consistent_counters shot.2
  · intro hl
    exact (run_inv_of Sound sound_step
      ⟨fun a ha => absurd ha List.not_mem_nil, fun a ha => absurd ha List.not_mem_nil, rfl⟩
      (allSteps_of_forall hl {}) h).skipped

/-- A turn of the wheel, with a reset after it. -/
theorem accounting_consistent_turn : ∃ s, run step {} (setUp ++ turn ++ [.snapshot, .resetStats, .snapshot]) = some s ∧
    (∀ shot ∈ s.shots, Consistent shot.1 shot.2) ∧ s.begun = s.settled + s.skipped + s.inFlight ∧
      ((∀ l ∈ setUp ++ turn ++ [.snapshot, .resetStats, .snapshot], Planned l) → s.skipped = 0) :=
  ⟨_, rfl, accounting_consistent rfl⟩

/-! ## Past 2^64 deliveries -/

/-- Between two turns. -/
structure Ready (s : Accounting) : Prop where
  idle : s.idle = true
  routes : s.bc.routes = wheelRoutes
  targets : s.bc.targets = wheelTargets
  master : s.bc.master = 0

/-- The update of a turn before which the system saw `n` injections. -/
def turned (n : Nat) : Update := .delivered 0 (n ≠ 0)

theorem wheel_plan {b : Broadcaster} (hr : b.routes = wheelRoutes) (ht : b.targets = wheelTargets) (hm : b.master = 0) :
    (b.planOf refusesFirst wheelEvent).actions = [deliverTo .windowMessage 1] := by
  unfold Broadcaster.planOf
  rw [hr, ht, hm]
  rfl

theorem wheel_calls {b : Broadcaster} (ht : b.targets = wheelTargets) (os : Os) :
    ∃ os', b.deliverCalls refusesFirst os (deliverTo .windowMessage 1) wheelEvent = (os', some (turned os.sends)) ∧
      os'.sends = os.sends + 1 := by
  have hlt : ¬ (deliverTo .windowMessage 1).target ≥ b.targets.length := by rw [ht]; decide
  have hs : (deliverTo .windowMessage 1).strategy = .windowMessage := rfl
  have hz : qpcToUs refusesFirst (0 - 0) = 0 := by decide
  unfold Broadcaster.deliverCalls
  rw [if_neg hlt, if_pos hs]
  exact ⟨_, Prod.ext rfl (congrArg (fun us => some (Update.delivered us (os.sends ≠ 0))) hz), by rfl⟩

theorem run_turn {s : Accounting} (h : Ready s) :
    ∃ t, run step s turn = some t ∧ Ready t ∧ t.os.sends = s.os.sends + 1 ∧
      t.since = s.since ++ [turned s.os.sends] ∧ t.shots = s.shots := by
  obtain ⟨hi, hr, ht, hm⟩ := h
  have hplan : ((s.bc.applied wheelEvent).planOf refusesFirst wheelEvent).actions = [deliverTo .windowMessage 1] :=
    wheel_plan hr ht hm
  have hne : (s.bc.applied wheelEvent).targets.isEmpty = false := by
    rw [show (s.bc.applied wheelEvent).targets = _ from ht]
    rfl
  have hp : s.pending = none := idle_pending hi
  obtain ⟨os, hcalls, hsends⟩ := wheel_calls (b := s.bc.applied wheelEvent) ht s.os
  simp only [turn, run, step, hi, if_true, hne, Bool.false_eq_true, if_false, hplan, hp, Option.bind_some, takes,
    Broadcaster.actCalls, deliverTo]
  simp only [deliverTo] at hcalls
  rw [hcalls]
  exact ⟨_, rfl, ⟨rfl, hr, ht, hm⟩, hsends, rfl, rfl⟩

theorem run_turns (n : Nat) {s : Accounting} (h : Ready s) :
    ∃ t, run step s (List.replicate n turn).flatten = some t ∧ Ready t ∧
      t.since = s.since ++ (List.range' s.os.sends n).map turned ∧ t.shots = s.shots := by
  induction n generalizing s with
  | zero => exact ⟨s, rfl, h, (List.append_nil _).symm, rfl⟩
  | succ n ih =>
    obtain ⟨t, hrun, hready, hsends, hsince, hshots⟩ := run_turn h
    obtain ⟨u, hrun', hready', hsince', hshots'⟩ := ih hready
    refine ⟨u, ?_, hready', ?_, hshots'.trans hshots⟩
    · rw [List.replicate_succ, List.flatten_cons]
      exact run_append_some.2 ⟨t, hrun, hrun'⟩
    · rw [hsince', hsince, hsends, List.range'_succ, List.map_cons, List.append_assoc]
      rfl

/-- All turns land, and the system refused the first. -/
theorem countP_turned (n : Nat) :
    ((List.range' 0 (n + 1)).map turned).countP Update.landed = n + 1 ∧
      ((List.range' 0 (n + 1)).map turned).countP Update.refused = 1 := by
  constructor
  · have hall : ∀ i ∈ List.range' 0 (n + 1), (Update.landed ∘ turned) i = true := fun _ _ => rfl
    rw [List.countP_map, List.countP_eq_length.2 hall, List.length_range']
  · have hrest : (List.range' 1 n).countP (Update.refused ∘ turned) = 0 := by
      rw [List.countP_eq_zero]
      intro i hi
      have := (List.mem_range'_1.1 hi).1
      simp [turned, Update.refused]
      omega
    rw [List.countP_map, List.range'_succ, List.countP_cons, hrest]
    rfl

theorem run_setUp : ∃ s, run step {} setUp = some s ∧ Ready s ∧ s.os.sends = 0 ∧ s.since = [] ∧ s.shots = [] :=
  ⟨_, rfl, ⟨rfl, rfl, rfl, rfl⟩, rfl, rfl, rfl⟩

theorem planned_turns (n : Nat) : ∀ l ∈ setUp ++ (List.replicate n turn).flatten ++ [.snapshot], Planned l := by
  intro l hl
  rcases List.mem_append.1 hl with hl | hl
  · rcases List.mem_append.1 hl with hl | hl
    · simp only [setUp, List.mem_cons, List.not_mem_nil, or_false] at hl
      rcases hl with rfl | rfl | rfl <;> trivial
    · obtain ⟨r, hr, hl⟩ := List.mem_flatten.1 hl
      rw [(List.mem_replicate.1 hr).2] at hl
      simp only [turn, List.mem_cons, List.not_mem_nil, or_false] at hl
      rcases hl with rfl | rfl | rfl <;> trivial
  · rw [List.mem_singleton.1 hl]
    trivial

/-- Of 2^64 deliveries whose first was refused the counters show none, and one
refusal. -/
theorem counters_wrap : ∃ ls s, run step {} ls = some s ∧ (∀ l ∈ ls, Planned l) ∧
    ∃ shot ∈ s.shots, ¬ shot.1.injectFailures ≤ shot.1.deliveries ∧
      shot.1.deliveries.toNat + shot.1.focusFailures.toNat ≠ delivers shot.2 + failedRestores shot.2 := by
  obtain ⟨s, hs, hready, hsends, hsince, hshots⟩ := run_setUp
  obtain ⟨t, ht, -, htsince, htshots⟩ := run_turns UInt64.size hready
  have hstep : step t .snapshot = some { t with shots := t.shots ++ [(t.bc.snapshot, t.since)] } := rfl
  have hrun := run_append_some.2 ⟨t, run_append_some.2 ⟨s, hs, ht⟩, run_cons_some.2 ⟨_, hstep, run_nil _⟩⟩
  refine ⟨_, _, hrun, planned_turns _, (t.bc.snapshot, t.since), ?_, ?_⟩
  · rw [htshots, hshots]
    exact List.mem_singleton_self _
  · have hstats : t.bc.snapshot = counters t.since :=
      (inv_run (run_append_some.2 ⟨s, hs, ht⟩)).stats
    rw [hsince, hsends, List.nil_append] at htsince
    obtain ⟨hl, hr⟩ := countP_turned 18446744073709551615
    obtain ⟨-, hd, hf, hi⟩ := counters_eq t.since
    have hlen := landed_add_missed t.since
    have hadd := delivers_add t.since
    have hsz : UInt64.size = 18446744073709551615 + 1 := rfl
    rw [hsz] at htsince
    rw [htsince, List.length_map, List.length_range'] at hlen hadd
    rw [htsince, hl] at hd
    rw [htsince, hr] at hi
    have hmiss : ((List.range' 0 (18446744073709551615 + 1)).map turned).countP (fun u => !u.landed) = 0 := by omega
    rw [htsince, hmiss] at hf
    simp only
    rw [hstats, htsince, hadd, hd, hf, hi]
    decide

end Accounting

end MultiMadness
