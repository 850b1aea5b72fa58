import MultiMadness.Desktop
import Mathlib.Data.List.Count
/-!
# Exactly-once mirroring

A transition of a mirrored key is delivered to every slave once, whichever
window received it physically. So every window gets it exactly once when the
master was in the foreground at that moment, and only then.

- `script_delivers`: what the script of a mirrored key delivers.
- `mirrored_once_iff`: every transition reaches every window once exactly when
  the master received each of them itself.
-/

namespace MultiMadness.Desktop

open RunLib KeyState
open Feed (Queued Hooked)

/-! ## The deliveries of a script -/

section Deliveries
variable {bc : Broadcaster} {env : Env} {ev : InputEvent}

theorem delivers_one (hk : isKey ev.kind = true) {u : Nat} (hu : u < bc.targets.length) (t : Nat) :
    (bc.calls env ev (deliverTo .focusCycle u)).countP (deliversKey t) = if u = t then 1 else 0 := by
  have hs : bc.sendOutputs env u ev = [.sendKey ev.vk ev.scan (ev.kind = .keyDown) ev.flags] := by
    unfold Broadcaster.sendOutputs
    rw [if_pos hk]
  rw [Broadcaster.calls_deliver, if_neg (Nat.not_le.2 hu), if_neg (by simp), hs]
  by_cases h : u = t <;> simp [deliversKey, h]

theorem delivers_each (hk : isKey ev.kind = true) {l : List Nat} (hl : ∀ u ∈ l, u < bc.targets.length) (t : Nat) :
    ((l.map (deliverTo .focusCycle)).flatMap (bc.calls env ev)).countP (deliversKey t) = l.count t := by
  induction l with
  | nil => rfl
  | cons u l ih =>
    rw [List.map_cons, List.flatMap_cons, List.countP_append, delivers_one hk (hl u List.mem_cons_self),
      ih fun v hv => hl v (List.mem_cons_of_mem _ hv), List.count_cons, Nat.add_comm]
    simp

theorem repairs_deliver_none (ks : KeyState) (t : Nat) :
    ((repairs ev ks).flatMap (bc.calls env ev)).countP (deliversKey t) = 0 := by
  rw [List.countP_eq_zero]
  intro c hc
  rcases repairs_free hc with ⟨i, rfl⟩ | ⟨sender, out, rfl, hs, -⟩
  · simp [deliversKey]
  · cases sender with
    | deliver i => exact absurd rfl (hs i)
    | _ => simp [deliversKey]

/-- The script of a key bound to a focus cycle delivers it once to every live
slave of the binding. -/
theorem script_delivers (hk : isKey ev.kind = true) {b : KeyBinding} (hb : bc.routes.find ev.vk = some b)
    (hs : b.strategy = .focusCycle) (hhot : ¬ isSwapHotkey ev bc.routes) (t : Nat) :
    (bc.script env ev).countP (deliversKey t) =
      if t ∈ mirrorTargets b.targets (Broadcaster.aliveMask env bc.targets) bc.master then 1 else 0 := by
  have hlt : ∀ u ∈ mirrorTargets b.targets (Broadcaster.aliveMask env bc.targets) bc.master, u < bc.targets.length :=
    fun u hu => Broadcaster.mirrorTargets_alive hu
  have hr : rule ev bc.routes bc.masterKeys = some (b.targets, .focusCycle) := by
    rw [rule, if_pos hk, if_neg hhot, hb, ← hs]; rfl
  unfold Broadcaster.script
  split
  · next he =>
    rw [if_neg fun ht => by
      have := hlt t ht
      rw [List.isEmpty_iff.1 he] at this
      exact absurd this (Nat.not_lt_zero _)]
    rfl
  · rw [Broadcaster.planOf, plan_actions, if_neg hhot, hr]
    simp only [Option.map_some, Option.getD_some, ruleActions, List.flatMap_append, List.countP_append]
    rw [delivers_each hk hlt, (nodup_mirrorTargets _ _ _).count]
    conv_rhs => rw [← Nat.add_zero (ite _ _ _)]
    congr 1
    split
    · exact repairs_deliver_none _ _
    · rfl

end Deliveries

/-! ## Receipts -/

/-- How often the `n`-th publication reached the window `t`: physically, or delivered. -/
def receipts (s : Desktop) (n t : Nat) : Nat :=
  (if s.seen[n]? = some (some t) then 1 else 0) + s.deliveries.count (n, t)

/-- Every transition of `vk` reached each of the windows exactly once. -/
def ExactlyOnce (s : Desktop) (vk : UInt16) (windows : List Nat) : Prop :=
  ∀ (n : Nat) (r : Published), s.history[n]? = some r → r.OfKey vk → ∀ t ∈ windows, s.receipts n t = 1

/-- A transition of `vk` meets the master in the foreground. -/
def MeetsMaster (vk : UInt16) (s : Desktop) : Label → Prop
  | .key ts msg k => ∀ ev ∈ s.cap.keyPublished ts msg k, ev.vk = vk → s.fg = s.bc.master
  | _ => True

instance (vk : UInt16) (s : Desktop) (l : Label) : Decidable (MeetsMaster vk s l) := by
  unfold MeetsMaster; split <;> infer_instance

/-- The windows that received the transitions of `vk` physically. -/
def Marked (vk : UInt16) (R : Option (Option Nat) → Prop) (s : Desktop) : Prop :=
  ∀ (n : Nat) (r : Published), s.history[n]? = some r → r.OfKey vk → R s.seen[n]?

theorem marked_grow {vk : UInt16} {R : Option (Option Nat) → Prop} {s t : Desktop} {recs : List Published}
    {ev : Option InputEvent} {w : Option Nat} (hlen : s.seen.length = s.history.length)
    (hh : t.history = s.history ++ recs) (hrecs : recs.map (·.ev) = ev.toList)
    (hseen : t.seen = s.seen ++ ev.toList.map fun _ => w) :
    Marked vk R t ↔ Marked vk R s ∧ ∀ e, ev = some e → isKey e.kind = true → e.vk = vk → R (some w) := by
  cases ev with
  | none =>
    rw [Option.toList_none, List.map_eq_nil_iff] at hrecs
    subst hrecs
    simp only [Option.toList_none, List.map_nil, List.append_nil] at hseen hh
    simp [Marked, hseen, hh]
  | some e =>
    obtain ⟨q, rfl, rfl⟩ : ∃ q, recs = [q] ∧ q.ev = e := by
      match recs, hrecs with
      | [q], h => exact ⟨q, rfl, by simpa using h⟩
    simp only [Option.toList_some, List.map_cons, List.map_nil] at hseen
    unfold Marked
    rw [hh, hseen]
    have hnew : (s.history ++ [q])[s.history.length]? = some q ∧ (s.seen ++ [w])[s.history.length]? = some w := by
      exact ⟨by simp, by rw [← hlen]; simp⟩
    constructor
    · intro h
      constructor
      · intro n r hn hr
        have hlt := (List.getElem?_eq_some_iff.1 hn).1
        have := h n r (by rw [List.getElem?_append_left hlt, hn]) hr
        rwa [List.getElem?_append_left (by omega)] at this
      · intro e he hk hv
        cases he
        have := h _ q hnew.1 ⟨hk, hv⟩
        rwa [hnew.2] at this
    · rintro ⟨h, hq⟩ n r hn hr
      by_cases hlt : n < s.history.length
      · rw [List.getElem?_append_left hlt] at hn
        rw [List.getElem?_append_left (by omega)]
        exact h n r hn hr
      · have hn' := (List.getElem?_eq_some_iff.1 hn).1
        rw [List.length_append, List.length_singleton] at hn'
        obtain rfl : n = s.history.length := by omega
        rw [hnew.1] at hn
        cases hn
        rw [hnew.2]
        exact hq _ rfl hr.1 hr.2

/-! ## The invariant -/

/-- A mirrored key, as the user configured it, and the live windows. -/
structure Setup where
  routes : Routes
  targets : List Target
  master : Nat
  env : Env
  binding : KeyBinding
  bound : routes.find binding.vk = some binding
  cycles : binding.strategy = .focusCycle
  visible : routes.swallows binding.vk = false

namespace Setup

/-- The live slaves of the binding. -/
def slaves (u : Setup) : List Nat := mirrorTargets u.binding.targets (Broadcaster.aliveMask u.env u.targets) u.master

def start (u : Setup) (acceptForeign : Bool) : Desktop :=
  Desktop.start (Capture.swallowTable u.routes { acceptForeign := acceptForeign })
    { routes := u.routes, targets := u.targets, master := u.master }

/-- How often a transition is to be delivered to `t`. -/
def owed (u : Setup) (t : Nat) : Nat := if t ∈ u.slaves then 1 else 0

end Setup

variable {u : Setup}

/-- What was delivered of each publication: nothing before its turn, everything after. -/
structure Counted (u : Setup) (s : Desktop) : Prop where
  past : ∀ (n : Nat) (r : Published), n < s.handled → s.history[n]? = some r → r.OfKey u.binding.vk →
    ∀ t, s.deliveries.count (n, t) = u.owed t
  current : ∀ (r : Published) (cs : List Call), s.todo = some cs → s.history[s.handled]? = some r →
    r.OfKey u.binding.vk → ∀ t, s.deliveries.count (s.handled, t) + cs.countP (deliversKey t) = u.owed t
  future : ∀ n t, s.handled < n ∨ n = s.handled ∧ s.todo = none → s.deliveries.count (n, t) = 0

structure Mirrors (u : Setup) (s : Desktop) : Prop where
  queued : Queued s.toFeed
  routes : s.bc.routes = u.routes
  targets : s.bc.targets = u.targets
  master : s.bc.master = u.master
  visible : s.cap.hides u.binding.vk = false
  active : s.todo ≠ none → s.popped ≠ none
  seen : s.seen.length = s.history.length
  passed : Marked u.binding.vk (fun w => ∃ i, w = some (some i)) s
  aimed : ∀ cs, s.todo = some cs → Aimed u.master s.fg cs
  counted : s.cap.dropped = 0 → Counted u s

theorem not_hotkey {ev : InputEvent} (hv : ev.vk = u.binding.vk) : ¬ isSwapHotkey ev u.routes := by
  rintro ⟨-, h0, he⟩
  have h : u.routes.swallows u.binding.vk = true := by
    rw [← hv, Routes.swallows, if_pos ⟨he, he ▸ h0⟩]
  rw [u.visible] at h
  cases h

theorem mirrors_start (u : Setup) (acceptForeign : Bool) : Mirrors u (u.start acceptForeign) where
  queued := Feed.queued_start _
  routes := rfl
  targets := rfl
  master := rfl
  visible := by
    change (Capture.swallowTable u.routes { acceptForeign := acceptForeign }).hides u.binding.vk = false
    unfold Capture.hides
    split
    · rfl
    · next i hi => rw [Capture.swallowTable_swallow, ← slot_eq_some.1 hi, u.visible]
  active h := absurd rfl h
  seen := rfl
  passed _ _ h := by cases h
  aimed _ h := by cases h
  counted _ := ⟨fun _ _ h => absurd h (Nat.not_lt_zero _), fun _ _ h => (by cases h), fun _ _ _ => rfl⟩

theorem mirrors_hooked {s : Desktop} (hm : Mirrors u s) {ev : Option InputEvent} {g : Feed} {w : Option Nat}
    {believed : Nat → UInt16 → Bool} (h : Hooked s.toFeed ev g)
    (hw : ∀ e, ev = some e → isKey e.kind = true → e.vk = u.binding.vk → ∃ i, w = some i) :
    Mirrors u { s with toFeed := g, believed := believed, seen := s.seen ++ ev.toList.map fun _ => w } := by
  obtain ⟨hpop, hhandled, hdrop, recs, hhist, hrecs⟩ := h.frame
  have hle : s.handled ≤ s.history.length :=
    Nat.le_trans hm.queued.handled_le (List.length_filter_le _ _)
  refine ⟨Feed.queued_hooked hm.queued h, hm.routes, hm.targets, hm.master, ?_, ?_, ?_, ?_, hm.aimed, ?_⟩
  · change g.cap.hides _ = false
    rw [hides_congr h.swallow]
    exact hm.visible
  · intro ha
    change g.popped ≠ none
    rw [hpop]
    exact hm.active ha
  · change (s.seen ++ _).length = g.history.length
    have := congrArg List.length hrecs
    rw [List.length_map] at this
    rw [hhist, List.length_append, List.length_append, List.length_map, this, hm.seen]
  · refine (marked_grow hm.seen hhist hrecs rfl).2 ⟨hm.passed, fun e he hk hv => ?_⟩
    obtain ⟨i, rfl⟩ := hw e he hk hv
    exact ⟨i, rfl⟩
  · intro h0
    obtain ⟨hpast, hcur, hfut⟩ := hm.counted (hdrop h0)
    refine ⟨?_, ?_, ?_⟩
    · intro n r hn hr
      change n < g.handled at hn
      change g.history[n]? = some r at hr
      rw [hhandled] at hn
      rw [hhist, List.getElem?_append_left (by omega)] at hr
      exact hpast n r hn hr
    · intro r cs hcs hr
      change s.todo = some cs at hcs
      change g.history[g.handled]? = some r at hr
      obtain ⟨e, he⟩ := Option.ne_none_iff_exists'.1 (hm.active (by rw [hcs]; simp))
      rw [hhandled, hhist, List.getElem?_append_left (hm.queued.handled_lt he)] at hr
      have := hcur r cs hcs hr
      rw [← hhandled] at this
      exact this
    · intro n t hn
      change g.handled < n ∨ n = g.handled ∧ s.todo = none at hn
      rw [hhandled] at hn
      exact hfut n t hn

theorem mirrors_key {s t : Desktop} {env : Nat → Env} {ts : UInt64} {msg : KeyMsg} {k : KbdLlHook} (hm : Mirrors u s)
    (h : Change env s (.key ts msg k) t) : Mirrors u t := by
  cases h with
  | key _ _ _ hacc =>
    refine mirrors_hooked hm (s.hooked_key ts msg k) fun e he _ hv => ⟨s.fg, ?_⟩
    rw [← (Capture.keyPublished_iff.1 he).2.1, hv, hm.visible]
    rfl

/-- The script of the publication whose turn it is delivers what is owed. -/
theorem script_owes {s : Desktop} (hm : Mirrors u s) (h0 : s.cap.dropped = 0) {ev : InputEvent}
    (hp : s.popped = some ev) {r : Published} (hr : s.history[s.handled]? = some r) (hkey : r.OfKey u.binding.vk)
    (t : Nat) : ((s.bc.applied ev).script u.env ev).countP (deliversKey t) = u.owed t := by
  obtain ⟨q, hq, rfl⟩ := hm.queued.popped_eq h0 hp
  cases hq.symm.trans hr
  have hroutes : (s.bc.applied r.ev).routes = u.routes := hm.routes
  have htargets : (s.bc.applied r.ev).targets = u.targets := hm.targets
  have hmaster : (s.bc.applied r.ev).master = u.master := hm.master
  have hb : (s.bc.applied r.ev).routes.find r.ev.vk = some u.binding := by
    rw [hroutes, hkey.2]
    exact u.bound
  have hhot : ¬ isSwapHotkey r.ev (s.bc.applied r.ev).routes := by
    rw [hroutes]
    exact not_hotkey hkey.2
  rw [script_delivers hkey.1 hb u.cycles hhot t, htargets, hmaster]
  rfl

theorem mirrors_apply {s t : Desktop} (hm : Mirrors u s) (h : Change (fun _ => u.env) s .apply t) : Mirrors u t := by
  cases h with
  | apply ev hp htodo =>
    refine ⟨hm.queued, hm.routes, hm.targets, hm.master, hm.visible, ?_, hm.seen, hm.passed, ?_, ?_⟩
    · intro _
      change s.popped ≠ none
      rw [hp]; simp
    · intro cs hcs
      cases hcs
      have ha := script_aimed (s.bc.applied ev) u.env ev s.fg
      rw [show (s.bc.applied ev).master = u.master from hm.master] at ha
      exact ha
    · intro h0
      obtain ⟨hpast, -, hfut⟩ := hm.counted h0
      refine ⟨hpast, ?_, ?_⟩
      · intro r cs hcs hr hkey t
        cases hcs
        rw [show s.deliveries.count (s.handled, t) = 0 from hfut _ t (.inr ⟨rfl, htodo⟩), Nat.zero_add]
        exact script_owes hm h0 hp hr hkey t
      · intro n t hn
        rcases hn with hn | ⟨-, hn⟩
        · exact hfut n t (.inl hn)
        · cases hn

/-- What a call adds to the deliveries of a publication. -/
theorem perform_deliveries {s : Desktop} {c : Call} {cs : List Call} {master : Nat}
    (ha : Aimed master s.fg (c :: cs)) (n t : Nat) :
    (s.perform c).deliveries.count (n, t) =
      s.deliveries.count (n, t) + if n = s.handled ∧ deliversKey t c = true then 1 else 0 := by
  cases c with
  | focus i => simp [perform, deliversKey]
  | inject sender out =>
    cases out with
    | sendKey vk scan down flags =>
      cases sender with
      | deliver i =>
        have hi : i = s.fg := by
          rcases ha.1 with h | ⟨h, -⟩
          · cases h
          · cases h; rfl
        subst hi
        have he : ((s.handled, s.fg) == (n, t)) = decide (n = s.handled ∧ deliversKey t
            (.inject (.deliver s.fg) (.sendKey vk scan down flags)) = true) := by
          rw [Bool.eq_iff_iff, beq_iff_eq, decide_eq_true_eq, Prod.mk.injEq]
          simp [deliversKey, eq_comm]
        simp only [perform, List.count_append, List.count_singleton, he, decide_eq_true_eq]
      | reassertHeld => simp [perform, deliversKey]
      | restoreCursor => simp [perform, deliversKey]
    | _ => cases sender <;> simp [perform, deliversKey]

/-- A call takes a delivered key out of the script and adds it to the deliveries. -/
theorem counted_call {s : Desktop} {c : Call} {cs : List Call} (hc : Counted u s) (htodo : s.todo = some (c :: cs))
    (ha : Aimed u.master s.fg (c :: cs)) : Counted u { s.perform c with todo := some cs } := by
  obtain ⟨hpast, hcur, hfut⟩ := hc
  have hfeed : (s.perform c).toFeed = s.toFeed := perform_feed s c
  have hadd := perform_deliveries ha
  refine ⟨?_, ?_, ?_⟩
  · intro n r hn hr hkey t
    change n < (s.perform c).handled at hn
    change (s.perform c).history[n]? = some r at hr
    rw [hfeed] at hn hr
    change (s.perform c).deliveries.count (n, t) = u.owed t
    rw [hadd, if_neg fun h => by omega, Nat.add_zero]
    exact hpast n r hn hr hkey t
  · intro r ds hds hr hkey t
    cases hds
    change (s.perform c).history[(s.perform c).handled]? = some r at hr
    change (s.perform c).deliveries.count ((s.perform c).handled, t) + _ = u.owed t
    rw [hfeed] at hr ⊢
    have hold := hcur r _ htodo hr hkey t
    rw [List.countP_cons] at hold
    rw [hadd]
    simp only [true_and]
    omega
  · intro n t hn
    change (s.perform c).handled < n ∨ n = (s.perform c).handled ∧ some cs = none at hn
    rw [hfeed] at hn
    rcases hn with hn | ⟨-, hn⟩
    · change (s.perform c).deliveries.count (n, t) = 0
      rw [hadd, if_neg fun h => by omega, hfut n t (.inl hn)]
    · cases hn

theorem mirrors_call {s t : Desktop} {env : Nat → Env} (hm : Mirrors u s) (h : Change env s .call t) :
    Mirrors u t := by
  cases h with
  | call c cs htodo =>
    have ha := hm.aimed _ htodo
    exact {
      queued := by simpa using hm.queued
      routes := by simpa using hm.routes
      targets := by simpa using hm.targets
      master := by simpa using hm.master
      visible := by simpa using hm.visible
      active := fun _ => by simpa using hm.active (by rw [htodo]; simp)
      seen := by simpa using hm.seen
      passed := by simpa [Marked] using hm.passed
      aimed := fun ds hds => by cases hds; exact aimed_perform ha
      counted := fun h0 => counted_call (hm.counted (by simpa using h0)) htodo ha }

theorem mirrors_done {s t : Desktop} {env : Nat → Env} (hm : Mirrors u s) (h : Change env s .done t) :
    Mirrors u t := by
  cases h with
  | done htodo =>
    obtain ⟨ev, hp⟩ := Option.ne_none_iff_exists'.1 (hm.active (by rw [htodo]; simp))
    refine ⟨Feed.queued_done hm.queued hp, hm.routes, hm.targets, hm.master, hm.visible, fun hn => absurd rfl hn,
      hm.seen, hm.passed, fun _ hcs => (by cases hcs), fun h0 => ?_⟩
    obtain ⟨hpast, hcur, hfut⟩ := hm.counted h0
    refine ⟨?_, fun _ _ hcs => (by cases hcs), ?_⟩
    · intro n r hn hr hkey t
      change n < s.handled + 1 at hn
      change s.history[n]? = some r at hr
      change s.deliveries.count (n, t) = u.owed t
      by_cases hlt : n < s.handled
      · exact hpast n r hlt hr hkey t
      · -- The event just handled: nothing of its script is left.
        obtain rfl : n = s.handled := by omega
        simpa using hcur r [] htodo hr hkey t
    · intro n t hn
      change s.handled + 1 < n ∨ n = s.handled + 1 ∧ _ at hn
      exact hfut n t (.inl (by omega))

/-- Every step keeps the invariant. -/
theorem mirrors_change {s t : Desktop} {l : Label} (hm : Mirrors u s) (h : Change (fun _ => u.env) s l t) :
    Mirrors u t := by
  cases l with
  | key ts msg k => exact mirrors_key hm h
  | mouse ts msg m =>
    cases h
    refine mirrors_hooked hm (s.hooked_mouse ts msg m) fun e he hk _ => ?_
    rw [Capture.mousePublished_kind he] at hk
    cases hk
  | pop =>
    cases h with
    | pop f hf =>
      have hq := Feed.queued_pop hm.queued hf
      obtain ⟨ev, ring, -, -, rfl⟩ := Feed.pop_eq_some hf
      exact ⟨hq, hm.routes, hm.targets, hm.master, hm.visible, fun _ => by simp, hm.seen, hm.passed, hm.aimed,
        fun h0 => ⟨(hm.counted h0).past, (hm.counted h0).current, (hm.counted h0).future⟩⟩
  | apply => exact mirrors_apply hm h
  | call => exact mirrors_call hm h
  | done => exact mirrors_done hm h

/-! ## Exactly once -/

/-- Every transition of the key reached the master physically. -/
def MetByMaster (u : Setup) (s : Desktop) : Prop := Marked u.binding.vk (· = some (some u.master)) s

/-- One step: a new transition meets the master, or the window that is in the
foreground instead. -/
theorem metByMaster_change {s t : Desktop} {env : Nat → Env} {l : Label} (hm : Mirrors u s)
    (h : Change env s l t) : MetByMaster u t ↔ MetByMaster u s ∧ MeetsMaster u.binding.vk s l := by
  cases h with
  | key ts msg k hacc =>
    obtain ⟨-, -, -, recs, hhist, hrecs⟩ := (s.hooked_key ts msg k).frame
    unfold MetByMaster
    rw [marked_grow hm.seen hhist hrecs rfl]
    refine and_congr_right fun _ => forall_congr' fun e => forall_congr' fun he => ?_
    obtain ⟨-, heq, -⟩ := Capture.keyPublished_iff.1 he
    have hk : isKey e.kind = true := by rw [heq]; exact Capture.keyEvent_isKey ts msg k
    rw [← heq]
    constructor
    · intro hr hv
      have hw := hr hk hv
      rw [hv, hm.visible] at hw
      rw [hm.master]
      simpa using hw
    · intro hr _ hv
      rw [hv, hm.visible, hr hv, hm.master]
      rfl
  | mouse ts msg m =>
    obtain ⟨-, -, -, recs, hhist, hrecs⟩ := (s.hooked_mouse ts msg m).frame
    unfold MetByMaster
    rw [marked_grow hm.seen hhist hrecs rfl]
    refine and_congr_right fun _ => ⟨fun _ => trivial, fun _ e he hk => ?_⟩
    rw [Capture.mousePublished_kind he] at hk
    cases hk
  | pop f hf =>
    obtain ⟨ev, ring, -, -, rfl⟩ := Feed.pop_eq_some hf
    exact (and_iff_left trivial).symm
  | call c cs htodo =>
    refine Iff.trans ?_ (and_iff_left trivial).symm
    simp [MetByMaster, Marked]
  | apply ev hp htodo => exact (and_iff_left trivial).symm
  | done htodo => exact (and_iff_left trivial).symm

/-- With everything handled, every slave owes its receipts to the deliveries,
the master its own to the foreground. -/
theorem exactlyOnce_iff {s : Desktop} (hm : Mirrors u s) (h0 : s.cap.dropped = 0) (hd : s.Drained) :
    ExactlyOnce s u.binding.vk (u.master :: u.slaves) ↔ MetByMaster u s := by
  have hall := hm.queued.all_handled h0 hd
  have hcount : ∀ (n : Nat) (r : Published), s.history[n]? = some r → r.OfKey u.binding.vk →
      ∀ t, s.deliveries.count (n, t) = u.owed t := fun n r hn hr t =>
    (hm.counted h0).past n r (by rw [← hall]; exact (List.getElem?_eq_some_iff.1 hn).1) hn hr t
  have hmaster : u.master ∉ u.slaves := fun h => (mem_mirrorTargets.1 h).2.2.2 rfl
  constructor
  · intro h n r hn hr
    have hr' := h n r hn hr u.master List.mem_cons_self
    rw [receipts, hcount n r hn hr, Setup.owed, if_neg hmaster] at hr'
    by_contra hne
    rw [if_neg hne] at hr'
    cases hr'
  · intro h n r hn hr t ht
    have hseen : s.seen[n]? = some (some u.master) := h n r hn hr
    rw [receipts, hcount n r hn hr, hseen, Setup.owed]
    rcases List.mem_cons.1 ht with rfl | ht
    · rw [if_pos rfl, if_neg hmaster]
    · have hne : u.master ≠ t := fun he => hmaster (he ▸ ht)
      rw [if_neg (by simpa using hne), if_pos ht]

/-- In every interleaving without a drop, once everything is handled, each
transition of the key has reached the master and every live slave exactly once
exactly when each of them met the master in the foreground. -/
theorem mirrored_once_iff (u : Setup) (acceptForeign : Bool) (ls : List Label) (s : Desktop)
    (h : run (step fun _ => u.env) (u.start acceptForeign) ls = some s) (h0 : s.cap.dropped = 0) (hd : s.Drained) :
    ExactlyOnce s u.binding.vk (u.master :: u.slaves) ↔
      AllSteps (step fun _ => u.env) (MeetsMaster u.binding.vk) (u.start acceptForeign) ls := by
  have hm := run_inv (Mirrors u) (fun _ _ _ hm hs => mirrors_change hm (change hs)) (mirrors_start u acceptForeign) h
  rw [exactlyOnce_iff hm h0 hd, run_iff_allSteps (Mirrors u) (fun _ _ _ hm hs => mirrors_change hm (change hs))
    (fun _ _ _ hm hs => metByMaster_change hm (change hs)) (mirrors_start u acceptForeign) h]
  exact and_iff_right fun n r hn => by cases hn

/-! ## A key pressed during a focus cycle -/

/-- Two clients, the first one the master, and the keys `1` and `2` mirrored to both. -/
def twoKeys : Setup where
  routes := Routes.addKey (Routes.addKey {} { vk := 0x31 }) { vk := 0x32 }
  targets := [⟨some 100⟩, ⟨some 200⟩]
  master := 0
  env := {}
  binding := { vk := 0x32 }
  bound := by decide
  cycles := rfl
  visible := by decide

def press (vk : UInt32) : Label := .key 0 .wmKeyDown { vkCode := vk }

/-- `2` is pressed alone and handled. -/
def pressAlone : List Label := [press 0x32, .pop, .apply, .call, .call, .call, .call, .done]

theorem mirrored_once_alone : ∃ s, run (step fun _ => twoKeys.env) (twoKeys.start false) pressAlone = some s ∧
    ExactlyOnce s 0x32 (0 :: twoKeys.slaves) := by
  have h : ((run (step fun _ => twoKeys.env) (twoKeys.start false) pressAlone).map fun s =>
      (s.cap.dropped, s.ring.items.isEmpty, s.popped.isNone)) = some (0, true, true) := by decide +kernel
  obtain ⟨s, hs, h⟩ := Option.map_eq_some_iff.1 h
  simp only [Prod.mk.injEq, List.isEmpty_iff, Option.isNone_iff_eq_none] at h
  obtain ⟨h0, hring, hpop⟩ := h
  exact ⟨s, hs, (mirrored_once_iff twoKeys false pressAlone s hs h0 ⟨hring, hpop⟩).2 (by decide +kernel)⟩

/-- `2` goes down while the slave is in the foreground for `1`. -/
def pressDuringCycle : List Label :=
  [press 0x31, .pop, .apply, .call, press 0x32, .call, .call, .call, .done, .pop, .apply, .call, .call, .call, .call,
    .call, .done]

/-- The slave gets `2` twice and the master does not get it at all. -/
theorem press_mirrored_twice :
    ∃ s, run (step fun _ => twoKeys.env) (twoKeys.start false) pressDuringCycle = some s ∧ s.cap.dropped = 0 ∧
      s.Drained ∧ s.receipts 1 0 = 0 ∧ s.receipts 1 1 = 2 ∧ ¬ ExactlyOnce s 0x32 (0 :: twoKeys.slaves) := by
  have h : ((run (step fun _ => twoKeys.env) (twoKeys.start false) pressDuringCycle).map fun s =>
      (s.cap.dropped, s.ring.items.isEmpty, s.popped.isNone, s.receipts 1 0, s.receipts 1 1,
        s.history[1]?.any fun r => r.OfKey 0x32)) = some (0, true, true, 0, 2, true) := by decide +kernel
  obtain ⟨s, hs, h⟩ := Option.map_eq_some_iff.1 h
  simp only [Prod.mk.injEq, List.isEmpty_iff, Option.isNone_iff_eq_none, Option.any_eq_true, decide_eq_true_eq] at h
  obtain ⟨h0, hring, hpop, hm, hsl, r, hr, hkey⟩ := h
  refine ⟨s, hs, h0, ⟨hring, hpop⟩, hm, hsl, ?_⟩
  intro honce
  rw [honce 1 r hr hkey 0 List.mem_cons_self] at hm
  cases hm

end MultiMadness.Desktop
