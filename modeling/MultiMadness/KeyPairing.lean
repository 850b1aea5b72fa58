import MultiMadness.Pipeline
import MultiMadness.Plans
import MultiMadness.Buttons
/-!
# Pairing of mirrored keys

The hook, the ring and `handle` up to its plan, with routes, live targets and
master fixed. The state also keeps the plans made and, key by key, when
`Capture::keys_` changed.

- `keys_paired`: what a slave is sent of a bound key are the changes of that key
  in `Capture::keys_`, in order and once each, up to what the ring still holds.
- `pipeline_planned`: a run of the pipeline under one configuration makes these
  plans.
-/

namespace MultiMadness

open RunLib KeyState
open Feed (Queued Hooked)
open Buttons (Planned isDeliverTo)

structure KeyPairing extends Feed where
  masterKeys : KeyState := KeyState.init
  plans : List Planned := []
  flips : UInt16 → List EventKind := fun _ => []

namespace KeyPairing

inductive Label where
  | key (ts : UInt64) (msg : KeyMsg) (k : KbdLlHook)
  | mouse (ts : UInt64) (msg : MouseMsg) (m : MsLlHook)
  | pop
  | handle
deriving Inhabited

/-- How the key `vk` changed from one keyboard to another. -/
def flip (before after : KeyState) (vk : UInt16) : List EventKind :=
  if before.isDown vk = after.isDown vk then [] else [if after.isDown vk then .keyDown else .keyUp]

def hooked (s : KeyPairing) (f : Feed) : KeyPairing :=
  { s with toFeed := f, flips := fun vk => s.flips vk ++ flip s.cap.keys f.cap.keys vk }

/-- `handle` up to its plan: the event is applied first. -/
def planned (routes : Routes) (alive : TargetMask) (master : Nat) (ks : KeyState) (ev : InputEvent) : Planned :=
  ⟨ev, (ks.applyEvent ev).1, (plan ev routes alive master (ks.applyEvent ev).1).actions⟩

def onHandle (routes : Routes) (alive : TargetMask) (master : Nat) (s : KeyPairing) (ev : InputEvent) : KeyPairing :=
  { s with
    toFeed := s.done
    masterKeys := (s.masterKeys.applyEvent ev).1
    plans := s.plans ++ [planned routes alive master s.masterKeys ev] }

def start (cap : Capture) : KeyPairing := { Feed.start cap with }

def step (routes : Routes) (alive : TargetMask) (master : Nat) (s : KeyPairing) : Label → Option KeyPairing
  | .key ts msg k => some (s.hooked (s.key ts msg k))
  | .mouse ts msg m => some (s.hooked (s.mouse ts msg m))
  | .pop => s.pop.map fun f => { s with toFeed := f }
  | .handle => s.popped.map (onHandle routes alive master s)

/-- The events of the key `vk`. -/
def ofKey (vk : UInt16) (evs : List InputEvent) : List EventKind :=
  (evs.filter fun ev => isKey ev.kind && ev.vk = vk).map (·.kind)

/-- What instance `t` was sent of the key `vk`, in order. -/
def delivered (s : KeyPairing) (t : Nat) (vk : UInt16) : List EventKind :=
  (s.plans.filter fun p => isKey p.ev.kind && p.ev.vk = vk).flatMap fun p =>
    List.replicate (p.actions.countP (isDeliverTo t)) p.ev.kind

/-- The events of the key `vk` that are published and not handled yet. -/
def waiting (s : KeyPairing) (vk : UInt16) : List EventKind := ofKey vk (s.popped.toList ++ s.ring.items)

def swaps (s : KeyPairing) : Nat := (s.plans.flatMap (·.actions)).countP (·.kind = .swapMaster)

/-- A press, a release, and so on. -/
def Alternating (l : List EventKind) : Prop :=
  ∀ (n : Nat) (k : EventKind), l[n]? = some k → k = if n % 2 = 0 then .keyDown else .keyUp

/-! ## Lists of events -/

theorem ofKey_append (vk : UInt16) (l m : List InputEvent) : ofKey vk (l ++ m) = ofKey vk l ++ ofKey vk m := by
  simp [ofKey]

theorem ofKey_singleton (vk : UInt16) (ev : InputEvent) :
    ofKey vk [ev] = if isKey ev.kind = true ∧ ev.vk = vk then [ev.kind] else [] := by
  by_cases h : isKey ev.kind = true ∧ ev.vk = vk <;> simp [ofKey, h]

theorem Alternating.nil : Alternating [] := fun n k h => by simp at h

theorem Alternating.left {l m : List EventKind} (h : Alternating (l ++ m)) : Alternating l := fun n k hk => by
  have hn := (List.getElem?_eq_some_iff.1 hk).1
  exact h n k (by rw [List.getElem?_append_left hn, hk])

theorem Alternating.snoc {l : List EventKind} {k : EventKind} (h : Alternating l)
    (hk : k = if l.length % 2 = 0 then .keyDown else .keyUp) : Alternating (l ++ [k]) := by
  intro n k' hn
  by_cases hl : n < l.length
  · rw [List.getElem?_append_left hl] at hn
    exact h n k' hn
  · have hle : n ≤ l.length := by
      have := (List.getElem?_eq_some_iff.1 hn).1
      simp only [List.length_append, List.length_singleton] at this
      omega
    obtain rfl : n = l.length := by omega
    rw [List.getElem?_concat_length] at hn
    cases hn
    exact hk

/-- After an odd number of them the key is down. -/
theorem Alternating.getLast? {l : List EventKind} (h : Alternating l) :
    l.getLast? = some .keyDown ↔ l.length % 2 = 1 := by
  rw [List.getLast?_eq_getElem?]
  cases hl : l[l.length - 1]? with
  | none =>
    have := List.getElem?_eq_none_iff.1 hl
    simp only [reduceCtorEq, false_iff]
    omega
  | some k =>
    have hn := (List.getElem?_eq_some_iff.1 hl).1
    rw [h _ k hl]
    by_cases h0 : (l.length - 1) % 2 = 0
    · simp only [h0, if_true, true_iff]
      omega
    · simp only [h0, if_false, Option.some.injEq, reduceCtorEq, false_iff]
      omega

/-! ## One event -/

/-- A published event changes its own key and no other. -/
theorem flip_published {ks : KeyState} {ev : InputEvent} (hev : isKey ev.kind = true → (ks.applyEvent ev).2 = true)
    (vk : UInt16) : flip ks (ks.applyEvent ev).1 vk = ofKey vk [ev] := by
  rw [ofKey_singleton]
  by_cases hk : isKey ev.kind = true
  · have hd : (ks.applyEvent ev).1.isDown vk = _ := isDown_apply (hev hk) vk
    by_cases hv : vk = ev.vk
    · subst hv
      have hb := isDown_before (hev hk)
      have hne : ¬ ks.isDown ev.vk = (ks.applyEvent ev).1.isDown ev.vk := by
        rw [hd, hb, if_pos rfl]
        exact Bool.not_ne_self _
      have hcond : isKey ev.kind = true ∧ ev.vk = ev.vk := ⟨hk, rfl⟩
      rw [flip, if_neg hne, if_pos hcond, hd]
      cases hkind : ev.kind <;> rw [hkind] at hk <;> simp [isKey] at hk ⊢
    · have hcond : ¬ (isKey ev.kind = true ∧ ev.vk = vk) := fun h => hv h.2.symm
      rw [if_neg hv] at hd
      rw [flip, if_pos hd.symm, if_neg hcond]
  · have hcond : ¬ (isKey ev.kind = true ∧ ev.vk = vk) := fun h => hk h.1
    have he : (ks.applyEvent ev).1 = ks := by rw [applyEvent, apply_of_not_key ks (Bool.eq_false_iff.2 hk)]
    rw [flip, he, if_pos rfl, if_neg hcond]

/-- A key event is delivered once to every live slave of its binding. -/
theorem countP_key {ev : InputEvent} {routes : Routes} (hs : ¬ isSwapHotkey ev routes) (hk : isKey ev.kind = true)
    {b : KeyBinding} (hb : routes.find ev.vk = some b) {alive : TargetMask} {master t : Nat}
    (ht : t ∈ mirrorTargets b.targets alive master) (ks : KeyState) :
    (plan ev routes alive master ks).actions.countP (isDeliverTo t) = 1 := by
  have hr : rule ev routes ks = some (b.targets, b.strategy) := by simp [rule, hk, hs, hb]
  rw [plan_actions, if_neg hs, hr]
  simp only [Option.map_some, Option.getD_some, ruleActions, List.countP_append, Buttons.countP_deliveries]
  rw [(nodup_mirrorTargets b.targets alive master).count, if_pos ht]
  split
  · rw [Buttons.countP_repairs]
  · rfl

/-- A plan swaps once for a press of the hotkey, and otherwise not. -/
theorem countP_swap (ev : InputEvent) (routes : Routes) (alive : TargetMask) (master : Nat) (ks : KeyState) :
    (plan ev routes alive master ks).actions.countP (·.kind = .swapMaster) =
      if isSwapHotkey ev routes ∧ ev.kind = .keyDown then 1 else 0 := by
  by_cases h : isSwapHotkey ev routes ∧ ev.kind = .keyDown
  · rw [swap_alone h.1 h.2, if_pos h]
    rfl
  · rw [if_neg h, List.countP_eq_zero]
    intro a ha hk
    exact no_swap h a ha (of_decide_eq_true hk)

/-! ## The invariant -/

structure Inv (routes : Routes) (alive : TargetMask) (master : Nat) (s : KeyPairing) : Prop where
  queued : Queued s.toFeed
  flips : ∀ vk, s.flips vk = ofKey vk (s.history.map (·.ev))
  alternating : ∀ vk, Alternating (s.flips vk)
  held : ∀ vk, s.cap.keys.isDown vk = decide ((s.flips vk).length % 2 = 1)
  handled : s.plans.map (·.ev) = (s.accepted.take s.handled).map (·.ev)
  planned : ∀ p ∈ s.plans, p.actions = (plan p.ev routes alive master p.keys).actions

theorem isDown_init (vk : UInt16) : KeyState.init.isDown vk = false := by
  unfold isDown
  split <;> rfl

theorem inv_start (routes : Routes) (alive : TargetMask) (master : Nat) (cap : Capture) :
    Inv routes alive master (start cap) where
  queued := Feed.queued_start cap
  flips _ := rfl
  alternating _ := .nil
  held vk := isDown_init vk
  handled := rfl
  planned := by simp [start]

section Steps
variable {routes : Routes} {alive : TargetMask} {master : Nat} {s t : KeyPairing}

/-- A change of a key is a press if it was up and a release if it was down. -/
theorem inv_flip (hi : Inv routes alive master s) (after : KeyState) (vk : UInt16) :
    Alternating (s.flips vk ++ flip s.cap.keys after vk) ∧
      after.isDown vk = decide ((s.flips vk ++ flip s.cap.keys after vk).length % 2 = 1) := by
  have hh := hi.held vk
  unfold flip
  by_cases h : s.cap.keys.isDown vk = after.isDown vk
  · rw [if_pos h, List.append_nil, ← h]
    exact ⟨hi.alternating vk, hh⟩
  · rw [if_neg h]
    rw [hh] at h
    by_cases hp : (s.flips vk).length % 2 = 1
    · have ha : after.isDown vk = false := by simpa [hp] using h
      refine ⟨(hi.alternating vk).snoc (by simp [ha, hp]), ?_⟩
      rw [ha, List.length_append, List.length_singleton, eq_comm, decide_eq_false_iff_not]
      omega
    · have ha : after.isDown vk = true := by simpa [hp] using h
      refine ⟨(hi.alternating vk).snoc (by simp [ha]; omega), ?_⟩
      rw [ha, List.length_append, List.length_singleton, eq_comm, decide_eq_true_eq]
      omega

theorem inv_hooked (hi : Inv routes alive master s) {ev : Option InputEvent} {f : Feed} (h : Hooked s.toFeed ev f) :
    Inv routes alive master (s.hooked f) := by
  have hq := Feed.queued_hooked hi.queued h
  have hflips : ∀ vk, (s.hooked f).flips vk = ofKey vk (f.history.map (·.ev)) := by
    intro vk
    change s.flips vk ++ flip s.cap.keys f.cap.keys vk = _
    cases h with
    | quiet n => rw [flip, if_pos rfl, List.append_nil, hi.flips vk]
    | published ev hev =>
      rw [Feed.published_keys, Feed.published_history, List.map_append, ofKey_append, hi.flips vk, flip_published hev]
      rfl
  have hacc : f.handled = s.handled ∧ f.accepted.take s.handled = s.accepted.take s.handled := by
    have hle := hi.queued.handled_le
    cases h with
    | quiet n => exact ⟨rfl, rfl⟩
    | published ev hev =>
      refine ⟨rfl, ?_⟩
      rw [Feed.published_accepted]
      split
      · rw [List.take_append_of_le_length hle]
      · rfl
  refine ⟨hq, hflips, fun vk => (inv_flip hi f.cap.keys vk).1, fun vk => (inv_flip hi f.cap.keys vk).2, ?_, hi.planned⟩
  change s.plans.map (·.ev) = (f.accepted.take f.handled).map (·.ev)
  rw [hacc.1, hacc.2, hi.handled]

theorem inv_handled (hi : Inv routes alive master s) {ev : InputEvent} (hp : s.popped = some ev) :
    Inv routes alive master (onHandle routes alive master s ev) := by
  obtain ⟨r, rs, hd, hr, -⟩ := hi.queued.drop_handled hp
  have htake : s.accepted.take (s.handled + 1) = s.accepted.take s.handled ++ [r] := by
    rw [List.take_add_one, ← List.head?_drop, hd]
    rfl
  refine ⟨Feed.queued_done hi.queued hp, hi.flips, hi.alternating, hi.held, ?_, ?_⟩
  · change (s.plans ++ [KeyPairing.planned routes alive master s.masterKeys ev]).map (·.ev) =
      (s.accepted.take (s.handled + 1)).map (·.ev)
    rw [htake, List.map_append, List.map_append, hi.handled, List.map_singleton, List.map_singleton, hr]
    rfl
  · intro p hp'
    rcases List.mem_append.1 hp' with hp' | hp'
    · exact hi.planned p hp'
    · obtain rfl := List.mem_singleton.1 hp'
      rfl

theorem inv_step {l : Label} (hi : Inv routes alive master s) (h : step routes alive master s l = some t) :
    Inv routes alive master t := by
  cases l with
  | key ts msg k => cases h; exact inv_hooked hi (s.hooked_key ts msg k)
  | mouse ts msg m => cases h; exact inv_hooked hi (s.hooked_mouse ts msg m)
  | pop =>
    obtain ⟨f, hf, rfl⟩ := Option.map_eq_some_iff.1 h
    have hq := Feed.queued_pop hi.queued hf
    obtain ⟨ev, ring, -, -, rfl⟩ := Feed.pop_eq_some hf
    exact ⟨hq, hi.flips, hi.alternating, hi.held, hi.handled, hi.planned⟩
  | handle =>
    obtain ⟨ev, hp, rfl⟩ := Option.map_eq_some_iff.1 h
    exact inv_handled hi hp

/-! ## What the plans deliver -/

/-- The plans and what is waiting are all that was published, if the ring took it. -/
theorem plans_waiting (hi : Inv routes alive master s) (h0 : s.cap.dropped = 0) (vk : UInt16) :
    ofKey vk (s.plans.map (·.ev)) ++ s.waiting vk = s.flips vk := by
  rw [hi.handled, waiting, ← hi.queued.pending, ← ofKey_append, ← List.map_append, List.take_append_drop,
    hi.queued.accepted_eq h0, hi.flips vk]

theorem delivered_eq (hi : Inv routes alive master s) {vk : UInt16} {b : KeyBinding} (hb : routes.find vk = some b)
    (hs : ¬ (routes.swapHotkeyVk ≠ 0 ∧ vk = routes.swapHotkeyVk)) {t : Nat}
    (ht : t ∈ mirrorTargets b.targets alive master) : s.delivered t vk = ofKey vk (s.plans.map (·.ev)) := by
  have hone : ∀ p ∈ s.plans, (isKey p.ev.kind && p.ev.vk = vk) = true → p.actions.countP (isDeliverTo t) = 1 := by
    intro p hp hk
    simp only [Bool.and_eq_true, decide_eq_true_eq] at hk
    obtain ⟨hk, rfl⟩ := hk
    rw [hi.planned p hp]
    exact countP_key (fun h => hs h.2) hk hb ht p.keys
  unfold delivered ofKey
  generalize s.plans = ps at hone ⊢
  induction ps with
  | nil => rfl
  | cons p ps ih =>
    have ih' := ih fun q hq => hone q (List.mem_cons_of_mem _ hq)
    rw [List.map_cons, List.filter_cons, List.filter_cons]
    by_cases hk : (isKey p.ev.kind && p.ev.vk = vk) = true
    · rw [if_pos hk, if_pos hk, List.flatMap_cons, ih', hone p List.mem_cons_self hk]
      rfl
    · rw [if_neg hk, if_neg hk, ih']

theorem swaps_eq (hi : Inv routes alive master s) (h0 : routes.swapHotkeyVk ≠ 0) :
    s.swaps = (ofKey routes.swapHotkeyVk (s.plans.map (·.ev))).count .keyDown := by
  have hp := hi.planned
  unfold swaps
  generalize s.plans = ps at hp ⊢
  induction ps with
  | nil => rfl
  | cons p ps ih =>
    rw [List.flatMap_cons, List.countP_append, ih fun q hq => hp q (List.mem_cons_of_mem _ hq),
      hp p List.mem_cons_self, countP_swap, List.map_cons, ← List.singleton_append, ofKey_append, List.count_append,
      ofKey_singleton]
    congr 1
    by_cases hk : isKey p.ev.kind = true ∧ p.ev.vk = routes.swapHotkeyVk
    · have hs : isSwapHotkey p.ev routes := ⟨hk.1, h0, hk.2⟩
      simp [hs, hk, List.count_singleton]
    · have hs : ¬ isSwapHotkey p.ev routes := fun h => hk ⟨h.1, h.2.2⟩
      simp [hs, hk]

/-- A callback that changes no key publishes nothing. -/
theorem repeat_quiet (s : KeyPairing) (ts : UInt64) (msg : KeyMsg) (k : KbdLlHook)
    (h : flip s.cap.keys (s.key ts msg k).cap.keys (code (Capture.keyIndex k)) = []) :
    (s.key ts msg k).ring = s.ring ∧ (s.key ts msg k).history = s.history := by
  have hh := s.hooked_key ts msg k
  generalize s.key ts msg k = f at h hh ⊢
  cases hp : s.cap.keyPublished ts msg k with
  | none => rw [hp] at hh; cases hh; exact ⟨rfl, rfl⟩
  | some ev =>
    rw [hp] at hh
    -- A published event changed the key of its callback.
    obtain ⟨-, rfl, hc⟩ := Capture.keyPublished_iff.1 hp
    rw [hh.eq_published, Feed.published_keys, flip_published (fun _ => hc), ofKey_singleton,
      if_pos ⟨Capture.keyEvent_isKey ts msg k, rfl⟩] at h
    cases h

end Steps

/-! ## The theorem -/

/-- What holds between any two steps. -/
structure Paired (routes : Routes) (alive : TargetMask) (master : Nat) (s : KeyPairing) : Prop where
  /-- A slave was sent the changes of a bound key up to those still waiting. -/
  pairs : ∀ vk b t, routes.find vk = some b → ¬ (routes.swapHotkeyVk ≠ 0 ∧ vk = routes.swapHotkeyVk) →
    t ∈ mirrorTargets b.targets alive master →
    s.delivered t vk ++ s.waiting vk = s.flips vk ∧ Alternating (s.delivered t vk) ∧
      (s.Drained → s.delivered t vk = s.flips vk ∧
        ((s.delivered t vk).getLast? = some .keyDown ↔ s.cap.keys.isDown vk = true))
  /-- A repeat does not even reach the ring. -/
  repeats : ∀ ts msg k, flip s.cap.keys (s.key ts msg k).cap.keys (code (Capture.keyIndex k)) = [] →
    (s.key ts msg k).ring = s.ring ∧ (s.key ts msg k).history = s.history
  /-- One swap for each time the hotkey went down. -/
  swaps : routes.swapHotkeyVk ≠ 0 →
    s.swaps + (s.waiting routes.swapHotkeyVk).count .keyDown = (s.flips routes.swapHotkeyVk).count .keyDown

/-- In every run of hook callbacks and of the broadcaster under one
configuration in which no push was rejected, mirrored keys are paired. -/
theorem keys_paired (routes : Routes) (alive : TargetMask) (master : Nat) (cap : Capture) (ls : List Label)
    (s : KeyPairing) (h : run (step routes alive master) (start cap) ls = some s) (h0 : s.cap.dropped = 0) :
    Paired routes alive master s := by
  have hi := run_inv (Inv routes alive master) (fun _ _ _ hi hs => inv_step hi hs)
    (inv_start routes alive master cap) h
  refine ⟨?_, repeat_quiet s, ?_⟩
  · intro vk b t hb hs ht
    have hall := plans_waiting hi h0 vk
    rw [← delivered_eq hi hb hs ht] at hall
    have halt := hi.alternating vk
    refine ⟨hall, (hall ▸ halt).left, ?_⟩
    rintro ⟨hring, hpop⟩
    have hw : s.waiting vk = [] := by rw [waiting, hring, hpop]; rfl
    rw [hw, List.append_nil] at hall
    refine ⟨hall, ?_⟩
    rw [hall, halt.getLast?, hi.held vk, decide_eq_true_eq]
  · intro hne
    rw [swaps_eq hi hne, ← List.count_append, plans_waiting hi h0]

/-- `A` and the hotkey F12 go down and repeat, `A` comes up; all is handled. -/
def holdAndSwap : List Label :=
  [.key 1 .wmKeyDown { vkCode := 0x41 }, .key 2 .wmKeyDown { vkCode := 0x41 }, .key 3 .wmKeyDown { vkCode := 0x7B },
    .key 4 .wmKeyDown { vkCode := 0x7B }, .key 5 .wmKeyUp { vkCode := 0x41 }, .pop, .handle, .pop, .handle, .pop,
    .handle]

def mirrorA : Routes := { Routes.addKey {} { vk := 0x41 } with swapHotkeyVk := 0x7B }

theorem keys_paired_held : ∃ s, run (step mirrorA 0b11 0) (start {}) holdAndSwap = some s ∧
    s.delivered 1 0x41 = [.keyDown, .keyUp] ∧ s.swaps = 1 ∧ Paired mirrorA 0b11 0 s := by
  have h : ((run (step mirrorA 0b11 0) (start {}) holdAndSwap).map fun s =>
      (s.cap.dropped, s.delivered 1 0x41, s.swaps)) = some (0, [.keyDown, .keyUp], 1) := by decide +kernel
  obtain ⟨s, hs, h'⟩ := Option.map_eq_some_iff.1 h
  simp only [Prod.mk.injEq] at h'
  exact ⟨s, hs, h'.2.1, h'.2.2, keys_paired mirrorA 0b11 0 {} holdAndSwap s hs h'.1⟩

/-! ## In the pipeline -/

/-- Events are handled with these routes, live targets and master. -/
def Fixed (routes : Routes) (alive : TargetMask) (master : Nat) (s : Pipeline) : Pipeline.Label → Prop
  | .handle env => s.bc.routes = routes ∧ Broadcaster.aliveMask env s.bc.targets = alive ∧ s.bc.master = master
  | _ => True

/-- The plan `handle` makes. -/
def planMade (s : Pipeline) : Pipeline.Label → List Planned
  | .handle env => s.popped.toList.map fun ev =>
      ⟨ev, (s.bc.applied ev).masterKeys, ((s.bc.applied ev).planOf env ev).actions⟩
  | _ => []

/-- Configuring the broadcaster is no step here. -/
def labelOf (_ : Pipeline) : Pipeline.Label → List Label
  | .key ts msg k => [.key ts msg k]
  | .mouse ts msg m => [.mouse ts msg m]
  | .pop => [.pop]
  | .handle _ => [.handle]
  | .refreshConfig | .setTargets _ _ => []

/-- This system at the same point. -/
def At (s : Pipeline) (t : KeyPairing) : Prop := t.toFeed = s.toFeed ∧ t.masterKeys = s.bc.masterKeys

theorem planned_step {routes : Routes} {alive : TargetMask} {master : Nat} (s : Pipeline) (t : KeyPairing)
    (l : Pipeline.Label) (s' : Pipeline) (ha : At s t) (hc : Fixed routes alive master s l)
    (hs : Pipeline.step s l = some s') :
    ∃ t', run (step routes alive master) t (labelOf s l) = some t' ∧ At s' t' ∧ t'.plans = t.plans ++ planMade s l := by
  obtain ⟨f, mk, ps, fl⟩ := t
  obtain ⟨rfl, rfl⟩ : f = s.toFeed ∧ mk = s.bc.masterKeys := ha
  cases l with
  | key ts msg k => cases hs; exact ⟨_, rfl, ⟨rfl, rfl⟩, (List.append_nil _).symm⟩
  | mouse ts msg m => cases hs; exact ⟨_, rfl, ⟨rfl, rfl⟩, (List.append_nil _).symm⟩
  | pop =>
    obtain ⟨f, hf, rfl⟩ := Option.map_eq_some_iff.1 hs
    refine ⟨{ toFeed := f, masterKeys := s.bc.masterKeys, plans := ps, flips := fl }, ?_, ⟨rfl, rfl⟩,
      (List.append_nil _).symm⟩
    simp only [labelOf, run_cons_some, step, hf]
    exact ⟨_, rfl, rfl⟩
  | handle env =>
    obtain ⟨ev, hp, rfl⟩ := Pipeline.step_handle.1 hs
    obtain ⟨hr, ha, hm⟩ := hc
    refine ⟨onHandle routes alive master ⟨s.toFeed, s.bc.masterKeys, ps, fl⟩ ev, ?_, ⟨rfl, ?_⟩, ?_⟩
    · simp only [labelOf, run_cons_some, step, hp]
      exact ⟨_, rfl, rfl⟩
    · exact (s.bc.handle_masterKeys env s.os ev).symm
    · simp only [planMade, hp, Option.toList_some, List.map_singleton]
      rw [← hr, ← ha, ← hm]
      rfl
  | refreshConfig =>
    obtain ⟨-, rfl⟩ := Pipeline.step_refreshConfig.1 hs
    exact ⟨_, rfl, ⟨rfl, (s.bc.refreshConfig_masterKeys).symm⟩, (List.append_nil _).symm⟩
  | setTargets targets master => cases hs; exact ⟨_, rfl, ⟨rfl, rfl⟩, (List.append_nil _).symm⟩

/-- A run of the pipeline under one configuration is a run of this system, with
the plans that `handle` made. -/
theorem pipeline_planned {routes : Routes} {alive : TargetMask} {master : Nat} {cap : Capture} {bc : Broadcaster}
    {ls : List Pipeline.Label} {s : Pipeline} (h : run Pipeline.step (Pipeline.start cap bc) ls = some s)
    (hf : AllSteps Pipeline.step (Fixed routes alive master) (Pipeline.start cap bc) ls) :
    ∃ t, run (step routes alive master) (start cap) (trace Pipeline.step labelOf (Pipeline.start cap bc) ls) = some t ∧
      t.toFeed = s.toFeed ∧ t.plans = trace Pipeline.step planMade (Pipeline.start cap bc) ls := by
  have h0 : At (Pipeline.start cap bc) (start cap) := ⟨rfl, rfl⟩
  obtain ⟨t, ht, hat, hp⟩ := run_refines labelOf planMade KeyPairing.plans planned_step h0 hf h
  exact ⟨t, ht, hat.1, hp⟩

end KeyPairing

end MultiMadness
