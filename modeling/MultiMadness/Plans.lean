import MultiMadness.Handling
/-!
# What a plan contains

- `plan_exact`: the deliveries of an event are the bits of its mask in ascending
  order, the repairs follow them, and the swap stands alone.
- `undisturbed`: no action of a plan of `handle` meets another configuration
  than the one the plan was made with.
-/

namespace MultiMadness

open KeyState

/-! ## The targets of an event -/

/-- Whom an event is for, the master and the dead included. -/
def eventTargets (ev : InputEvent) (routes : Routes) (ks : KeyState) : TargetMask :=
  if isKey ev.kind then
    if isSwapHotkey ev routes then 0 else ((routes.find ev.vk).map (·.targets)).getD 0
  else if isMouseButton ev.kind ∨ ev.kind = .wheel then
    if routes.mouseModifierVk = 0 ∨ ks.isDown routes.mouseModifierVk then routes.mouseTargets else 0
  else 0

def eventStrategy (ev : InputEvent) (routes : Routes) : Strategy :=
  if isKey ev.kind then ((routes.find ev.vk).map (·.strategy)).getD .focusCycle else routes.mouseStrategy

theorem mirrorTargets_zero (alive : TargetMask) (master : Nat) : mirrorTargets 0 alive master = [] := by
  rw [List.eq_nil_iff_forall_not_mem]
  intro i hi
  simpa using (mem_mirrorTargets.1 hi).2.1

theorem ascending_mirrorTargets (targets alive : TargetMask) (master : Nat) :
    (mirrorTargets targets alive master).Pairwise (· < ·) := List.pairwise_lt_range.filter _

/-- The rule of an event has its targets and its strategy. -/
theorem rule_event {ev : InputEvent} {routes : Routes} {ks : KeyState} {r : TargetMask × Strategy}
    (h : rule ev routes ks = some r) : r = (eventTargets ev routes ks, eventStrategy ev routes) := by
  unfold rule at h
  unfold eventTargets eventStrategy
  split at h
  · next hk =>
    split at h
    · cases h
    · next hs =>
      obtain ⟨b, hb, rfl⟩ := Option.map_eq_some_iff.1 h
      rw [if_pos hk, if_neg hs, if_pos hk, hb]
      rfl
  · next hk =>
    split at h
    · next hm =>
      split at h
      · next hg =>
        simp only [mouseGate, Bool.and_eq_true, Bool.or_eq_true, decide_eq_true_eq] at hg
        rw [if_neg hk, if_pos hm, if_pos hg.2, if_neg hk]
        cases h
        rfl
      · cases h
    · cases h

/-- An event without a rule is for nobody. -/
theorem eventTargets_of_none {ev : InputEvent} {routes : Routes} {ks : KeyState} (h : rule ev routes ks = none) :
    eventTargets ev routes ks = 0 := by
  unfold rule at h
  unfold eventTargets
  split at h
  · next hk =>
    rw [if_pos hk]
    split at h
    · next hs => rw [if_pos hs]
    · next hs => rw [if_neg hs, Option.map_eq_none_iff.1 h]; rfl
  · next hk =>
    rw [if_neg hk]
    split at h
    · next hm =>
      split at h
      · cases h
      · next hg =>
        rw [if_pos hm]
        simp only [mouseGate, Bool.and_eq_true, Bool.or_eq_true, decide_eq_true_eq, not_and] at hg
        split
        · next hd => exact not_not.1 fun h0 => hg h0 hd
        · rfl
    · next hm => rw [if_neg hm]

/-! ## The actions -/

/-- The plan of an event the swap hotkey does not decide about, by its targets. -/
theorem plan_event {ev : InputEvent} {routes : Routes} (h : ¬ isSwapHotkey ev routes) (alive : TargetMask)
    (master : Nat) (ks : KeyState) :
    (plan ev routes alive master ks).actions =
      ruleActions ev alive master ks (eventTargets ev routes ks, eventStrategy ev routes) := by
  rw [plan_actions, if_neg h]
  cases hr : rule ev routes ks with
  | some r => rw [rule_event hr]; rfl
  | none =>
    simp only [eventTargets_of_none hr, ruleActions, mirrorTargets_zero]
    rfl

/-- An action of a rule is a delivery to one of its targets, or a repair. -/
theorem mem_ruleActions {ev : InputEvent} {alive : TargetMask} {master : Nat} {ks : KeyState}
    {r : TargetMask × Strategy} {a : Action} (h : a ∈ ruleActions ev alive master ks r) :
    (∃ i ∈ mirrorTargets r.1 alive master, a = deliverTo r.2 i) ∨ a ∈ repairs ev ks := by
  unfold ruleActions at h
  rcases List.mem_append.1 h with h | h
  · obtain ⟨i, hi, rfl⟩ := List.mem_map.1 h
    exact .inl ⟨i, hi, rfl⟩
  · split at h
    · exact .inr h
    · cases h

/-- Only the swap hotkey swaps. -/
theorem ruleActions_no_swap {ev : InputEvent} {alive : TargetMask} {master : Nat} {ks : KeyState}
    {r : TargetMask × Strategy} {a : Action} (h : a ∈ ruleActions ev alive master ks r) : a.kind ≠ .swapMaster := by
  rcases mem_ruleActions h with ⟨i, -, rfl⟩ | h
  · simp [deliverTo]
  · rcases repairs_kind h with h | h | h <;> simp [h]

theorem swap_iff {ev : InputEvent} {routes : Routes} {alive : TargetMask} {master : Nat} {ks : KeyState} :
    (∃ a ∈ (plan ev routes alive master ks).actions, a.kind = .swapMaster) ↔
      isSwapHotkey ev routes ∧ ev.kind = .keyDown := by
  by_cases hs : isSwapHotkey ev routes
  · rw [plan_actions, if_pos hs]
    split
    · next hd => simp [hs, hd]
    · next hd => simp [hd]
  · rw [plan_event hs]
    constructor
    · rintro ⟨a, ha, hk⟩
      exact absurd hk (ruleActions_no_swap ha)
    · exact fun h => absurd h.1 hs

theorem no_swap {ev : InputEvent} {routes : Routes} (h : ¬ (isSwapHotkey ev routes ∧ ev.kind = .keyDown))
    {alive : TargetMask} {master : Nat} {ks : KeyState} :
    ∀ a ∈ (plan ev routes alive master ks).actions, a.kind ≠ .swapMaster := by
  intro a ha hk
  exact h (swap_iff.1 ⟨a, ha, hk⟩)

theorem swap_alone {ev : InputEvent} {routes : Routes} (hs : isSwapHotkey ev routes) (hd : ev.kind = .keyDown)
    (alive : TargetMask) (master : Nat) (ks : KeyState) :
    (plan ev routes alive master ks).actions = [{ kind := .swapMaster }] := by
  rw [plan_actions, if_pos hs, if_pos hd]

theorem reassert_iff {ev : InputEvent} {ks : KeyState} :
    { kind := .reassertHeld } ∈ repairs ev ks ↔ ∃ vk, ks.isDown vk = true := by
  have hheld : 0 < ks.heldCount ↔ ∃ vk, ks.isDown vk = true := by
    rw [heldCount_pos]
    constructor
    · rintro ⟨i, hi⟩
      exact ⟨code i, by rw [isDown_code, hi]⟩
    · rintro ⟨vk, hd⟩
      obtain ⟨i, -, hi⟩ := isDown_iff.1 hd
      exact ⟨i, hi⟩
  rw [← hheld]
  unfold repairs
  by_cases hh : ks.heldCount > 0 <;> by_cases hk : isKey ev.kind = true <;> simp [hh, hk]

/-! ## A plan in the broadcaster -/

/-- Whenever an action of the plan is executed the configuration is the one the
plan was made with, and a delivery's target is one of its targets. -/
def Undisturbed (b : Broadcaster) (env : Env) (os : Os) (ev : InputEvent) : Prop :=
  ∀ pre a post, (b.planOf env ev).actions = pre ++ a :: post →
    (pre.foldl (Broadcaster.act env ev) (b, os)).1.config = b.config ∧
    (a.kind = .deliver → a.target < (pre.foldl (Broadcaster.act env ev) (b, os)).1.targets.length)

theorem undisturbed (b : Broadcaster) (env : Env) (os : Os) (ev : InputEvent) : Undisturbed b env os ev := by
  intro pre a post h
  unfold Broadcaster.planOf at h
  by_cases hs : isSwapHotkey ev b.routes
  · -- The plan is the swap alone or empty.
    rw [plan_actions, if_pos hs] at h
    split at h
    · cases pre with
      | nil => cases h; exact ⟨rfl, fun hd => by cases hd⟩
      | cons c pre => simp at h
    · simp at h
  · rw [plan_event hs] at h
    have hpre : ∀ c ∈ pre, c.kind ≠ .swapMaster := fun c hc =>
      ruleActions_no_swap (h ▸ List.mem_append_left _ hc)
    have hcfg := Broadcaster.foldl_act_config env ev pre (b, os) hpre
    refine ⟨hcfg, ?_⟩
    intro hd
    simp only [Broadcaster.config, Prod.mk.injEq] at hcfg
    rw [hcfg.2.1]
    rcases mem_ruleActions (h ▸ List.mem_append_right _ List.mem_cons_self) with ⟨i, hi, rfl⟩ | hr
    · exact Broadcaster.mirrorTargets_alive hi
    · rcases repairs_kind hr with hr | hr | hr <;> rw [hr] at hd <;> cases hd

/-- What `plan` answers: the deliveries of the event's live slaves, ascending,
then the repairs; the swap alone for its hotkey; and nothing for a move. -/
structure PlanExact (ev : InputEvent) (routes : Routes) (alive : TargetMask) (master : Nat) (ks : KeyState) : Prop where
  actions : ∃ slaves : List Nat, slaves.Pairwise (· < ·) ∧
    (∀ i, i ∈ slaves ↔ i < 32 ∧ (eventTargets ev routes ks &&& alive &&& ~~~ targetBit master).getLsbD i = true) ∧
    (plan ev routes alive master ks).actions =
      if isSwapHotkey ev routes then if ev.kind = .keyDown then [{ kind := .swapMaster }] else []
      else slaves.map (deliverTo (eventStrategy ev routes)) ++
        if slaves = [] ∨ eventStrategy ev routes = .windowMessage then [] else repairs ev ks
  reassert : { kind := .reassertHeld } ∈ repairs ev ks ↔ ∃ vk, ks.isDown vk = true
  swap : (∃ a ∈ (plan ev routes alive master ks).actions, a.kind = .swapMaster) ↔
    ev.kind = .keyDown ∧ routes.swapHotkeyVk ≠ 0 ∧ ev.vk = routes.swapHotkeyVk
  swapAlone : (∃ a ∈ (plan ev routes alive master ks).actions, a.kind = .swapMaster) →
    (plan ev routes alive master ks).actions = [{ kind := .swapMaster }]
  silent : ev.kind = .mouseMove ∨ ev.kind = .none → (plan ev routes alive master ks).actions = []

/-- Every plan is exact, and those of `handle` are executed as they were made. -/
theorem plan_exact : (∀ ev routes alive master ks, PlanExact ev routes alive master ks) ∧
    ∀ (b : Broadcaster) env os ev, Undisturbed (b.applied ev) env os ev := by
  refine ⟨?_, fun b env os ev => undisturbed _ env os ev⟩
  intro ev routes alive master ks
  refine ⟨?_, reassert_iff, ?_, ?_, ?_⟩
  · refine ⟨mirrorTargets (eventTargets ev routes ks) alive master, ascending_mirrorTargets _ _ _, ?_, ?_⟩
    · intro i
      simp only [mirrorTargets, List.mem_filter, List.mem_range]
    · split
      · next hs => rw [plan_actions, if_pos hs]
      · next hs =>
        rw [plan_event hs, ruleActions]
        cases eventStrategy ev routes <;> simp
  · rw [swap_iff]
    constructor
    · rintro ⟨⟨-, h0, hv⟩, hd⟩
      exact ⟨hd, h0, hv⟩
    · rintro ⟨hd, h0, hv⟩
      exact ⟨⟨by rw [hd]; rfl, h0, hv⟩, hd⟩
  · intro h
    obtain ⟨hs, hd⟩ := swap_iff.1 h
    exact swap_alone hs hd alive master ks
  · intro h
    have hk : isKey ev.kind = false := by rcases h with h | h <;> rw [h] <;> rfl
    have hs : ¬ isSwapHotkey ev routes := fun hs => Bool.false_ne_true (hk.symm.trans hs.1)
    have hr : eventTargets ev routes ks = 0 := by
      rcases h with h | h <;> simp only [eventTargets, h] <;> rfl
    rw [plan_event hs, hr]
    simp only [ruleActions, mirrorTargets_zero]
    rfl

end MultiMadness
