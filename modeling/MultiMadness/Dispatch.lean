import MultiMadness.Routing
/-!
# From an event to its plan

`plan` of `dispatch.hpp`. `plan_actions` says once what a plan looks like: the
deliveries to the live targets of the event's rule in ascending order, then the
repairs. Everything later about plans goes through it.
-/

namespace MultiMadness

inductive ActionKind where
  | deliver
  | restoreFocus
  | restoreCursor
  | reassertHeld
  | swapMaster
deriving DecidableEq, Repr

structure Action where
  kind : ActionKind
  /-- Instance index for `deliver`. -/
  target : Nat := 0
  strategy : Strategy := .focusCycle
deriving DecidableEq

structure Plan where
  actions : List Action := []
  swallowed : Bool := false
deriving DecidableEq

/-- `detail::add_deliveries`. -/
def addDeliveries (plan : Plan) (targets alive : TargetMask) (master : Nat) (s : Strategy) : Plan × Bool :=
  let mask := targets &&& alive &&& ~~~ targetBit master
  (List.range 32).foldl
    (fun (acc : Plan × Bool) i =>
      if mask &&& targetBit i ≠ 0 then
        ({ acc.1 with actions := acc.1.actions ++ [{ kind := .deliver, target := i, strategy := s }] }, true)
      else acc)
    (plan, false)

/-- The repairs after the deliveries of a focus cycle. -/
def addReassert (p : Plan) (masterKeys : KeyState) : Plan :=
  if masterKeys.heldCount > 0 then { p with actions := p.actions ++ [{ kind := .reassertHeld }] } else p

/-- `masterKeys` already reflects `ev`. -/
def plan (ev : InputEvent) (routes : Routes) (alive : TargetMask) (master : Nat) (masterKeys : KeyState) : Plan :=
  if isKey ev.kind then
    if routes.swapHotkeyVk ≠ 0 ∧ ev.vk = routes.swapHotkeyVk then
      { swallowed := true, actions := if ev.kind = .keyDown then [{ kind := .swapMaster }] else [] }
    else
      match routes.find ev.vk with
      | none => {}
      | some b =>
        let (p, delivered) := addDeliveries { swallowed := b.swallow } b.targets alive master b.strategy
        if delivered ∧ b.strategy = .focusCycle then
          addReassert { p with actions := p.actions ++ [{ kind := .restoreFocus }] } masterKeys
        else p
  else if isMouseButton ev.kind ∨ ev.kind = .wheel then
    if routes.mouseTargets = 0 then {}
    else if routes.mouseModifierVk ≠ 0 ∧ ¬ masterKeys.isDown routes.mouseModifierVk then {}
    else
      let (p, delivered) := addDeliveries {} routes.mouseTargets alive master routes.mouseStrategy
      if delivered ∧ routes.mouseStrategy = .focusCycle then
        addReassert { p with actions := p.actions ++ [{ kind := .restoreCursor }, { kind := .restoreFocus }] }
          masterKeys
      else p
  -- MouseMove is never broadcast.
  else {}

/-! ## The deliveries -/

/-- The instances a rule with these targets reaches: live, and not the master. -/
def mirrorTargets (targets alive : TargetMask) (master : Nat) : List Nat :=
  (List.range 32).filter fun i => (targets &&& alive &&& ~~~ targetBit master).getLsbD i

def deliverTo (s : Strategy) (i : Nat) : Action := { kind := .deliver, target := i, strategy := s }

theorem mem_mirrorTargets {targets alive : TargetMask} {master i : Nat} :
    i ∈ mirrorTargets targets alive master ↔
      i < 32 ∧ targets.getLsbD i = true ∧ alive.getLsbD i = true ∧ i ≠ master := by
  simp only [mirrorTargets, List.mem_filter, List.mem_range, BitVec.getLsbD_and, BitVec.getLsbD_not,
    getLsbD_targetBit, Bool.and_eq_true, Bool.not_eq_true', Bool.and_eq_false_iff, decide_eq_false_iff_not,
    decide_eq_true_eq]
  constructor
  · rintro ⟨hi, ⟨ht, ha⟩, -, hm⟩
    exact ⟨hi, ht, ha, hm.resolve_left (by omega)⟩
  · rintro ⟨hi, ht, ha, hm⟩
    exact ⟨hi, ⟨ht, ha⟩, hi, .inr hm⟩

theorem nodup_mirrorTargets (targets alive : TargetMask) (master : Nat) :
    (mirrorTargets targets alive master).Nodup := List.nodup_range.filter _

theorem addDeliveries_fold (mask : TargetMask) (s : Strategy) (l : List Nat) (hl : ∀ i ∈ l, i < 32)
    (p : Plan) (any : Bool) :
    l.foldl (fun (acc : Plan × Bool) i =>
        if mask &&& targetBit i ≠ 0 then
          ({ acc.1 with actions := acc.1.actions ++ [{ kind := .deliver, target := i, strategy := s }] }, true)
        else acc) (p, any) =
      ({ p with actions := p.actions ++ (l.filter fun i => mask.getLsbD i).map (deliverTo s) },
        any || !(l.filter fun i => mask.getLsbD i).isEmpty) := by
  induction l generalizing p any with
  | nil => simp
  | cons i l ih =>
    have hi := hl i List.mem_cons_self
    simp only [List.foldl_cons]
    by_cases hm : mask.getLsbD i = true
    · rw [if_pos ((and_targetBit_ne_zero hi).2 hm), ih (fun j hj => hl j (List.mem_cons_of_mem _ hj))]
      simp [hm, deliverTo]
    · rw [if_neg (fun h => hm ((and_targetBit_ne_zero hi).1 h)), ih (fun j hj => hl j (List.mem_cons_of_mem _ hj))]
      simp [hm]

theorem addDeliveries_eq (p : Plan) (targets alive : TargetMask) (master : Nat) (s : Strategy) :
    addDeliveries p targets alive master s =
      ({ p with actions := p.actions ++ (mirrorTargets targets alive master).map (deliverTo s) },
        !(mirrorTargets targets alive master).isEmpty) := by
  have h := addDeliveries_fold (targets &&& alive &&& ~~~ targetBit master) s (List.range 32)
    (fun i hi => List.mem_range.1 hi) p false
  rw [Bool.false_or] at h
  exact h

/-! ## The plan of an event -/

/-- Whether the swap hotkey, and not a binding, decides about the event. -/
def isSwapHotkey (ev : InputEvent) (routes : Routes) : Prop :=
  isKey ev.kind = true ∧ routes.swapHotkeyVk ≠ 0 ∧ ev.vk = routes.swapHotkeyVk

instance (ev : InputEvent) (routes : Routes) : Decidable (isSwapHotkey ev routes) :=
  inferInstanceAs (Decidable (_ ∧ _ ∧ _))

/-- The mouse gate: mouse events are mirrored, and the modifier, if any, is down. -/
def mouseGate (routes : Routes) (masterKeys : KeyState) : Bool :=
  routes.mouseTargets ≠ 0 && (routes.mouseModifierVk = 0 || masterKeys.isDown routes.mouseModifierVk)

/-- The targets and the strategy an event is mirrored with, if any. -/
def rule (ev : InputEvent) (routes : Routes) (masterKeys : KeyState) : Option (TargetMask × Strategy) :=
  if isKey ev.kind then
    if isSwapHotkey ev routes then none else (routes.find ev.vk).map fun b => (b.targets, b.strategy)
  else if isMouseButton ev.kind ∨ ev.kind = .wheel then
    if mouseGate routes masterKeys then some (routes.mouseTargets, routes.mouseStrategy) else none
  else none

/-- What follows the deliveries of a focus cycle. -/
def repairs (ev : InputEvent) (masterKeys : KeyState) : List Action :=
  (if isKey ev.kind then [] else [{ kind := .restoreCursor }]) ++ [{ kind := .restoreFocus }] ++
    (if masterKeys.heldCount > 0 then [{ kind := .reassertHeld }] else [])

theorem repairs_kind {ev : InputEvent} {ks : KeyState} {a : Action} (h : a ∈ repairs ev ks) :
    a.kind = .restoreCursor ∨ a.kind = .restoreFocus ∨ a.kind = .reassertHeld := by
  unfold repairs at h
  split at h <;> split at h <;> simp at h <;> rcases h with rfl | rfl | rfl <;> simp

/-- The actions of a rule: its deliveries, then the repairs if focus moved. -/
def ruleActions (ev : InputEvent) (alive : TargetMask) (master : Nat) (masterKeys : KeyState) :
    TargetMask × Strategy → List Action
  | (targets, s) =>
    (mirrorTargets targets alive master).map (deliverTo s) ++
      if mirrorTargets targets alive master ≠ [] ∧ s = .focusCycle then repairs ev masterKeys else []

theorem addReassert_actions (p : Plan) (ks : KeyState) :
    (addReassert p ks).actions = p.actions ++ if ks.heldCount > 0 then [{ kind := .reassertHeld }] else [] := by
  unfold addReassert; split <;> simp

/-- The plan, as a list of actions. -/
theorem plan_actions (ev : InputEvent) (routes : Routes) (alive : TargetMask) (master : Nat) (ks : KeyState) :
    (plan ev routes alive master ks).actions =
      if isSwapHotkey ev routes then if ev.kind = .keyDown then [{ kind := .swapMaster }] else []
      else ((rule ev routes ks).map (ruleActions ev alive master ks)).getD [] := by
  by_cases hk : isKey ev.kind = true
  · by_cases hs : routes.swapHotkeyVk ≠ 0 ∧ ev.vk = routes.swapHotkeyVk
    · have hs' : isSwapHotkey ev routes := ⟨hk, hs⟩
      simp only [plan, hk, if_true, if_pos hs, if_pos hs']
    · have hs' : ¬ isSwapHotkey ev routes := fun h => hs h.2
      simp only [plan, rule, hk, if_true, if_neg hs, if_neg hs']
      cases routes.find ev.vk with
      | none => rfl
      | some b =>
        simp only [addDeliveries_eq, Option.map_some, Option.getD_some, ruleActions, repairs, hk, if_true,
          List.nil_append, Bool.not_eq_true', List.isEmpty_eq_false_iff]
        split <;> simp [addReassert_actions]
  · have hs' : ¬ isSwapHotkey ev routes := fun h => hk h.1
    simp only [plan, rule, hk, if_neg hs', Bool.false_eq_true, if_false]
    by_cases hm : isMouseButton ev.kind = true ∨ ev.kind = .wheel
    · simp only [if_pos hm, mouseGate]
      by_cases h0 : routes.mouseTargets = 0
      · simp [h0]
      · by_cases hd : routes.mouseModifierVk ≠ 0 ∧ ¬ ks.isDown routes.mouseModifierVk = true
        · simp [hd]
        · have hg : routes.mouseModifierVk = 0 ∨ ks.isDown routes.mouseModifierVk = true := by
            by_contra hg
            simp only [not_or] at hg
            exact hd hg
          simp only [h0, if_neg hd, if_false, addDeliveries_eq, ne_eq, not_false_eq_true, decide_true, Bool.true_and,
            Bool.or_eq_true, decide_eq_true_eq, if_pos hg, Option.map_some, Option.getD_some, ruleActions, repairs,
            hk, Bool.false_eq_true, List.nil_append, Bool.not_eq_true', List.isEmpty_eq_false_iff]
          split <;> simp [addReassert_actions]
    · simp [if_neg hm]

/-- Whether the event makes the focus leave the master: some live slave gets it
by a focus cycle. -/
def cycles (ev : InputEvent) (routes : Routes) (alive : TargetMask) (master : Nat) (ks : KeyState) : Prop :=
  ∃ targets, rule ev routes ks = some (targets, .focusCycle) ∧ mirrorTargets targets alive master ≠ []

end MultiMadness
