import MultiMadness.Dispatch
import Mathlib.Data.List.Count
/-!
# Pairing of mirrored mouse buttons

The modifier gates every mouse event by itself, with the keyboard of that
moment. So a button's deliveries to a slave are its events at which the
modifier is down, and they pair up exactly when each release meets the
modifier as its press did.
-/

namespace MultiMadness.Buttons

open KeyState

/-- An event, the keyboard it is planned with, and its plan's actions. -/
structure Planned where
  ev : InputEvent
  keys : KeyState
  actions : List Action

/-- Events handled in order, each applied before it is planned. -/
def history (routes : Routes) (alive : TargetMask) (master : Nat) : KeyState → List InputEvent → List Planned
  | _, [] => []
  | ks, ev :: evs =>
    ⟨ev, (ks.applyEvent ev).1, (plan ev routes alive master (ks.applyEvent ev).1).actions⟩ ::
      history routes alive master (ks.applyEvent ev).1 evs

/-- The events of one mouse button. -/
def ofButton (b : UInt16) (h : List Planned) : List Planned :=
  h.filter fun p => isMouseButton p.ev.kind && p.ev.vk = b

def isDeliverTo (t : Nat) (a : Action) : Bool := a.kind = .deliver && a.target = t

/-- The events of button `b`, each with its number of deliveries to `t`. -/
def deliveryLog (t : Nat) (b : UInt16) (h : List Planned) : List (EventKind × Nat) :=
  (ofButton b h).map fun p => (p.ev.kind, p.actions.countP (isDeliverTo t))

/-- The events of button `b`, each with whether the mouse gate was open. -/
def gateLog (routes : Routes) (b : UInt16) (h : List Planned) : List (EventKind × Bool) :=
  (ofButton b h).map fun p => (p.ev.kind, mouseGate routes p.keys)

def other : EventKind → EventKind
  | .mouseDown => .mouseUp
  | _ => .mouseDown

/-- Alternates between a press and a release, beginning with `k`. -/
def Alternates : EventKind → List EventKind → Prop
  | _, [] => True
  | k, e :: l => e = k ∧ Alternates (other k) l

instance decAlternates : (k : EventKind) → (l : List EventKind) → Decidable (Alternates k l)
  | _, [] => isTrue trivial
  | k, _ :: l => @instDecidableAnd _ _ _ (decAlternates (other k) l)

/-- `R` relates every press to the release that follows it. -/
def EachPair {β : Type} (R : β → β → Prop) (l : List (EventKind × β)) : Prop :=
  ∀ pre x y post, l = pre ++ (.mouseDown, x) :: (.mouseUp, y) :: post → R x y

/-- The deliveries of a log: its events, each as often as it is delivered. -/
def emitted (l : List (EventKind × Nat)) : List EventKind := l.flatMap fun p => List.replicate p.2 p.1

/-- The deliveries alternate from a press on, and a delivered press has its
release delivered too. -/
def Paired (l : List (EventKind × Nat)) : Prop :=
  Alternates .mouseDown (emitted l) ∧ EachPair (fun down up => 0 < down → 0 < up) l

/-- The gate is the same at a press and at its release. -/
def Steady (l : List (EventKind × Bool)) : Prop := EachPair (fun down up => down = up) l

/-! ## Logs of alternating events -/

theorem eachPair_short {β : Type} {R : β → β → Prop} (l : List (EventKind × β)) (h : l.length ≤ 1) : EachPair R l := by
  rintro pre x y post rfl
  simp at h
  omega

theorem eachPair_cons {β : Type} {R : β → β → Prop} (x y : β) (l : List (EventKind × β)) :
    EachPair R ((.mouseDown, x) :: (.mouseUp, y) :: l) ↔ R x y ∧ EachPair R l := by
  constructor
  · intro h
    refine ⟨h [] x y l rfl, fun pre a b post he => h ((.mouseDown, x) :: (.mouseUp, y) :: pre) a b post ?_⟩
    rw [he]; rfl
  · rintro ⟨hxy, h⟩ pre a b post he
    match pre, he with
    | [], he => cases he; exact hxy
    | [_], he => cases he
    | _ :: _ :: pre, he =>
      simp only [List.cons_append, List.cons.injEq] at he
      exact h pre a b post he.2.2

/-- The log of a mirrored target: one delivery where the gate is open. -/
def opened (l : List (EventKind × Bool)) : List (EventKind × Nat) := l.map fun p => (p.1, if p.2 then 1 else 0)

/-- Two events at a time: a press and its release pair up exactly when the gate
is the same for both. -/
theorem paired_opened_iff : ∀ l : List (EventKind × Bool), Alternates .mouseDown (l.map (·.1)) →
    (Paired (opened l) ↔ Steady l)
  | [], _ => ⟨fun _ => eachPair_short [] (by simp), fun _ => ⟨trivial, eachPair_short _ (by simp [opened])⟩⟩
  | [(k, g)], h => by
    obtain ⟨rfl, -⟩ := h
    refine ⟨fun _ => eachPair_short _ (by simp), fun _ => ⟨?_, eachPair_short _ (by simp [opened])⟩⟩
    cases g
    · trivial
    · exact ⟨rfl, trivial⟩
  | (k, g) :: (k', g') :: l, h => by
    obtain ⟨rfl, rfl, hl⟩ := h
    have ih := paired_opened_iff l hl
    unfold Steady at ih ⊢
    change Paired (opened ((.mouseDown, g) :: (.mouseUp, g') :: l)) ↔
      EachPair _ ((.mouseDown, g) :: (.mouseUp, g') :: l)
    rw [eachPair_cons, ← ih]
    unfold Paired
    rw [show opened ((.mouseDown, g) :: (.mouseUp, g') :: l) =
      (.mouseDown, if g then 1 else 0) :: (.mouseUp, if g' then 1 else 0) :: opened l from rfl, eachPair_cons]
    cases g <;> cases g'
    · simp [emitted]
    · simp [emitted, Alternates]
    · simp
    · simp [emitted, Alternates, other]

theorem paired_silent (l : List (EventKind × Nat)) (h : ∀ p ∈ l, p.2 = 0) : Paired l := by
  constructor
  · have : emitted l = [] := by
      rw [emitted, List.flatMap_eq_nil_iff]
      intro p hp
      rw [h p hp]; rfl
    rw [this]; trivial
  · rintro pre x y post rfl hx
    have := h (.mouseDown, x) (by simp)
    omega

/-! ## What a plan delivers -/

theorem countP_deliveries (s : Strategy) (t : Nat) (l : List Nat) :
    (l.map (deliverTo s)).countP (isDeliverTo t) = l.count t := by
  rw [List.countP_map]
  refine List.countP_congr fun i _ => ?_
  simp only [Function.comp_apply, isDeliverTo, deliverTo, decide_true, Bool.true_and, beq_iff_eq]
  exact decide_eq_true_iff

theorem countP_repairs (ev : InputEvent) (ks : KeyState) (t : Nat) :
    (repairs ev ks).countP (isDeliverTo t) = 0 := by
  rw [List.countP_eq_zero]
  intro a ha
  rcases repairs_kind ha with h | h | h <;> simp [isDeliverTo, h]

/-- A button event is delivered to `t` once if the gate is open and `t` is a
live slave of the mouse targets, and not at all otherwise. -/
theorem countP_plan {ev : InputEvent} (hm : isMouseButton ev.kind = true) (routes : Routes) (alive : TargetMask)
    (master : Nat) (ks : KeyState) (t : Nat) :
    (plan ev routes alive master ks).actions.countP (isDeliverTo t) =
      if mouseGate routes ks = true ∧ t ∈ mirrorTargets routes.mouseTargets alive master then 1 else 0 := by
  have hk := isKey_of_isMouseButton hm
  have hs : ¬ isSwapHotkey ev routes := fun h => by rw [h.1] at hk; cases hk
  rw [plan_actions, if_neg hs]
  cases hg : mouseGate routes ks with
  | false => simp [rule, hk, hm, hg]
  | true =>
    have hr : rule ev routes ks = some (routes.mouseTargets, routes.mouseStrategy) := by simp [rule, hk, hm, hg]
    have hrep : ∀ p : Prop, ∀ _ : Decidable p, (if p then repairs ev ks else []).countP (isDeliverTo t) = 0 := by
      intro p _
      split
      · exact countP_repairs ev ks t
      · rfl
    simp only [hr, Option.map_some, Option.getD_some, ruleActions, List.countP_append, countP_deliveries, true_and,
      hrep, Nat.add_zero]
    exact (nodup_mirrorTargets _ _ _).count

theorem history_planned {routes : Routes} {alive : TargetMask} {master : Nat} {ks : KeyState} {evs : List InputEvent} :
    ∀ p ∈ history routes alive master ks evs, p.actions = (plan p.ev routes alive master p.keys).actions := by
  induction evs generalizing ks with
  | nil => simp [history]
  | cons ev evs ih =>
    intro p hp
    rw [history, List.mem_cons] at hp
    rcases hp with rfl | hp
    · rfl
    · exact ih p hp

/-- The deliveries to a target are the events at which the gate is open, if the
target is mirrored at all. -/
theorem deliveryLog_eq (routes : Routes) (alive : TargetMask) (master : Nat) (ks : KeyState) (evs : List InputEvent)
    (t : Nat) (b : UInt16) :
    deliveryLog t b (history routes alive master ks evs) =
      if t ∈ mirrorTargets routes.mouseTargets alive master then
        opened (gateLog routes b (history routes alive master ks evs))
      else (gateLog routes b (history routes alive master ks evs)).map fun p => (p.1, 0) := by
  have hp : ∀ p ∈ ofButton b (history routes alive master ks evs), p.actions.countP (isDeliverTo t) =
      if mouseGate routes p.keys = true ∧ t ∈ mirrorTargets routes.mouseTargets alive master then 1 else 0 := by
    intro p hp
    obtain ⟨hh, hb⟩ := List.mem_filter.1 hp
    simp only [Bool.and_eq_true] at hb
    rw [history_planned p hh]
    exact countP_plan hb.1 _ _ _ _ _
  unfold deliveryLog gateLog opened
  split
  · next ht =>
    rw [List.map_map]
    refine List.map_congr_left fun p hpm => ?_
    rw [hp p hpm]
    simp [ht]
  · next ht =>
    rw [List.map_map]
    refine List.map_congr_left fun p hpm => ?_
    rw [hp p hpm]
    simp [ht]

/-- A button's deliveries to `t` are exactly its events at which the gate is
open, once each. They pair up exactly when `t` is not mirrored or every release
of the button meets the gate as its press did. -/
theorem buttons_paired_iff (routes : Routes) (alive : TargetMask) (master : Nat) (ks : KeyState)
    (evs : List InputEvent) (t : Nat) (b : UInt16)
    (halt : Alternates .mouseDown ((ofButton b (history routes alive master ks evs)).map (·.ev.kind))) :
    (t ∈ mirrorTargets routes.mouseTargets alive master →
      deliveryLog t b (history routes alive master ks evs) =
        opened (gateLog routes b (history routes alive master ks evs))) ∧
    (Paired (deliveryLog t b (history routes alive master ks evs)) ↔
      t ∈ mirrorTargets routes.mouseTargets alive master →
        Steady (gateLog routes b (history routes alive master ks evs))) := by
  have hlog := deliveryLog_eq routes alive master ks evs t b
  refine ⟨fun ht => by rw [hlog, if_pos ht], ?_⟩
  rw [hlog]
  split
  · next ht =>
    have halt' : Alternates .mouseDown ((gateLog routes b (history routes alive master ks evs)).map (·.1)) := by
      rw [gateLog, List.map_map]; exact halt
    rw [paired_opened_iff _ halt']
    exact ⟨fun h _ => h, fun h => h ht⟩
  · next ht =>
    refine ⟨fun _ h => absurd h ht, fun _ => paired_silent _ fun p hp => ?_⟩
    obtain ⟨q, -, rfl⟩ := List.mem_map.1 hp
    rfl

/-- With no modifier, the gate never changes. -/
theorem steady_of_no_modifier {routes : Routes} (h : routes.mouseModifierVk = 0) (b : UInt16) (hist : List Planned) :
    Steady (gateLog routes b hist) := by
  rintro pre x y post he
  have hg : ∀ p ∈ gateLog routes b hist, p.2 = decide (routes.mouseTargets ≠ 0) := by
    intro p hp
    obtain ⟨q, -, rfl⟩ := List.mem_map.1 hp
    simp [mouseGate, h]
  have hx := hg (.mouseDown, x) (by rw [he]; simp)
  have hy := hg (.mouseUp, y) (by rw [he]; simp)
  exact hx.trans hy.symm

/-! ## A modifier released during a drag -/

/-- Clicks are mirrored while Caps Lock is held. -/
def capsRoutes : Routes := { mouseTargets := kAllTargets, mouseModifierVk := 0x14 }

/-- The modifier goes down, the button goes down, the modifier comes up, the
button comes up. -/
def capsDrag : List InputEvent :=
  [{ kind := .keyDown, vk := 0x14 }, { kind := .mouseDown, vk := kVkLButton },
    { kind := .keyUp, vk := 0x14 }, { kind := .mouseUp, vk := kVkLButton }]

/-- The slave gets the press of the drag and never its release. -/
theorem drag_leaves_button_down :
    Alternates .mouseDown ((ofButton kVkLButton (history capsRoutes 0b11 0 KeyState.init capsDrag)).map (·.ev.kind)) ∧
      ¬ Paired (deliveryLog 1 kVkLButton (history capsRoutes 0b11 0 KeyState.init capsDrag)) := by
  refine ⟨by decide +kernel, ?_⟩
  intro h
  have he : deliveryLog 1 kVkLButton (history capsRoutes 0b11 0 KeyState.init capsDrag) =
      [] ++ (.mouseDown, 1) :: (.mouseUp, 0) :: [] := by decide +kernel
  exact absurd (h.2 [] 1 0 [] he Nat.one_pos) (Nat.lt_irrefl 0)

/-- The same drag without a modifier pairs up. -/
theorem plain_drag_paired :
    Alternates .mouseDown ((ofButton kVkLButton (history { mouseTargets := kAllTargets } 0b11 0 KeyState.init capsDrag)).map
      (·.ev.kind)) ∧
      Paired (deliveryLog 1 kVkLButton (history { mouseTargets := kAllTargets } 0b11 0 KeyState.init capsDrag)) := by
  have h : Alternates .mouseDown ((ofButton kVkLButton (history { mouseTargets := kAllTargets } 0b11 0 KeyState.init
      capsDrag)).map (·.ev.kind)) := by decide +kernel
  exact ⟨h, (buttons_paired_iff _ _ _ _ _ 1 kVkLButton h).2.2 fun _ => steady_of_no_modifier rfl _ _⟩

end MultiMadness.Buttons
