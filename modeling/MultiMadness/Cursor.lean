import MultiMadness.Injection
/-!
# Where mirrored mouse input lands

A mouse event carries its screen point in `x` and `y`, except that a wheel
event carries its deltas there. Everything after the hook reads the two as a
point. `cursor_follows_iff`: the cursor goes where the physical event was, and
comes back there, exactly for button events and for a wheel event that happens
to be at the point its deltas spell.
-/

namespace MultiMadness.Cursor

open KeyState Broadcaster Capture Injection

/-- The injections that act at the cursor's position. -/
def atCursor : Output → Bool
  | .sendMouseButton .. | .sendWheel .. => true
  | _ => false

/-- The cursor position for target `t` of an event at screen point `p`. -/
def place (b : Broadcaster) (env : Env) (t : Nat) (p : Point) : AbsPoint :=
  toAbsolute env.virtualScreen (b.mapped env t p.x p.y).x (b.mapped env t p.x p.y).y

/-- Every injection of a delivery that acts at the cursor directly follows that
delivery's move to its place, under the same window. -/
def MovesFirst (pl : Nat → AbsPoint) (l : List Sent) : Prop :=
  ∀ i e t, l[i]? = some e → e.sender = .deliver t → atCursor e.out = true →
    ∃ j, i = j + 1 ∧ l[j]? = some ⟨.deliver t, .sendMouseMoveAbs (pl t), e.fg⟩

/-- A call of `handle` treats the event as one at screen point `p`. -/
structure CursorFollows (p : Point) (b : Broadcaster) (env : Env) (os : Os) (ev : InputEvent) : Prop where
  moves : ∀ t a fg, ⟨.deliver t, .sendMouseMoveAbs a, fg⟩ ∈ sentDuring b env os ev → a = place b env t p
  first : MovesFirst (place b env · p) (sentDuring b env os ev)
  back : ∀ a fg, ⟨.restoreCursor, .sendMouseMoveAbs a, fg⟩ ∈ sentDuring b env os ev →
    a = toAbsolute env.virtualScreen p.x p.y
  restored : cycles ev b.routes (aliveMask env b.targets) b.master (b.masterKeys.applyEvent ev).1 →
    ∃ fg, ⟨.restoreCursor, .sendMouseMoveAbs (toAbsolute env.virtualScreen p.x p.y), fg⟩ ∈ sentDuring b env os ev
  postedButton : ∀ t w vk down x y fg, ⟨.deliver t, .postMouseButton w vk down x y, fg⟩ ∈ sentDuring b env os ev →
    x = (b.mapped env t p.x p.y).x - (b.clientOf env t).x ∧ y = (b.mapped env t p.x p.y).y - (b.clientOf env t).y
  postedWheel : ∀ t w v h x y fg, ⟨.deliver t, .postWheel w v h x y, fg⟩ ∈ sentDuring b env os ev →
    x = (b.mapped env t p.x p.y).x ∧ y = (b.mapped env t p.x p.y).y

/-! ## The log of a mouse event -/

theorem movesFirst_append {pl : Nat → AbsPoint} {l m : List Sent} (hl : MovesFirst pl l) (hm : MovesFirst pl m) :
    MovesFirst pl (l ++ m) := by
  intro i e t hi hs ha
  by_cases h : i < l.length
  · rw [List.getElem?_append_left h] at hi
    obtain ⟨j, rfl, hj⟩ := hl i e t hi hs ha
    exact ⟨j, rfl, by rw [List.getElem?_append_left (by omega), hj]⟩
  · rw [List.getElem?_append_right (by omega)] at hi
    obtain ⟨j, hij, hj⟩ := hm _ e t hi hs ha
    refine ⟨j + l.length, by omega, ?_⟩
    rw [List.getElem?_append_right (by omega), Nat.add_sub_cancel, hj]

theorem movesFirst_of_none {pl : Nat → AbsPoint} {l : List Sent}
    (h : ∀ e ∈ l, ∀ t, e.sender = .deliver t → atCursor e.out = false) : MovesFirst pl l := by
  intro i e t hi hs ha
  rw [h e (List.mem_of_getElem? hi) t hs] at ha
  cases ha

/-- The calls of one delivery of a mouse event: a move, then at most one
injection at the cursor. -/
theorem sendOutputs_mouse (b : Broadcaster) (env : Env) (t : Nat) {ev : InputEvent} (hk : isKey ev.kind = false) :
    ∃ rest, b.sendOutputs env t ev = .sendMouseMoveAbs (place b env t ⟨ev.x, ev.y⟩) :: rest ∧ rest.length ≤ 1 ∧
      ∀ o ∈ rest, atCursor o = true := by
  unfold sendOutputs place
  simp only [hk, Bool.false_eq_true, if_false]
  refine ⟨_, rfl, ?_⟩
  split
  · simp [atCursor]
  · split <;> simp [atCursor]

theorem delivery_movesFirst {b : Broadcaster} {env : Env} {ev : InputEvent} (hk : isKey ev.kind = false)
    {s : Strategy} {t : Nat} {es : List Sent} (h : b.Delivery env ev s t es) :
    MovesFirst (place b env · ⟨ev.x, ev.y⟩) es := by
  cases s with
  | windowMessage =>
    obtain ⟨fg, rfl⟩ := h
    refine movesFirst_of_none fun e he u _ => ?_
    obtain ⟨o, ho, rfl⟩ := List.mem_map.1 he
    rcases mem_postOutputs ho with ⟨down, rfl⟩ | ⟨down, rfl⟩ | rfl <;> rfl
  | focusCycle =>
    rcases h with rfl | ⟨w, -, rfl⟩
    · exact movesFirst_of_none (by simp)
    · obtain ⟨rest, hr, hlen, -⟩ := sendOutputs_mouse b env t hk
      rw [hr]
      intro i e u hi hs ha
      match i with
      | 0 => simp at hi; subst hi; cases ha
      | j + 1 =>
        rw [List.map_cons, List.getElem?_cons_succ] at hi
        have hj : j = 0 := by
          have := (List.getElem?_eq_some_iff.1 hi).1
          rw [List.length_map] at this
          omega
        subst hj
        obtain ⟨o, -, rfl⟩ := List.mem_map.1 (List.mem_of_getElem? hi)
        cases hs
        exact ⟨0, rfl, rfl⟩

theorem movesFirst_flatten {pl : Nat → AbsPoint} {chunks : List (List Sent)}
    (h : ∀ es ∈ chunks, MovesFirst pl es) : MovesFirst pl chunks.flatten := by
  induction chunks with
  | nil => exact movesFirst_of_none (by simp)
  | cons es chunks ih =>
    rw [List.flatten_cons]
    exact movesFirst_append (h es List.mem_cons_self) (ih fun es' h' => h es' (List.mem_cons_of_mem _ h'))

theorem handled_movesFirst {b : Broadcaster} {env : Env} {os : Os} {ev : InputEvent} (hk : isKey ev.kind = false)
    {es : List Sent} (h : b.Handled env os ev es) : MovesFirst (place b env · ⟨ev.x, ev.y⟩) es := by
  cases h with
  | silent => exact movesFirst_of_none (by simp)
  | mirrored targets s l chunks rest hr hl hch hrest =>
    refine movesFirst_append (movesFirst_flatten fun es hes => ?_) (movesFirst_of_none fun e he t ht => ?_)
    · obtain ⟨i, hi, rfl⟩ := List.getElem_of_mem hes
      exact delivery_movesFirst hk (hch.get (by rw [hch.length_eq]; exact hi) hi)
    · -- The repairs are no delivery.
      split at hrest
      · obtain ⟨fg, rfl⟩ := hrest
        rcases List.mem_append.1 he with he | he
        · rw [(mem_cursorSent.1 he).2] at ht; cases ht
        · rw [(heldSent_mem he).1] at ht; cases ht
      · subst hrest; cases he

/-- What a delivery to `t` sends goes where `t`'s client area puts the point. -/
def AtPlace (b : Broadcaster) (env : Env) (t : Nat) (p : Point) : Output → Prop
  | .sendMouseMoveAbs a => a = place b env t p
  | .postMouseButton _ _ _ x y =>
    x = (b.mapped env t p.x p.y).x - (b.clientOf env t).x ∧ y = (b.mapped env t p.x p.y).y - (b.clientOf env t).y
  | .postWheel _ _ _ x y => x = (b.mapped env t p.x p.y).x ∧ y = (b.mapped env t p.x p.y).y
  | _ => True

theorem delivery_atPlace {b : Broadcaster} {env : Env} {ev : InputEvent} (hk : isKey ev.kind = false) {s : Strategy}
    {t : Nat} {es : List Sent} (h : b.Delivery env ev s t es) : ∀ e ∈ es, AtPlace b env t ⟨ev.x, ev.y⟩ e.out := by
  intro e he
  rcases (delivery_mem h e he).2 with ho | ho
  · rcases mem_postOutputs ho with ⟨down, ho⟩ | ⟨down, ho⟩ | ho <;> rw [ho]
    · trivial
    · exact ⟨rfl, rfl⟩
    · exact ⟨rfl, rfl⟩
  · obtain ⟨rest, hr, -, hat⟩ := sendOutputs_mouse b env t hk
    rw [hr, List.mem_cons] at ho
    rcases ho with ho | ho
    · rw [ho]; rfl
    · have hc := hat _ ho
      cases hout : e.out with
      | sendMouseButton => trivial
      | sendWheel => trivial
      | _ => rw [hout] at hc; cases hc

theorem sent_atPlace {b : Broadcaster} {env : Env} {os : Os} {ev : InputEvent} (hk : isKey ev.kind = false) {t : Nat}
    {o : Output} {fg : Option Hwnd} (h : ⟨.deliver t, o, fg⟩ ∈ sentDuring b env os ev) :
    AtPlace b env t ⟨ev.x, ev.y⟩ o := by
  rcases (handled_sentDuring b env os ev).entry h with ⟨s, u, sent, hd, hm⟩ | ⟨targets, fg, -, -, hc | hs⟩
  · cases (delivery_mem hd _ hm).1
    exact delivery_atPlace hk hd _ hm
  · cases (mem_cursorSent.1 hc).2
  · cases (heldSent_mem hs).1

theorem sent_cursor {b : Broadcaster} {env : Env} {os : Os} {ev : InputEvent} {a : AbsPoint} {fg : Option Hwnd}
    (h : ⟨.restoreCursor, .sendMouseMoveAbs a, fg⟩ ∈ sentDuring b env os ev) :
    a = toAbsolute env.virtualScreen ev.x ev.y := by
  rcases (handled_sentDuring b env os ev).entry h with ⟨s, u, sent, hd, hm⟩ | ⟨targets, fg, -, -, hc | hs⟩
  · cases (delivery_mem hd _ hm).1
  · cases (mem_cursorSent.1 hc).2
    rfl
  · cases (heldSent_mem hs).1

/-- Every call of `handle` treats a mouse event as one at `(ev.x, ev.y)`,
whatever the two fields mean. -/
theorem cursorFollows_self (b : Broadcaster) (env : Env) (os : Os) {ev : InputEvent} (hk : isKey ev.kind = false) :
    CursorFollows ⟨ev.x, ev.y⟩ b env os ev where
  moves _ _ _ he := sent_atPlace hk he
  first := handled_movesFirst (b := b.applied ev) hk (handled_sentDuring b env os ev)
  back _ _ he := sent_cursor he
  restored := by
    rintro ⟨targets, hr, hne⟩
    obtain ⟨sent, fg, hes⟩ := (handled_sentDuring b env os ev).repaired hr hne
    refine ⟨fg, ?_⟩
    rw [hes]
    exact List.mem_append_right _ (List.mem_append_left _ (mem_cursorSent.2 ⟨hk, rfl⟩))
  postedButton _ _ _ _ _ _ _ he := sent_atPlace hk he
  postedWheel _ _ _ _ _ _ _ he := sent_atPlace hk he

/-! ## From the hook -/

/-- The point the fields of a wheel event spell, for the wheel messages. -/
def wheelPoint (msg : MouseMsg) (m : MsLlHook) : Option Point :=
  match msg with
  | .wmMouseWheel => some ⟨0, wheelDelta m⟩
  | .wmMouseHWheel => some ⟨wheelDelta m, 0⟩
  | _ => none

/-- The point in an event's fields: its wheel deltas, or where it happened. -/
theorem mouseEvent_point {ts : UInt64} {msg : MouseMsg} {m : MsLlHook} {ev : InputEvent}
    (h : mouseEvent ts msg m = some ev) : (⟨ev.x, ev.y⟩ : Point) = (wheelPoint msg m).getD m.pt := by
  cases msg <;> simp only [mouseEvent, Option.some.injEq, reduceCtorEq] at h <;> subst h <;> rfl

/-- Two points that every virtual screen sends to the same place are equal. -/
theorem toAbsolute_separates {p q : Point}
    (h : ∀ vs : Rect, toAbsolute vs p.x p.y = toAbsolute vs q.x q.y) : p = q := by
  have hsep : ∀ a b : Int, (∀ o, scale a o 2 = scale b o 2) → a = b := by
    intro a b hab
    have ha := hab a
    have hb := hab b
    simp only [scale_two, le_refl, if_true] at ha hb
    by_contra hne
    split at ha
    · split at hb
      · omega
      · cases hb
    · cases ha
  cases p; cases q
  simp only [toAbsolute, AbsPoint.mk.injEq] at h
  simp only [Point.mk.injEq]
  exact ⟨hsep _ _ fun o => (h ⟨o, 0, 2, 2⟩).1, hsep _ _ fun o => (h ⟨0, o, 2, 2⟩).2⟩

/-- Two clients, the first one the master, and the mouse mirrored to both. -/
def mouseClients : Broadcaster where
  routes := { mouseTargets := kAllTargets }
  targets := [⟨some 100⟩, ⟨some 200⟩]

theorem mouseClients_cycles (env : Env) (hw : env.isWindow 200 = true) {ev : InputEvent}
    (hk : isKey ev.kind = false) (hm : isMouseButton ev.kind = true ∨ ev.kind = .wheel) (ks : KeyState) :
    cycles ev mouseClients.routes (aliveMask env mouseClients.targets) mouseClients.master ks := by
  have hg : mouseGate mouseClients.routes ks = true := by simp [mouseGate, mouseClients, kAllTargets]
  refine ⟨kAllTargets, ?_, List.ne_nil_of_mem (a := 1) (mem_mirrorTargets.2 ⟨by decide, by decide, ?_, by decide⟩)⟩
  · simp only [rule, hk, Bool.false_eq_true, if_false, if_pos hm, hg, if_true]
    rfl
  · exact getLsbD_aliveMask.2 ⟨by decide, 200, rfl, hw⟩

/-- Mirrored mouse input lands at the mapped position of the physical event and
the cursor comes back to it, in every state and on every desktop, exactly when
the message is a button message or the event happened at the point its wheel
deltas spell. -/
theorem cursor_follows_iff (c : Capture) (ts : UInt64) (msg : MouseMsg) (m : MsLlHook) (ev : InputEvent)
    (h : c.mousePublished ts msg m = some ev) (hk : ev.kind ≠ .mouseMove) :
    (∀ b env os, CursorFollows m.pt b env os ev) ↔ ∀ p ∈ wheelPoint msg m, m.pt = p := by
  have he := Capture.mousePublished_eq h
  have hkey := mouseEvent_kind he
  have hpt := mouseEvent_point he
  constructor
  · intro hall p hp
    rw [hp, Option.getD_some] at hpt
    have hm : isMouseButton ev.kind = true ∨ ev.kind = .wheel := by
      cases msg <;> simp only [mouseEvent, Option.some.injEq, reduceCtorEq] at he <;> subst he <;>
        simp_all [isMouseButton]
    rw [← hpt]
    refine toAbsolute_separates fun vs => ?_
    obtain ⟨fg, hmem⟩ := (hall mouseClients { virtualScreen := vs } {}).restored
      (mouseClients_cycles _ rfl hkey hm _)
    exact (cursorFollows_self mouseClients { virtualScreen := vs } {} hkey).back _ fg hmem
  · intro hp b env os
    have : m.pt = ⟨ev.x, ev.y⟩ := by
      rw [hpt]
      cases hw : wheelPoint msg m with
      | none => rfl
      | some p => exact hp p hw
    rw [this]
    exact cursorFollows_self b env os hkey

/-- A desktop of two 800x600 clients side by side, whose windows take the focus
in turn. -/
def sideBySide : Env where
  focus := fun n => if n = 0 then some 200 else some 100
  clientRect := fun w => if w = some 100 then ⟨0, 0, 800, 600⟩ else ⟨800, 0, 800, 600⟩
  virtualScreen := ⟨0, 0, 1600, 600⟩

/-- A click at (500, 300) meets the condition, on these clients too. -/
theorem cursor_follows_click : CursorFollows ⟨500, 300⟩ mouseClients sideBySide { fg := some 100 }
    { kind := .mouseDown, vk := kVkLButton, x := 500, y := 300 } :=
  (cursor_follows_iff {} 0 .wmLButtonDown { pt := ⟨500, 300⟩ } _ rfl (by decide)).2
    (by intro p hp; cases hp) mouseClients sideBySide { fg := some 100 }

/-- A wheel notch at (500, 300): the cursor comes back to (0, 120). -/
theorem wheel_moves_cursor : ∃ ev,
    ({} : Capture).mousePublished 0 .wmMouseWheel { pt := ⟨500, 300⟩, mouseData := 0x00780000 } = some ev ∧
      ¬ CursorFollows ⟨500, 300⟩ mouseClients sideBySide { fg := some 100 } ev := by
  refine ⟨{ kind := .wheel, x := 0, y := 120 }, by decide +kernel, ?_⟩
  intro hc
  have hm : ⟨.restoreCursor, .sendMouseMoveAbs (toAbsolute sideBySide.virtualScreen 0 120), some 200⟩ ∈
      sentDuring mouseClients sideBySide { fg := some 100 } { kind := .wheel, x := 0, y := 120 } := by
    decide +kernel
  exact absurd (hc.back _ _ hm) (by decide +kernel)

end MultiMadness.Cursor
