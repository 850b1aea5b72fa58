import MultiMadness.Capture
/-!
# From the hooks to the broadcaster

The part of the system both threads share: the hooks publish into the ring, and
`Broadcaster::run` takes one event at a time out of it. The state keeps what no
code reads: the publications so far, each with the hook's keyboard at that
moment, and how many events were handled.

- `Hooked`: what a callback does.
- `Queued`: what is published and not handled yet is what the ring holds.
-/

namespace MultiMadness

open RunLib KeyState

/-- A call of `publish`: the event, the hook's keyboard when the callback
returned, and whether the ring took the event. -/
structure Published where
  ev : InputEvent
  keys : KeyState
  accepted : Bool

/-- A transition of the key `vk`. -/
def Published.OfKey (r : Published) (vk : UInt16) : Prop := isKey r.ev.kind = true ∧ r.ev.vk = vk

instance (r : Published) (vk : UInt16) : Decidable (r.OfKey vk) := inferInstanceAs (Decidable (_ ∧ _))

structure Feed where
  cap : Capture
  ring : EventRing := .empty
  /-- The event `run` has popped and not handled yet. -/
  popped : Option InputEvent := none
  history : List Published := []
  handled : Nat := 0

namespace Feed

/-- A new capture, however configured. -/
def start (cap : Capture) : Feed where
  cap := { cap with keys := KeyState.init, captured := 0, dropped := 0, injectedSeen := 0 }

/-- What a callback that published `ev` adds to the history. -/
def recorded (f : Feed) (ev : Option InputEvent) (cap : Capture) : List Published :=
  ev.toList.map fun ev => ⟨ev, cap.keys, (f.ring.push ev).2⟩

def key (f : Feed) (ts : UInt64) (msg : KeyMsg) (k : KbdLlHook) : Feed :=
  let (cap, ring, _) := f.cap.onKey f.ring ts msg k
  { f with cap := cap, ring := ring, history := f.history ++ f.recorded (f.cap.keyPublished ts msg k) cap }

def mouse (f : Feed) (ts : UInt64) (msg : MouseMsg) (m : MsLlHook) : Feed :=
  let (cap, ring, _) := f.cap.onMouse f.ring ts msg m
  { f with cap := cap, ring := ring, history := f.history ++ f.recorded (f.cap.mousePublished ts msg m) cap }

/-- `run` pops the next event once it has handled the last one. -/
def pop (f : Feed) : Option Feed :=
  match f.popped, f.ring.pop with
  | none, some (ev, ring) => some { f with popped := some ev, ring := ring }
  | _, _ => none

/-- `handle` returns. -/
def done (f : Feed) : Feed := { f with popped := none, handled := f.handled + 1 }

/-- Nothing is waiting and nothing is being handled. -/
def Drained (f : Feed) : Prop := f.ring.items = [] ∧ f.popped = none

/-- The publications the ring took. -/
def accepted (f : Feed) : List Published := f.history.filter (·.accepted)

/-! ## What a callback does -/

def published (f : Feed) (ev : InputEvent) : Feed :=
  let keys := (f.cap.keys.applyEvent ev).1
  { f with
    cap := (Capture.publish { f.cap with keys := keys } f.ring ev).1
    ring := (f.ring.push ev).1
    history := f.history ++ [⟨ev, keys, (f.ring.push ev).2⟩] }

section Published
variable (f : Feed) (ev : InputEvent)

@[simp] theorem published_keys : (f.published ev).cap.keys = (f.cap.keys.applyEvent ev).1 :=
  (Capture.publish_captured_keys _ f.ring ev).1

@[simp] theorem published_swallow : (f.published ev).cap.swallow = f.cap.swallow :=
  (Capture.publish_captured_keys _ f.ring ev).2

@[simp] theorem published_dropped :
    (f.published ev).cap.dropped = if (f.ring.push ev).2 then f.cap.dropped else f.cap.dropped + 1 :=
  Capture.publish_dropped _ f.ring ev

@[simp] theorem published_ring :
    (f.published ev).ring.items = if (f.ring.push ev).2 then f.ring.items ++ [ev] else f.ring.items :=
  Fifo.push_items f.ring ev

theorem published_history :
    (f.published ev).history = f.history ++ [⟨ev, (f.cap.keys.applyEvent ev).1, (f.ring.push ev).2⟩] := rfl

theorem published_accepted :
    (f.published ev).accepted =
      if (f.ring.push ev).2 then f.accepted ++ [⟨ev, (f.cap.keys.applyEvent ev).1, true⟩] else f.accepted := by
  cases hok : (f.ring.push ev).2 <;> simp [accepted, published_history, hok]

end Published

/-- A callback publishes one event, or changes no more than the count of
ignored ones. A published key event changed the hook's keyboard. -/
inductive Hooked (f : Feed) : Option InputEvent → Feed → Prop where
  | quiet (n : Nat) : Hooked f none { f with cap := { f.cap with injectedSeen := n } }
  | published (ev : InputEvent) (hev : isKey ev.kind = true → (f.cap.keys.applyEvent ev).2 = true) :
      Hooked f (some ev) (f.published ev)

theorem effect_published {f : Feed} {ev : InputEvent} {cap : Capture} {ring : EventRing}
    (h : Capture.Effect f.cap f.ring (some ev) cap ring) :
    { f with cap := cap, ring := ring, history := f.history ++ f.recorded (some ev) cap } = f.published ev := by
  cases h with
  | published e keys hk =>
    subst hk
    have hkeys := (Capture.publish_captured_keys { f.cap with keys := (f.cap.keys.applyEvent ev).1 } f.ring ev).1
    simp only [recorded, Option.toList_some, List.map_cons, List.map_nil, hkeys]
    rfl

theorem hooked_of_effect {f : Feed} {ev : Option InputEvent} {cap : Capture} {ring : EventRing}
    (h : Capture.Effect f.cap f.ring ev cap ring)
    (hev : ∀ e, ev = some e → isKey e.kind = true → (f.cap.keys.applyEvent e).2 = true) :
    Hooked f ev { f with cap := cap, ring := ring, history := f.history ++ f.recorded ev cap } := by
  cases ev with
  | none =>
    cases h with
    | quiet n => simpa [recorded] using Hooked.quiet (f := f) n
  | some e =>
    rw [effect_published h]
    exact .published e (hev e rfl)

theorem hooked_key (f : Feed) (ts : UInt64) (msg : KeyMsg) (k : KbdLlHook) :
    Hooked f (f.cap.keyPublished ts msg k) (f.key ts msg k) :=
  hooked_of_effect (Capture.onKey_effect f.cap f.ring ts msg k) fun _ he _ => (Capture.keyPublished_iff.1 he).2.2

theorem hooked_mouse (f : Feed) (ts : UInt64) (msg : MouseMsg) (m : MsLlHook) :
    Hooked f (f.cap.mousePublished ts msg m) (f.mouse ts msg m) :=
  hooked_of_effect (Capture.onMouse_effect f.cap f.ring ts msg m) fun e he hk => by
    rw [Capture.mousePublished_kind he] at hk
    cases hk

theorem Hooked.eq_published {f g : Feed} {ev : InputEvent} (h : Hooked f (some ev) g) : g = f.published ev := by
  cases h; rfl

theorem key_eq {f : Feed} {ts : UInt64} {msg : KeyMsg} {k : KbdLlHook} {ev : InputEvent}
    (h : f.cap.keyPublished ts msg k = some ev) : f.key ts msg k = f.published ev :=
  (h ▸ f.hooked_key ts msg k).eq_published

theorem mouse_eq {f : Feed} {ts : UInt64} {msg : MouseMsg} {m : MsLlHook} {ev : InputEvent}
    (h : f.cap.mousePublished ts msg m = some ev) : f.mouse ts msg m = f.published ev :=
  (h ▸ f.hooked_mouse ts msg m).eq_published

/-- A callback adds its event to the history and leaves the broadcaster's side alone. -/
theorem Hooked.frame {f g : Feed} {ev : Option InputEvent} (h : Hooked f ev g) :
    g.popped = f.popped ∧ g.handled = f.handled ∧ (g.cap.dropped = 0 → f.cap.dropped = 0) ∧
      ∃ recs, g.history = f.history ++ recs ∧ recs.map (·.ev) = ev.toList := by
  cases h with
  | quiet n => exact ⟨rfl, rfl, id, [], (List.append_nil _).symm, rfl⟩
  | published ev hev =>
    refine ⟨rfl, rfl, ?_, _, f.published_history ev, rfl⟩
    intro h0
    rw [published_dropped] at h0
    split at h0
    · exact h0
    · cases h0

theorem Hooked.swallow {f g : Feed} {ev : Option InputEvent} (h : Hooked f ev g) : g.cap.swallow = f.cap.swallow := by
  cases h with
  | quiet n => rfl
  | published ev hev => exact f.published_swallow ev

theorem mouse_keys (f : Feed) (ts : UInt64) (msg : MouseMsg) (m : MsLlHook) :
    (f.mouse ts msg m).cap.keys = f.cap.keys := by
  have hh := f.hooked_mouse ts msg m
  generalize f.mouse ts msg m = g at hh ⊢
  cases hp : f.cap.mousePublished ts msg m with
  | none => rw [hp] at hh; cases hh; rfl
  | some ev =>
    rw [hp] at hh
    rw [hh.eq_published, published_keys, applyEvent, apply_of_not_key _ (Capture.mousePublished_kind hp)]

/-- An accepted key event is applied to the hook's keyboard, repeat or not. -/
theorem key_keys {f : Feed} {ts : UInt64} {msg : KeyMsg} {k : KbdLlHook}
    (h : f.cap.ignores k.dwExtraInfo (k.flags &&& LLKHF_INJECTED ≠ 0) = false) :
    (f.key ts msg k).cap.keys = (f.cap.keys.applyEvent (Capture.keyEvent ts msg k)).1 := by
  have hh := f.hooked_key ts msg k
  generalize f.key ts msg k = g at hh ⊢
  cases hp : f.cap.keyPublished ts msg k with
  | some ev =>
    obtain ⟨-, rfl, -⟩ := Capture.keyPublished_iff.1 hp
    rw [hp] at hh
    rw [hh.eq_published, published_keys]
  | none =>
    -- A repeat, or the release of a key that is up.
    have hc : ¬ (f.cap.keys.applyEvent (Capture.keyEvent ts msg k)).2 = true := fun hc => by
      rw [Capture.keyPublished_iff.2 ⟨h, rfl, hc⟩] at hp
      cases hp
    rw [hp] at hh
    cases hh
    exact (apply_of_false (Bool.eq_false_iff.2 hc)).symm

theorem key_isDown {f : Feed} {ts : UInt64} {msg : KeyMsg} {k : KbdLlHook}
    (h : f.cap.ignores k.dwExtraInfo (k.flags &&& LLKHF_INJECTED ≠ 0) = false) (vk : UInt16) :
    (f.key ts msg k).cap.keys.isDown vk =
      if vk = (Capture.keyEvent ts msg k).vk then decide ((Capture.keyEvent ts msg k).kind = .keyDown)
      else f.cap.keys.isDown vk := by
  rw [key_keys h]
  exact isDown_apply_key f.cap.keys (Capture.keyEvent_isKey ts msg k) (Capture.keyIndex k) _ _ vk

theorem pop_eq_some {f g : Feed} (h : f.pop = some g) :
    ∃ ev ring, f.popped = none ∧ f.ring.items = ev :: ring.items ∧ g = { f with popped := some ev, ring := ring } := by
  unfold pop at h
  split at h
  · next ev ring hp hr => cases h; exact ⟨ev, ring, hp, Fifo.pop_eq_some.1 hr, rfl⟩
  · cases h

/-! ## The ring between the threads -/

/-- What is published and not handled yet is the popped event and the ring's. -/
structure Queued (f : Feed) : Prop where
  handled_le : f.handled ≤ f.accepted.length
  pending : (f.accepted.drop f.handled).map (·.ev) = f.popped.toList ++ f.ring.items
  dropped : f.cap.dropped = f.history.countP (!·.accepted)

theorem queued_start (cap : Capture) : Queued (start cap) := ⟨Nat.zero_le _, rfl, rfl⟩

theorem queued_published {f : Feed} (hq : Queued f) (ev : InputEvent) : Queued (f.published ev) := by
  have hhist := f.published_history ev
  have hacc := f.published_accepted ev
  have hring := f.published_ring ev
  have hdrop := f.published_dropped ev
  cases hok : (f.ring.push ev).2 with
  | true =>
    rw [hok, if_pos rfl] at hacc hring hdrop
    refine ⟨?_, ?_, ?_⟩
    · rw [hacc, List.length_append]
      exact Nat.le_add_right_of_le hq.handled_le
    · rw [hacc, hring, show (f.published ev).handled = f.handled from rfl,
        List.drop_append_of_le_length hq.handled_le, List.map_append, hq.pending, List.append_assoc]
      rfl
    · rw [hdrop, hhist, List.countP_append, hq.dropped, hok]
      rfl
  | false =>
    rw [hok, if_neg Bool.false_ne_true] at hacc hring hdrop
    refine ⟨?_, ?_, ?_⟩
    · rw [hacc]; exact hq.handled_le
    · rw [hacc, hring]; exact hq.pending
    · rw [hdrop, hhist, List.countP_append, hq.dropped, hok]
      rfl

theorem queued_hooked {f g : Feed} {ev : Option InputEvent} (hq : Queued f) (h : Hooked f ev g) : Queued g := by
  cases h with
  | quiet n => exact ⟨hq.handled_le, hq.pending, hq.dropped⟩
  | published ev hev => exact queued_published hq ev

theorem queued_pop {f g : Feed} (hq : Queued f) (h : f.pop = some g) : Queued g := by
  obtain ⟨ev, ring, hp, hr, rfl⟩ := pop_eq_some h
  refine ⟨hq.handled_le, ?_, hq.dropped⟩
  have hpend := hq.pending
  rw [hp, hr] at hpend
  exact hpend

/-- The popped event is the oldest one pending. -/
theorem Queued.drop_handled {f : Feed} (hq : Queued f) {ev : InputEvent} (hp : f.popped = some ev) :
    ∃ r rs, f.accepted.drop f.handled = r :: rs ∧ r.ev = ev ∧ rs.map (·.ev) = f.ring.items := by
  have h := hq.pending
  rw [hp] at h
  cases hd : f.accepted.drop f.handled with
  | nil => rw [hd] at h; cases h
  | cons r rs =>
    rw [hd] at h
    simp only [List.map_cons, Option.toList_some, List.singleton_append, List.cons.injEq] at h
    exact ⟨r, rs, rfl, h.1, h.2⟩

theorem queued_done {f : Feed} (hq : Queued f) {ev : InputEvent} (hp : f.popped = some ev) : Queued f.done := by
  obtain ⟨r, rs, hd, -, hrs⟩ := hq.drop_handled hp
  have hlt : f.handled < f.accepted.length := by
    by_contra hge
    rw [List.drop_eq_nil_of_le (Nat.le_of_not_lt hge)] at hd
    cases hd
  refine ⟨hlt, ?_, hq.dropped⟩
  change (f.accepted.drop (f.handled + 1)).map (·.ev) = f.ring.items
  rw [← List.tail_drop, hd, List.tail_cons, hrs]

theorem Queued.handled_lt {f : Feed} (hq : Queued f) {ev : InputEvent} (hp : f.popped = some ev) :
    f.handled < f.history.length := by
  have hlt := (queued_done hq hp).handled_le
  exact Nat.lt_of_lt_of_le hlt (List.length_filter_le _ _)

/-- Without a drop, every publication was accepted. -/
theorem Queued.accepted_eq {f : Feed} (hq : Queued f) (h0 : f.cap.dropped = 0) : f.accepted = f.history := by
  rw [hq.dropped, List.countP_eq_zero] at h0
  exact List.filter_eq_self.2 fun r hr => by simpa using h0 r hr

/-- Without a drop, the popped event is the first unhandled publication. -/
theorem Queued.popped_eq {f : Feed} (hq : Queued f) (h0 : f.cap.dropped = 0) {ev : InputEvent}
    (hp : f.popped = some ev) : ∃ r, f.history[f.handled]? = some r ∧ r.ev = ev := by
  obtain ⟨r, rs, hd, hr, -⟩ := hq.drop_handled hp
  rw [hq.accepted_eq h0] at hd
  exact ⟨r, by rw [← List.head?_drop, hd, List.head?_cons], hr⟩

/-- Without a drop, everything published is handled once the ring is drained. -/
theorem Queued.all_handled {f : Feed} (hq : Queued f) (h0 : f.cap.dropped = 0) (hd : f.Drained) :
    f.history.length = f.handled := by
  have h := hq.pending
  rw [hq.accepted_eq h0, hd.1, hd.2] at h
  have hge := List.drop_eq_nil_iff.1 (List.map_eq_nil_iff.1 h)
  have hle := hq.handled_le
  rw [hq.accepted_eq h0] at hle
  omega

end Feed

end MultiMadness
