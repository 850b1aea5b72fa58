import MultiMadness.RunLib.Fifo
import MultiMadness.Routing
import MultiMadness.Geometry
/-!
# The capture hooks

`capture.cpp`: the two low-level hook callbacks. Each filters injected events,
the keyboard one drops auto-repeat, and the rest goes into the ring. The ring
here is the bounded queue of `RunLib.Fifo`; `SpscRing` shows the real ring is one.

`onKey_effect` and `onMouse_effect` say once what a callback does: which event it
publishes, if any, and what else it changes.
-/

namespace MultiMadness

open RunLib KeyState

abbrev EventRing := Fifo InputEvent 4096

/-- Stamped into `dwExtraInfo` of everything we inject. -/
def kInjectMagic : UInt64 := 0x4D4D0001

/-- The messages of a keyboard hook. -/
inductive KeyMsg where
  | wmKeyDown
  | wmKeyUp
  | wmSysKeyDown
  | wmSysKeyUp
deriving DecidableEq, Repr

/-- The messages of a mouse hook the code tells apart. -/
inductive MouseMsg where
  | wmLButtonDown
  | wmLButtonUp
  | wmRButtonDown
  | wmRButtonUp
  | wmMButtonDown
  | wmMButtonUp
  | wmXButtonDown
  | wmXButtonUp
  | wmMouseWheel
  | wmMouseHWheel
  | wmMouseMove
  | other
deriving DecidableEq, Repr

/-- `KBDLLHOOKSTRUCT`. -/
structure KbdLlHook where
  vkCode : UInt32
  scanCode : UInt32 := 0
  flags : UInt32 := 0
  dwExtraInfo : UInt64 := 0

/-- `MSLLHOOKSTRUCT`. -/
structure MsLlHook where
  pt : Point
  mouseData : UInt32 := 0
  flags : UInt32 := 0
  dwExtraInfo : UInt64 := 0

def LLKHF_EXTENDED : UInt32 := 0x01
def LLKHF_INJECTED : UInt32 := 0x10
def LLKHF_ALTDOWN : UInt32 := 0x20
def LLMHF_INJECTED : UInt32 := 0x01
def XBUTTON1 : Int := 1

structure Capture where
  keys : KeyState := KeyState.init
  swallow : Fin 256 → Bool := fun _ => false
  captureMoves : Bool := false
  acceptForeign : Bool := false
  captured : Nat := 0
  dropped : Nat := 0
  injectedSeen : Nat := 0

namespace Capture

def setSwallow (c : Capture) (vk : UInt16) (on : Bool) : Capture :=
  match slot vk with
  | none => c
  | some i => { c with swallow := Function.update c.swallow i on }

def publish (c : Capture) (ring : EventRing) (ev : InputEvent) : Capture × EventRing :=
  let (ring, ok) := ring.push ev
  (if ok then { c with captured := c.captured + 1 } else { c with dropped := c.dropped + 1 }, ring)

/-- The events a hook lets pass without looking at them: our own, and other
software's unless it is accepted. -/
def ignores (c : Capture) (dwExtraInfo : UInt64) (injected : Bool) : Bool :=
  dwExtraInfo = kInjectMagic || (injected && !c.acceptForeign)

/-- `k.vkCode & 0xFF`. -/
def keyIndex (k : KbdLlHook) : Fin 256 := Fin.ofNat 256 (k.vkCode &&& 0xFF).toNat

def isDownMsg (msg : KeyMsg) : Bool := msg = .wmKeyDown || msg = .wmSysKeyDown

def keyFlags (k : KbdLlHook) : UInt16 :=
  (if k.flags &&& LLKHF_EXTENDED ≠ 0 then kExtendedKey else 0) |||
    (if k.flags &&& LLKHF_ALTDOWN ≠ 0 then kSysKey else 0)

/-- The event of a physical key transition. -/
def keyEvent (ts : UInt64) (msg : KeyMsg) (k : KbdLlHook) : InputEvent where
  ts := ts
  kind := if isDownMsg msg then .keyDown else .keyUp
  vk := code (keyIndex k)
  scan := k.scanCode.toUInt16
  flags := keyFlags k

theorem keyEvent_isKey (ts : UInt64) (msg : KeyMsg) (k : KbdLlHook) : isKey (keyEvent ts msg k).kind = true := by
  unfold keyEvent; dsimp only; split <;> rfl

/-- The keyboard hook; the answer is whether the foreground application is kept
from seeing the key. -/
def onKey (c : Capture) (ring : EventRing) (ts : UInt64) (msg : KeyMsg) (k : KbdLlHook) :
    Capture × EventRing × Bool :=
  if c.ignores k.dwExtraInfo (k.flags &&& LLKHF_INJECTED ≠ 0) then
    ({ c with injectedSeen := c.injectedSeen + 1 }, ring, false)
  else
    let ev := keyEvent ts msg k
    let swallow := c.swallow (keyIndex k)
    let (keys, changed) := c.keys.apply ev.kind ev.vk ev.scan ev.flags
    let c := { c with keys := keys }
    if changed then
      let (c, ring) := c.publish ring ev
      (c, ring, swallow)
    else (c, ring, swallow)

/-- `static_cast<int16_t>(HIWORD(m.mouseData))`. -/
def wheelDelta (m : MsLlHook) : Int := (m.mouseData >>> 16).toUInt16.toInt16.toInt

/-- The event of a mouse message, for the messages that have one. -/
def mouseEvent (ts : UInt64) (msg : MouseMsg) (m : MsLlHook) : Option InputEvent :=
  let hi := wheelDelta m
  let ev : InputEvent := { ts := ts, x := m.pt.x, y := m.pt.y }
  match msg with
  | .wmLButtonDown => some { ev with kind := .mouseDown, vk := kVkLButton }
  | .wmLButtonUp => some { ev with kind := .mouseUp, vk := kVkLButton }
  | .wmRButtonDown => some { ev with kind := .mouseDown, vk := kVkRButton }
  | .wmRButtonUp => some { ev with kind := .mouseUp, vk := kVkRButton }
  | .wmMButtonDown => some { ev with kind := .mouseDown, vk := kVkMButton }
  | .wmMButtonUp => some { ev with kind := .mouseUp, vk := kVkMButton }
  | .wmXButtonDown => some { ev with kind := .mouseDown, vk := if hi = XBUTTON1 then kVkXButton1 else kVkXButton2 }
  | .wmXButtonUp => some { ev with kind := .mouseUp, vk := if hi = XBUTTON1 then kVkXButton1 else kVkXButton2 }
  | .wmMouseWheel => some { ev with kind := .wheel, x := 0, y := hi }
  | .wmMouseHWheel => some { ev with kind := .wheel, x := hi, y := 0 }
  | .wmMouseMove => some { ev with kind := .mouseMove }
  | .other => none

/-- The mouse hook; mouse events are never swallowed. -/
def onMouse (c : Capture) (ring : EventRing) (ts : UInt64) (msg : MouseMsg) (m : MsLlHook) :
    Capture × EventRing × Bool :=
  if c.ignores m.dwExtraInfo (m.flags &&& LLMHF_INJECTED ≠ 0) then
    ({ c with injectedSeen := c.injectedSeen + 1 }, ring, false)
  else if msg = .wmMouseMove ∧ ¬ c.captureMoves then (c, ring, false)
  else
    match mouseEvent ts msg m with
    | none => (c, ring, false)
    | some ev =>
      let (c, ring) := c.publish ring ev
      (c, ring, false)

/-! ## What a callback publishes -/

/-- The event a keyboard callback publishes: an accepted key that changed the table. -/
def keyPublished (c : Capture) (ts : UInt64) (msg : KeyMsg) (k : KbdLlHook) : Option InputEvent :=
  let ev := keyEvent ts msg k
  if c.ignores k.dwExtraInfo (k.flags &&& LLKHF_INJECTED ≠ 0) then none
  else if (c.keys.applyEvent ev).2 then some ev else none

/-- The event a mouse callback publishes. -/
def mousePublished (c : Capture) (ts : UInt64) (msg : MouseMsg) (m : MsLlHook) : Option InputEvent :=
  if c.ignores m.dwExtraInfo (m.flags &&& LLMHF_INJECTED ≠ 0) then none
  else if msg = .wmMouseMove ∧ ¬ c.captureMoves then none
  else mouseEvent ts msg m

/-- A callback's effect: apply and publish its event, or change no more than
the count of ignored events. -/
inductive Effect (c : Capture) (ring : EventRing) : Option InputEvent → Capture → EventRing → Prop where
  | quiet (n : Nat) : Effect c ring none { c with injectedSeen := n } ring
  | published (ev : InputEvent) (keys : KeyState) (hk : keys = (c.keys.applyEvent ev).1) :
      Effect c ring (some ev) (publish { c with keys := keys } ring ev).1 (publish { c with keys := keys } ring ev).2

theorem onKey_effect (c : Capture) (ring : EventRing) (ts : UInt64) (msg : KeyMsg) (k : KbdLlHook) :
    Effect c ring (c.keyPublished ts msg k) (c.onKey ring ts msg k).1 (c.onKey ring ts msg k).2.1 := by
  unfold onKey keyPublished
  by_cases hi : c.ignores k.dwExtraInfo (k.flags &&& LLKHF_INJECTED ≠ 0) = true
  · simp only [hi, if_true]; exact .quiet _
  · simp only [hi, Bool.false_eq_true, if_false, applyEvent]
    by_cases hc : (c.keys.apply (keyEvent ts msg k).kind (keyEvent ts msg k).vk (keyEvent ts msg k).scan
        (keyEvent ts msg k).flags).2 = true
    · simp only [hc, if_true]; exact .published _ _ rfl
    · simp only [hc, Bool.false_eq_true, if_false]
      rw [apply_of_false (by simpa using hc)]
      exact .quiet c.injectedSeen

theorem mouseEvent_kind {ts : UInt64} {msg : MouseMsg} {m : MsLlHook} {ev : InputEvent}
    (h : mouseEvent ts msg m = some ev) : isKey ev.kind = false := by
  cases msg <;> simp only [mouseEvent, Option.some.injEq, reduceCtorEq] at h <;> subst h <;> rfl

theorem mousePublished_eq {c : Capture} {ts : UInt64} {msg : MouseMsg} {m : MsLlHook} {ev : InputEvent}
    (h : c.mousePublished ts msg m = some ev) : mouseEvent ts msg m = some ev := by
  unfold mousePublished at h
  split at h
  · cases h
  · split at h
    · cases h
    · exact h

theorem mousePublished_kind {c : Capture} {ts : UInt64} {msg : MouseMsg} {m : MsLlHook} {ev : InputEvent}
    (h : c.mousePublished ts msg m = some ev) : isKey ev.kind = false :=
  mouseEvent_kind (mousePublished_eq h)

theorem onMouse_effect (c : Capture) (ring : EventRing) (ts : UInt64) (msg : MouseMsg) (m : MsLlHook) :
    Effect c ring (c.mousePublished ts msg m) (c.onMouse ring ts msg m).1 (c.onMouse ring ts msg m).2.1 := by
  unfold onMouse mousePublished
  by_cases hi : c.ignores m.dwExtraInfo (m.flags &&& LLMHF_INJECTED ≠ 0) = true
  · simp only [hi, if_true]; exact .quiet _
  · simp only [hi, Bool.false_eq_true, if_false]
    by_cases hm : msg = .wmMouseMove ∧ ¬ c.captureMoves
    · simp only [if_pos hm]; exact .quiet c.injectedSeen
    · simp only [if_neg hm]
      cases he : mouseEvent ts msg m with
      | none => exact .quiet c.injectedSeen
      | some ev =>
        refine .published ev c.keys ?_
        rw [applyEvent, apply_of_not_key _ (mouseEvent_kind he)]

/-- What a keyboard callback answers: the swallow table's entry, whether or not
the event was a repeat. -/
theorem onKey_swallow (c : Capture) (ring : EventRing) (ts : UInt64) (msg : KeyMsg) (k : KbdLlHook) :
    (c.onKey ring ts msg k).2.2 =
      (!c.ignores k.dwExtraInfo (k.flags &&& LLKHF_INJECTED ≠ 0) && c.swallow (keyIndex k)) := by
  unfold onKey
  cases hi : c.ignores k.dwExtraInfo (k.flags &&& LLKHF_INJECTED ≠ 0) with
  | true => rfl
  | false =>
    simp only [Bool.false_eq_true, if_false, Bool.not_false, Bool.true_and]
    split <;> rfl

theorem publish_captured_keys (c : Capture) (ring : EventRing) (ev : InputEvent) :
    (publish c ring ev).1.keys = c.keys ∧ (publish c ring ev).1.swallow = c.swallow := by
  unfold publish; dsimp only; split <;> exact ⟨rfl, rfl⟩

theorem publish_dropped (c : Capture) (ring : EventRing) (ev : InputEvent) :
    (publish c ring ev).1.dropped = if (ring.push ev).2 then c.dropped else c.dropped + 1 := by
  unfold publish; dsimp only; split <;> simp_all

/-- A published key event is accepted and changes the table. -/
theorem keyPublished_iff {c : Capture} {ts : UInt64} {msg : KeyMsg} {k : KbdLlHook} {ev : InputEvent} :
    c.keyPublished ts msg k = some ev ↔ c.ignores k.dwExtraInfo (k.flags &&& LLKHF_INJECTED ≠ 0) = false ∧
      ev = keyEvent ts msg k ∧ (c.keys.applyEvent ev).2 = true := by
  unfold keyPublished
  dsimp only
  cases c.ignores k.dwExtraInfo (k.flags &&& LLKHF_INJECTED ≠ 0) with
  | true => simp
  | false =>
    simp only [Bool.false_eq_true, if_false, true_and]
    split
    · next hc =>
      rw [Option.some.injEq]
      exact ⟨fun h => ⟨h.symm, h ▸ hc⟩, fun h => h.1.symm⟩
    · next hc =>
      refine ⟨fun h => (by cases h), ?_⟩
      rintro ⟨rfl, h⟩
      exact absurd h hc

/-! ## The swallow table -/

/-- How `cmd_run` sets the swallow table from the routes. -/
def swallowTable (r : Routes) (c : Capture) : Capture :=
  let c := r.keys.foldl (fun c b => if b.swallow then c.setSwallow b.vk true else c) c
  if r.swapHotkeyVk ≠ 0 then c.setSwallow r.swapHotkeyVk true else c

theorem setSwallow_swallow (c : Capture) (vk : UInt16) (i : Fin 256) :
    (c.setSwallow vk true).swallow i = (c.swallow i || decide (vk = code i)) := by
  unfold setSwallow
  cases hs : slot vk with
  | none =>
    have hne : vk ≠ code i := by rintro rfl; simp at hs
    simp [hne]
  | some j =>
    obtain rfl := slot_eq_some.1 hs
    by_cases hij : i = j
    · subst hij; simp
    · have hne : code j ≠ code i := fun h => hij (code_inj h).symm
      simp [hij, hne]

theorem foldl_setSwallow (keys : List KeyBinding) (c : Capture) (i : Fin 256) :
    (keys.foldl (fun c b => if b.swallow then c.setSwallow b.vk true else c) c).swallow i =
      (c.swallow i || keys.any fun b => b.swallow && b.vk = code i) := by
  induction keys generalizing c with
  | nil => simp
  | cons b keys ih =>
    rw [List.foldl_cons, ih, List.any_cons]
    cases hb : b.swallow with
    | false => simp
    | true => simp [setSwallow_swallow, Bool.or_assoc]

/-- The hook swallows the keys the routes swallow. -/
theorem swallowTable_swallow (r : Routes) (acceptForeign : Bool) (i : Fin 256) :
    (swallowTable r { acceptForeign := acceptForeign }).swallow i = r.swallows (code i) := by
  have hkeys := foldl_setSwallow r.keys { acceptForeign := acceptForeign } i
  rw [Bool.eq_iff_iff, Routes.swallows_iff]
  unfold swallowTable
  by_cases h0 : r.swapHotkeyVk = 0
  · have hne : ¬ (code i = r.swapHotkeyVk ∧ code i ≠ 0) := fun h => h.2 (h.1.trans h0)
    simp only [h0, ne_eq, not_true, if_false, hkeys]
    rw [h0] at hne
    simp only [hne, false_or]
    simp [and_comm]
  · have he : (code i = r.swapHotkeyVk ∧ code i ≠ 0) ↔ r.swapHotkeyVk = code i :=
      ⟨fun h => h.1.symm, fun h => ⟨h.symm, fun hz => h0 (h.trans hz)⟩⟩
    simp only [ne_eq, h0, not_false_eq_true, if_true, setSwallow_swallow, hkeys]
    rw [← ne_eq, he]
    simp [and_comm, or_comm]

end Capture

end MultiMadness
