import MultiMadness.FieldLib.Fields
import MultiMadness.Coordinates
import MultiMadness.Handling
/-!
# Posted messages

The `post_*` helpers of `inject.cpp` pack an event into the two parameters of a
window message, and the window procedure takes it apart again. On the other side
of the pipeline the hooks have taken the event from a message of the same kind.

- `keyParam_eq`, `makeParam_eq`: a parameter as a word of fields.
- `key_mirrored`: a posted key reads as the one the hook saw.
- `mouse_mirrored`: a posted click or wheel turn does, at the mapped point.
-/

namespace MultiMadness

open FieldLib KeyState

/-- The messages the helpers post. -/
inductive MsgId where
  | key (m : KeyMsg)
  | mouse (m : MouseMsg)
deriving DecidableEq

structure Message where
  id : MsgId
  wParam : UInt64
  lParam : UInt64
deriving DecidableEq

def MK_LBUTTON : UInt16 := 0x0001
def MK_RBUTTON : UInt16 := 0x0002
def MK_MBUTTON : UInt16 := 0x0010
def MK_XBUTTON1 : UInt16 := 0x0020
def MK_XBUTTON2 : UInt16 := 0x0040

/-- `MAKELPARAM` and `MAKEWPARAM`. -/
def makeParam (lo hi : UInt16) : UInt64 := (lo.toUInt32 ||| hi.toUInt32 <<< 16).toUInt64

def bitAt (n : UInt64) (on : Bool) : UInt64 := if on then 1 <<< n else 0

/-- The `lParam` of a key message: repeat count, scan code, extended key, Alt,
previous state and transition. -/
def keyParam (scan : UInt16) (down : Bool) (flags : UInt16) : UInt64 :=
  let lp : UInt64 := 1
  let lp := lp ||| (scan &&& 0xFF).toUInt64 <<< (16 : UInt64)
  let lp := lp ||| bitAt 24 (flags &&& kExtendedKey ≠ 0) ||| bitAt 29 (flags &&& kSysKey ≠ 0)
  lp ||| (bitAt 30 (!down) ||| bitAt 31 (!down))

/-- `mapVk` is `MapVirtualKeyW` to a scan code. -/
def postKey (mapVk : UInt16 → UInt16) (vk scan : UInt16) (down : Bool) (flags : UInt16) : Message where
  id := .key (if flags &&& kSysKey ≠ 0 then (if down then .wmSysKeyDown else .wmSysKeyUp)
    else (if down then .wmKeyDown else .wmKeyUp))
  wParam := vk.toUInt64
  lParam := keyParam (if scan = 0 then mapVk vk else scan) down flags

def postMouseButton (vk : UInt16) (down : Bool) (clientX clientY : Int) : Option Message :=
  let message (id : MouseMsg) (wParam : UInt64) : Option Message :=
    some ⟨.mouse id, wParam, makeParam (UInt16.ofInt clientX) (UInt16.ofInt clientY)⟩
  if vk = kVkLButton then
    message (if down then .wmLButtonDown else .wmLButtonUp) (if down then MK_LBUTTON else 0).toUInt64
  else if vk = kVkRButton then
    message (if down then .wmRButtonDown else .wmRButtonUp) (if down then MK_RBUTTON else 0).toUInt64
  else if vk = kVkMButton then
    message (if down then .wmMButtonDown else .wmMButtonUp) (if down then MK_MBUTTON else 0).toUInt64
  else if vk = kVkXButton1 then
    message (if down then .wmXButtonDown else .wmXButtonUp) (makeParam (if down then MK_XBUTTON1 else 0) 1)
  else if vk = kVkXButton2 then
    message (if down then .wmXButtonDown else .wmXButtonUp) (makeParam (if down then MK_XBUTTON2 else 0) 2)
  else none

def postWheel (vertical horizontal screenX screenY : Int) : List Message :=
  let lParam := makeParam (UInt16.ofInt screenX) (UInt16.ofInt screenY)
  (if vertical ≠ 0 then [⟨.mouse .wmMouseWheel, makeParam 0 (UInt16.ofInt vertical), lParam⟩] else []) ++
    (if horizontal ≠ 0 then [⟨.mouse .wmMouseHWheel, makeParam 0 (UInt16.ofInt horizontal), lParam⟩] else [])

/-- The `PostMessageW` calls of one call of `inject.hpp`; the `send_*` helpers make none. -/
def messages (mapVk : UInt16 → UInt16) : Output → List (Option Hwnd × Message)
  | .postKey hwnd vk scan down flags => [(hwnd, postKey mapVk vk scan down flags)]
  | .postMouseButton hwnd vk down x y => ((postMouseButton vk down x y).map (hwnd, ·)).toList
  | .postWheel hwnd vertical horizontal x y => (postWheel vertical horizontal x y).map (hwnd, ·)
  | .sendKey .. | .sendMouseButton .. | .sendMouseMoveAbs _ | .sendWheel .. => []

/-! ## The window's side -/

namespace Message

def repeatCount (m : Message) : UInt16 := m.lParam.toUInt16
def scanCode (m : Message) : UInt8 := (m.lParam >>> 16).toUInt8
def extended (m : Message) : Bool := (m.lParam >>> 24) &&& 1 ≠ 0
def altDown (m : Message) : Bool := (m.lParam >>> 29) &&& 1 ≠ 0
def wasDown (m : Message) : Bool := (m.lParam >>> 30) &&& 1 ≠ 0
def released (m : Message) : Bool := (m.lParam >>> 31) &&& 1 ≠ 0

/-- `GET_X_LPARAM` and `GET_Y_LPARAM`. -/
def x (m : Message) : Int := m.lParam.toUInt16.toInt16.toInt
def y (m : Message) : Int := (m.lParam >>> 16).toUInt16.toInt16.toInt

/-- `GET_WHEEL_DELTA_WPARAM`. -/
def delta (m : Message) : Int := (m.wParam >>> 16).toUInt16.toInt16.toInt
/-- `GET_XBUTTON_WPARAM`. -/
def xButton (m : Message) : UInt16 := (m.wParam >>> 16).toUInt16
/-- `GET_KEYSTATE_WPARAM`. -/
def keyState (m : Message) : UInt16 := m.wParam.toUInt16

end Message

/-! ## The parameters as words of fields -/

theorem bit_lt (b : Bool) : b.toNat < 2 ^ 1 := by cases b <;> decide

def keyFields (scan : UInt16) (down : Bool) (flags : UInt16) : List Field :=
  [⟨0, 16, 1, by decide⟩, ⟨16, 8, scan.toNat % 256, Nat.mod_lt _ (by decide)⟩,
    ⟨24, 1, (decide (flags &&& kExtendedKey ≠ 0)).toNat, bit_lt _⟩, ⟨29, 1, (decide (flags &&& kSysKey ≠ 0)).toNat, bit_lt _⟩,
    ⟨30, 1, (!down).toNat, bit_lt _⟩, ⟨31, 1, (!down).toNat, bit_lt _⟩]

theorem bitAt_toNat {n : UInt64} (h : n.toNat < 64) (on : Bool) : (bitAt n on).toNat = on.toNat <<< n.toNat := by
  cases on with
  | false => simp [bitAt]
  | true =>
    simp only [bitAt, if_true, UInt64.toNat_shiftLeft, Bool.toNat_true, UInt64.toNat_one, Nat.mod_eq_of_lt h]
    exact Nat.mod_eq_of_lt (by rw [Nat.one_shiftLeft]; exact Nat.pow_lt_pow_right (by decide) h)

theorem keyParam_eq (scan : UInt16) (down : Bool) (flags : UInt16) :
    (keyParam scan down flags).toNat = pack (keyFields scan down flags) := by
  have hscan : ((scan &&& 0xFF).toUInt64 <<< (16 : UInt64)).toNat = (scan.toNat % 256) <<< 16 := by
    have hand : scan.toNat &&& 255 = scan.toNat % 256 := Nat.and_two_pow_sub_one_eq_mod scan.toNat 8
    have hlt : scan.toNat % 256 < 256 := Nat.mod_lt _ (by decide)
    have h16 : (16 : UInt64).toNat % 64 = 16 := by decide
    have h255 : (0xFF : UInt16).toNat = 255 := by decide
    rw [UInt64.toNat_shiftLeft, UInt16.toNat_toUInt64, UInt16.toNat_and, h16, h255, hand, Nat.shiftLeft_eq]
    exact Nat.mod_eq_of_lt (by omega)
  simp only [keyParam, UInt64.toNat_or, hscan, bitAt_toNat (n := 24) (by decide), bitAt_toNat (n := 29) (by decide),
    bitAt_toNat (n := 30) (by decide), bitAt_toNat (n := 31) (by decide), pack_cons, keyFields, Nat.lor_assoc]
  simp [pack]

def pairFields (lo hi : UInt16) : List Field := [⟨0, 16, lo.toNat, lo.toNat_lt⟩, ⟨16, 16, hi.toNat, hi.toNat_lt⟩]

theorem makeParam_eq (lo hi : UInt16) : (makeParam lo hi).toNat = pack (pairFields lo hi) := by
  have h16 : (16 : UInt32).toNat % 32 = 16 := by decide
  have hmod : hi.toNat <<< 16 % 2 ^ 32 = hi.toNat <<< 16 := by
    have hlt := hi.toNat_lt
    rw [Nat.shiftLeft_eq]
    exact Nat.mod_eq_of_lt (by omega)
  rw [makeParam, UInt32.toNat_toUInt64, UInt32.toNat_or, UInt32.toNat_shiftLeft, UInt16.toNat_toUInt32,
    UInt16.toNat_toUInt32, h16, hmod]
  simp [pack, pairFields]

theorem keyFields_apart (scan : UInt16) (down : Bool) (flags : UInt16) :
    (keyFields scan down flags).Pairwise fun f g => Apart f.pos f.len g ∧ Apart g.pos g.len f := by
  simp [keyFields, Apart]

theorem pairFields_apart (lo hi : UInt16) :
    (pairFields lo hi).Pairwise fun f g => Apart f.pos f.len g ∧ Apart g.pos g.len f := by
  simp [pairFields, Apart]

section Readers
variable (w : UInt64)

theorem low_word : w.toUInt16.toNat = field 0 16 w.toNat := rfl

theorem high_word : (w >>> 16).toUInt16.toNat = field 16 16 w.toNat := by
  rw [UInt64.toNat_toUInt16, UInt64.toNat_shiftRight]
  rfl

theorem third_byte : (w >>> 16).toUInt8.toNat = field 16 8 w.toNat := by
  rw [UInt64.toNat_toUInt8, UInt64.toNat_shiftRight]
  rfl

theorem one_bit {n : UInt64} (h : n.toNat < 64) :
    decide ((w >>> n) &&& 1 ≠ 0) = decide (field n.toNat 1 w.toNat = 1) := by
  have hand : ((w >>> n) &&& 1).toNat = field n.toNat 1 w.toNat := by
    rw [UInt64.toNat_and, UInt64.toNat_shiftRight, Nat.mod_eq_of_lt h, UInt64.toNat_one, Nat.and_one_is_mod]
    rfl
  have hlt : field n.toNat 1 w.toNat < 2 ^ 1 := Nat.mod_lt _ (by decide)
  rw [decide_eq_decide, ne_eq, ← UInt64.toNat_inj, hand, UInt64.toNat_zero]
  omega

end Readers

theorem makeParam_low (lo hi : UInt16) : (makeParam lo hi).toUInt16 = lo := by
  rw [← UInt16.toNat_inj, low_word, makeParam_eq]
  exact field_pack (pairFields_apart lo hi) (f := ⟨0, 16, lo.toNat, lo.toNat_lt⟩) (by simp [pairFields])

theorem makeParam_high (lo hi : UInt16) : (makeParam lo hi >>> 16).toUInt16 = hi := by
  rw [← UInt16.toNat_inj, high_word, makeParam_eq]
  exact field_pack (pairFields_apart lo hi) (f := ⟨16, 16, hi.toNat, hi.toNat_lt⟩) (by simp [pairFields])

/-- A coordinate comes through a 16-bit half reduced to the signed 16-bit range. -/
theorem signed_half (x : Int) : (UInt16.ofInt x).toInt16.toInt = x.bmod 65536 := by
  have hnat : (UInt16.ofInt x).toBitVec.toNat = (x % 65536).toNat := by
    rw [UInt16.toNat_toBitVec, UInt16.ofInt, UInt16.toNat_ofNat']
    exact Nat.mod_eq_of_lt (by omega)
  have hint : (UInt16.ofInt x).toInt16.toInt = (UInt16.ofInt x).toBitVec.toInt := rfl
  rw [hint, BitVec.toInt_eq_toNat_bmod, hnat, Int.toNat_of_nonneg (by omega)]
  exact Int.emod_bmod x 65536

theorem signed_half_of {x : Int} (h : -32768 ≤ x) (h' : x < 32768) : (UInt16.ofInt x).toInt16.toInt = x := by
  rw [signed_half]
  exact Int.bmod_eq_of_le (by omega) (by omega)

/-! ## Keys -/

/-- The window reads a posted key as the hook saw the key's transition. -/
structure KeyMirrored (mapVk : UInt16 → UInt16) (msg : KeyMsg) (k : KbdLlHook) (m : Message) : Prop where
  vk : m.wParam.toNat = k.vkCode.toNat % 256
  /-- The hook's own message, where that one is a system message exactly while Alt is down. -/
  id : (msg = .wmSysKeyDown ∨ msg = .wmSysKeyUp ↔ k.flags &&& LLKHF_ALTDOWN ≠ 0) → m.id = .key msg
  transition : m.released = !Capture.isDownMsg msg ∧ m.wasDown = !Capture.isDownMsg msg
  extended : m.extended = decide (k.flags &&& LLKHF_EXTENDED ≠ 0)
  alt : m.altDown = decide (k.flags &&& LLKHF_ALTDOWN ≠ 0)
  once : m.repeatCount = 1
  scan : 0 < k.scanCode.toNat → k.scanCode.toNat < 256 → m.scanCode.toNat = k.scanCode.toNat
  /-- A key without a scan code gets the one of the keyboard layout. -/
  mapped : k.scanCode = 0 → m.scanCode = (mapVk (code (Capture.keyIndex k))).toUInt8

theorem keyFlags_bits (k : KbdLlHook) :
    (Capture.keyFlags k &&& kExtendedKey ≠ 0 ↔ k.flags &&& LLKHF_EXTENDED ≠ 0) ∧
      (Capture.keyFlags k &&& kSysKey ≠ 0 ↔ k.flags &&& LLKHF_ALTDOWN ≠ 0) := by
  unfold Capture.keyFlags
  by_cases he : k.flags &&& LLKHF_EXTENDED = 0 <;> by_cases ha : k.flags &&& LLKHF_ALTDOWN = 0 <;> simp [he, ha] <;> decide

theorem field_key (scan : UInt16) (down : Bool) (flags : UInt16) {f : Field} (h : f ∈ keyFields scan down flags) :
    field f.pos f.len (keyParam scan down flags).toNat = f.value := by
  rw [keyParam_eq]
  exact field_pack (keyFields_apart scan down flags) h

/-- What a window reads out of the `lParam` of a posted key. -/
theorem read_key (mapVk : UInt16 → UInt16) (vk scan : UInt16) (down : Bool) (flags : UInt16) :
    let m := postKey mapVk vk scan down flags
    m.repeatCount = 1 ∧ m.scanCode = (if scan = 0 then mapVk vk else scan).toUInt8 ∧
      m.extended = decide (flags &&& kExtendedKey ≠ 0) ∧ m.altDown = decide (flags &&& kSysKey ≠ 0) ∧
      m.wasDown = !down ∧ m.released = !down := by
  dsimp only
  generalize hs : (if scan = 0 then mapVk vk else scan) = s
  have hp : (postKey mapVk vk scan down flags).lParam = keyParam s down flags := by rw [← hs]; rfl
  have hbit : ∀ {n : UInt64} (on : Bool) (hn : n.toNat < 64), ⟨n.toNat, 1, on.toNat, bit_lt on⟩ ∈ keyFields s down flags →
      decide ((keyParam s down flags >>> n) &&& 1 ≠ 0) = on := by
    intro n on hn hf
    rw [one_bit _ hn, field_key s down flags hf]
    cases on <;> rfl
  refine ⟨?_, ?_, ?_, ?_, ?_, ?_⟩
  · rw [Message.repeatCount, hp, ← UInt16.toNat_inj, low_word]
    exact field_key s down flags (f := ⟨0, 16, 1, by decide⟩) (by simp [keyFields])
  · rw [Message.scanCode, hp, ← UInt8.toNat_inj, third_byte, UInt16.toNat_toUInt8]
    exact field_key s down flags (f := ⟨16, 8, s.toNat % 256, Nat.mod_lt _ (by decide)⟩) (by simp [keyFields])
  · rw [Message.extended, hp]
    exact hbit _ (by decide) (by simp [keyFields])
  · rw [Message.altDown, hp]
    exact hbit _ (by decide) (by simp [keyFields])
  · rw [Message.wasDown, hp]
    exact hbit _ (by decide) (by simp [keyFields])
  · rw [Message.released, hp]
    exact hbit _ (by decide) (by simp [keyFields])

theorem keyIndex_toNat (k : KbdLlHook) : (code (Capture.keyIndex k)).toUInt64.toNat = k.vkCode.toNat % 256 := by
  have hand : k.vkCode.toNat &&& 255 = k.vkCode.toNat % 256 := Nat.and_two_pow_sub_one_eq_mod k.vkCode.toNat 8
  have hidx : (Capture.keyIndex k).val = k.vkCode.toNat % 256 := by
    change ((k.vkCode &&& 0xFF).toNat) % 256 = _
    rw [UInt32.toNat_and, show (0xFF : UInt32).toNat = 255 from rfl, hand, Nat.mod_mod]
  have hlt := (Capture.keyIndex k).isLt
  rw [UInt16.toNat_toUInt64, code, UInt16.toNat_ofNat', hidx]
  exact Nat.mod_eq_of_lt (by omega)

/-- Key down and key up are told apart by the transition, plain and system messages by Alt. -/
theorem postKey_id {flags : UInt16} {msg : KeyMsg} (h : msg = .wmSysKeyDown ∨ msg = .wmSysKeyUp ↔ flags &&& kSysKey ≠ 0)
    (mapVk : UInt16 → UInt16) (vk scan : UInt16) :
    (postKey mapVk vk scan (Capture.isDownMsg msg) flags).id = .key msg := by
  unfold postKey
  by_cases hs : flags &&& kSysKey ≠ 0
  · rw [if_pos hs]
    obtain rfl | rfl := h.2 hs <;> rfl
  · rw [if_neg hs]
    cases msg with
    | wmKeyDown => rfl
    | wmKeyUp => rfl
    | wmSysKeyDown => exact absurd (h.1 (.inl rfl)) hs
    | wmSysKeyUp => exact absurd (h.1 (.inr rfl)) hs

theorem key_mirrored (mapVk : UInt16 → UInt16) (b : Broadcaster) (env : Env) (t : Nat) (ts : UInt64) (msg : KeyMsg)
    (k : KbdLlHook) :
    ∃ m, (b.postOutputs env t (Capture.keyEvent ts msg k)).flatMap (messages mapVk) = [(b.hwndOf t, m)] ∧
      KeyMirrored mapVk msg k m := by
  have hdown : decide ((Capture.keyEvent ts msg k).kind = .keyDown) = Capture.isDownMsg msg := by
    cases msg <;> rfl
  refine ⟨postKey mapVk (code (Capture.keyIndex k)) k.scanCode.toUInt16 (Capture.isDownMsg msg) (Capture.keyFlags k), ?_, ?_⟩
  · rw [Broadcaster.postOutputs, if_pos (Capture.keyEvent_isKey ts msg k), hdown]
    rfl
  · obtain ⟨honce, hscan, hext, halt, hwas, hrel⟩ := read_key mapVk (code (Capture.keyIndex k)) k.scanCode.toUInt16
      (Capture.isDownMsg msg) (Capture.keyFlags k)
    obtain ⟨hbe, hba⟩ := keyFlags_bits k
    refine ⟨?_, ?_, ⟨hrel, hwas⟩, ?_, ?_, honce, ?_, ?_⟩
    · exact keyIndex_toNat k
    · intro hsys
      rw [← hba] at hsys
      exact postKey_id hsys mapVk _ _
    · rw [hext, decide_eq_decide]
      exact hbe
    · rw [halt, decide_eq_decide]
      exact hba
    · intro h0 h256
      have hword : k.scanCode.toUInt16.toNat = k.scanCode.toNat := by
        rw [UInt32.toNat_toUInt16]
        exact Nat.mod_eq_of_lt (by omega)
      have hne : k.scanCode.toUInt16 ≠ 0 := by
        rw [ne_eq, ← UInt16.toNat_inj, hword, UInt16.toNat_zero]
        omega
      rw [hscan, if_neg hne, UInt16.toNat_toUInt8, hword]
      exact Nat.mod_eq_of_lt h256
    · intro h0
      rw [hscan, h0]
      rfl

/-! ## Clicks and wheel turns -/

/-- What a button message tells of the buttons held down: the one just pressed. -/
def pressedBits (msg : MouseMsg) (hi : Int) : UInt16 :=
  match msg with
  | .wmLButtonDown => MK_LBUTTON
  | .wmRButtonDown => MK_RBUTTON
  | .wmMButtonDown => MK_MBUTTON
  | .wmXButtonDown => if hi = XBUTTON1 then MK_XBUTTON1 else MK_XBUTTON2
  | _ => 0

/-- The window whose client area is `client` reads a posted click as the hook saw it in the master's. -/
structure ButtonMirrored (master client : Rect) (msg : MouseMsg) (m : MsLlHook) (w : Message) : Prop where
  id : w.id = .mouse msg
  xButton : msg = .wmXButtonDown ∨ msg = .wmXButtonUp → w.xButton = if Capture.wheelDelta m = XBUTTON1 then 1 else 2
  pressed : w.keyState = pressedBits msg (Capture.wheelDelta m)
  /-- A coordinate has sixteen bits. -/
  point : w.x = ((mapPoint master client m.pt.x m.pt.y).x - client.x).bmod 65536 ∧
    w.y = ((mapPoint master client m.pt.x m.pt.y).y - client.y).bmod 65536
  /-- They are enough for the client areas of real screens. -/
  inside : 0 < master.w → 0 < master.h → 0 < client.w ∧ client.w ≤ 32768 → 0 < client.h ∧ client.h ≤ 32768 →
    mapPoint master client m.pt.x m.pt.y = ⟨client.x + w.x, client.y + w.y⟩ ∧
      client.contains (client.x + w.x) (client.y + w.y) = true

/-- The message posted for a captured button. -/
theorem read_button {ts : UInt64} {msg : MouseMsg} {m : MsLlHook} {ev : InputEvent}
    (h : Capture.mouseEvent ts msg m = some ev) (hb : isMouseButton ev.kind = true) (x y : Int) :
    ∃ w, postMouseButton ev.vk (ev.kind = .mouseDown) x y = some w ∧ w.id = .mouse msg ∧
      w.lParam = makeParam (UInt16.ofInt x) (UInt16.ofInt y) ∧ w.keyState = pressedBits msg (Capture.wheelDelta m) ∧
      (msg = .wmXButtonDown ∨ msg = .wmXButtonUp → w.xButton = if Capture.wheelDelta m = XBUTTON1 then 1 else 2) := by
  unfold Capture.mouseEvent at h
  cases msg with
  | wmLButtonDown | wmLButtonUp | wmRButtonDown | wmRButtonUp | wmMButtonDown | wmMButtonUp =>
    cases h
    exact ⟨_, rfl, rfl, rfl, rfl, by simp⟩
  | wmXButtonDown | wmXButtonUp =>
    cases h
    dsimp only [pressedBits]
    by_cases hx : Capture.wheelDelta m = XBUTTON1
    · simp only [if_pos hx]
      exact ⟨_, rfl, rfl, rfl, makeParam_low _ _, fun _ => makeParam_high _ _⟩
    · simp only [if_neg hx]
      exact ⟨_, rfl, rfl, rfl, makeParam_low _ _, fun _ => makeParam_high _ _⟩
  | wmMouseWheel | wmMouseHWheel | wmMouseMove => cases h; cases hb
  | other => cases h

theorem message_point {x y : Int} {w : Message} (h : w.lParam = makeParam (UInt16.ofInt x) (UInt16.ofInt y)) :
    w.x = x.bmod 65536 ∧ w.y = y.bmod 65536 := by
  rw [Message.x, Message.y, h, makeParam_low, makeParam_high]
  exact ⟨signed_half x, signed_half y⟩

theorem button_inside {master client : Rect} {x y wx wy : Int} (hmw : 0 < master.w) (hmh : 0 < master.h)
    (hw : 0 < client.w ∧ client.w ≤ 32768) (hh : 0 < client.h ∧ client.h ≤ 32768)
    (hx : wx = ((mapPoint master client x y).x - client.x).bmod 65536)
    (hy : wy = ((mapPoint master client x y).y - client.y).bmod 65536) :
    mapPoint master client x y = ⟨client.x + wx, client.y + wy⟩ ∧ client.contains (client.x + wx) (client.y + wy) = true := by
  rw [mapPoint_eq hmw hmh hw.1 hh.1] at hx hy ⊢
  dsimp only at hx hy
  have hxm : client.x ≤ mapAxis master.x master.w client.x client.w x ∧
      mapAxis master.x master.w client.x client.w x < client.x + client.w := mapAxis_mem _ _ _ hw.1
  have hym : client.y ≤ mapAxis master.y master.h client.y client.h y ∧
      mapAxis master.y master.h client.y client.h y < client.y + client.h := mapAxis_mem _ _ _ hh.1
  rw [Int.bmod_eq_of_le (by omega) (by omega)] at hx hy
  rw [hx, hy, add_sub_cancel, add_sub_cancel]
  exact ⟨rfl, Rect.contains_iff.2 ⟨hxm, hym⟩⟩

/-- The message of a posted wheel turn. -/
structure WheelMirrored (master client : Rect) (msg : MouseMsg) (m : MsLlHook) (ev : InputEvent) (w : Message) : Prop where
  id : w.id = .mouse msg
  delta : w.delta = Capture.wheelDelta m
  keyState : w.keyState = 0
  /-- The event of a wheel has its turn in `x` and `y`, so the point is not the cursor's. -/
  point : w.x = (mapPoint master client ev.x ev.y).x.bmod 65536 ∧ w.y = (mapPoint master client ev.x ev.y).y.bmod 65536

theorem wheelDelta_range (m : MsLlHook) : -32768 ≤ Capture.wheelDelta m ∧ Capture.wheelDelta m < 32768 :=
  ⟨Int16.le_toInt _, Int16.toInt_lt _⟩

theorem message_delta {d : Int} {w : Message} (h : w.wParam = makeParam 0 (UInt16.ofInt d)) (hd : -32768 ≤ d ∧ d < 32768) :
    w.delta = d ∧ w.keyState = 0 := by
  rw [Message.delta, Message.keyState, h, makeParam_low, makeParam_high]
  exact ⟨signed_half_of hd.1 hd.2, rfl⟩

/-- The messages posted for a captured wheel turn. -/
theorem read_wheel {ts : UInt64} {msg : MouseMsg} {m : MsLlHook} {ev : InputEvent}
    (h : Capture.mouseEvent ts msg m = some ev) (hw : ev.kind = .wheel) (x y : Int) :
    if Capture.wheelDelta m = 0 then postWheel ev.y ev.x x y = [] else
      ∃ w, postWheel ev.y ev.x x y = [w] ∧ w.id = .mouse msg ∧ w.delta = Capture.wheelDelta m ∧ w.keyState = 0 ∧
        w.lParam = makeParam (UInt16.ofInt x) (UInt16.ofInt y) := by
  have hd := wheelDelta_range m
  unfold Capture.mouseEvent at h
  cases msg with
  | wmMouseWheel | wmMouseHWheel =>
    cases h
    split
    · next h0 => simp [postWheel, h0]
    · next h0 =>
      refine ⟨_, by simp only [postWheel, ne_eq, h0, not_false_eq_true, if_true, not_true, if_false]; rfl, rfl, ?_⟩
      obtain ⟨hdelta, hstate⟩ := message_delta (w := ⟨_, _, makeParam (UInt16.ofInt x) (UInt16.ofInt y)⟩) rfl hd
      exact ⟨hdelta, hstate, rfl⟩
  | wmLButtonDown | wmLButtonUp | wmRButtonDown | wmRButtonUp | wmMButtonDown | wmMButtonUp | wmXButtonDown
  | wmXButtonUp | wmMouseMove => cases h; cases hw
  | other => cases h

/-- Every mouse event of the hook that is posted: a button and a wheel turn
arrive as the message they were, a move and an empty turn do not. -/
theorem mouse_mirrored (mapVk : UInt16 → UInt16) (b : Broadcaster) (env : Env) (t : Nat) (ts : UInt64) (msg : MouseMsg)
    (m : MsLlHook) (ev : InputEvent) (h : Capture.mouseEvent ts msg m = some ev) :
    let posted := (b.postOutputs env t ev).flatMap (messages mapVk)
    (isMouseButton ev.kind = true →
      ∃ w, posted = [(b.hwndOf t, w)] ∧ ButtonMirrored (b.clientOf env b.master) (b.clientOf env t) msg m w) ∧
    (ev.kind = .wheel → if Capture.wheelDelta m = 0 then posted = [] else
      ∃ w, posted = [(b.hwndOf t, w)] ∧ WheelMirrored (b.clientOf env b.master) (b.clientOf env t) msg m ev w) ∧
    (ev.kind = .mouseMove → posted = []) := by
  have hk := Capture.mouseEvent_kind h
  dsimp only
  refine ⟨?_, ?_, ?_⟩
  · intro hb
    have hpt : ev.x = m.pt.x ∧ ev.y = m.pt.y := by
      unfold Capture.mouseEvent at h
      cases msg <;> cases h <;> first | exact ⟨rfl, rfl⟩ | cases hb
    obtain ⟨w, hw, hid, hl, hstate, hx⟩ := read_button h hb ((b.mapped env t ev.x ev.y).x - (b.clientOf env t).x)
      ((b.mapped env t ev.x ev.y).y - (b.clientOf env t).y)
    obtain ⟨hwx, hwy⟩ := message_point hl
    rw [mapped_eq, hpt.1, hpt.2] at hwx hwy
    refine ⟨w, ?_, hid, hx, hstate, ⟨hwx, hwy⟩, fun hmw hmh hcw hch => button_inside hmw hmh hcw hch hwx hwy⟩
    simp [Broadcaster.postOutputs, hk, hb, messages, hw]
  · intro hw
    have hposted : (b.postOutputs env t ev).flatMap (messages mapVk) =
        (postWheel ev.y ev.x (b.mapped env t ev.x ev.y).x (b.mapped env t ev.x ev.y).y).map (b.hwndOf t, ·) := by
      simp [Broadcaster.postOutputs, hw, isKey, isMouseButton, messages]
    have hread := read_wheel h hw (b.mapped env t ev.x ev.y).x (b.mapped env t ev.x ev.y).y
    rw [hposted]
    split at hread
    · next h0 => rw [if_pos h0, hread, List.map_nil]
    · next h0 =>
      obtain ⟨w, hw, hid, hdelta, hstate, hl⟩ := hread
      rw [if_neg h0, hw]
      exact ⟨w, rfl, hid, hdelta, hstate, message_point hl⟩
  · intro hm
    simp [Broadcaster.postOutputs, hm, isKey, isMouseButton]

def halfSize : Env where
  clientRect h := if h = some 1 then ⟨0, 0, 1280, 720⟩ else ⟨1280, 0, 640, 360⟩

def halfSizeClients : Broadcaster := { targets := [{ hwnd := some 1 }, { hwnd := some 2 }] }

/-- The first side button, pressed in the middle of a master of twice the slave's size. -/
theorem mouse_mirrored_side :
    ∃ w, (halfSizeClients.postOutputs halfSize 1 { kind := .mouseDown, vk := kVkXButton1, x := 640, y := 360 }).flatMap
        (messages fun vk => vk) = [(some 2, w)] ∧
      ButtonMirrored ⟨0, 0, 1280, 720⟩ ⟨1280, 0, 640, 360⟩ .wmXButtonDown { pt := ⟨640, 360⟩, mouseData := 0x10000 } w :=
  (mouse_mirrored (fun vk => vk) halfSizeClients halfSize 1 0 .wmXButtonDown { pt := ⟨640, 360⟩, mouseData := 0x10000 }
    { kind := .mouseDown, vk := kVkXButton1, x := 640, y := 360 } (by decide)).1 rfl

end MultiMadness
