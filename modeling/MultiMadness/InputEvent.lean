import Mathlib.Logic.Basic
/-!
# Input events

`InputEvent` and `EventKind` of `input_event.hpp`. The two fields no code reads
back (`source`, `reserved`) are left out.
-/

namespace MultiMadness

inductive EventKind where
  | none
  | keyDown
  | keyUp
  | mouseMove
  | mouseDown
  | mouseUp
  | wheel
deriving DecidableEq, Repr

/-- `EventFlags`: E0-prefixed scan code. -/
def kExtendedKey : UInt16 := 1
/-- `EventFlags`: `WM_SYSKEY*`, Alt held while the key was pressed. -/
def kSysKey : UInt16 := 8

def kVkLButton : UInt16 := 0x01
def kVkRButton : UInt16 := 0x02
def kVkMButton : UInt16 := 0x04
def kVkXButton1 : UInt16 := 0x05
def kVkXButton2 : UInt16 := 0x06

structure InputEvent where
  ts : UInt64 := 0
  kind : EventKind := .none
  vk : UInt16 := 0
  scan : UInt16 := 0
  flags : UInt16 := 0
  /-- Screen coordinate for mouse events, horizontal delta for a wheel event. -/
  x : Int := 0
  /-- Screen coordinate for mouse events, vertical delta for a wheel event. -/
  y : Int := 0
deriving DecidableEq, Repr

def isKey (k : EventKind) : Bool := k = .keyDown || k = .keyUp

def isMouseButton (k : EventKind) : Bool := k = .mouseDown || k = .mouseUp

theorem isKey_of_isMouseButton {k : EventKind} (h : isMouseButton k = true) : isKey k = false := by
  cases k <;> simp_all [isKey, isMouseButton]

end MultiMadness
