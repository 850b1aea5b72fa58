import Mathlib.Data.List.Basic
/-!
# Latches

A latch takes the first event that sets it and holds it until an event that does
not. A history is a list of events, the newest first.

- `latched_cons`: what one more event does to it.
- `isSome_latched`: it holds something exactly when the newest event sets it.
-/

namespace LatchLib

variable {E : Type} (sets : E → Bool)

/-- The first event of the newest unbroken stretch of events that set. -/
def latched (es : List E) : Option E := (es.takeWhile sets).getLast?

def latch (held : Option E) (e : E) : Option E := if sets e then some (held.getD e) else none

theorem latched_cons (e : E) (es : List E) : latched sets (e :: es) = latch sets (latched sets es) e := by
  unfold latched latch
  rw [List.takeWhile_cons]
  split
  · rw [List.getLast?_cons]
  · rfl

theorem isSome_latched (es : List E) : (latched sets es).isSome = es.head?.any sets := by
  cases es with
  | nil => rfl
  | cons e es =>
    rw [latched_cons, latch, List.head?_cons, Option.any_some]
    cases sets e <;> rfl

end LatchLib
