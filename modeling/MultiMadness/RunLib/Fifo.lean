import MultiMadness.RunLib.Runs
/-!
# A bounded queue

`Fifo α cap` holds at most `cap` items, first in first out. `FifoStep` is the
queue as a system with its history: what was ever accepted, what was ever
taken, and how many pushes were rejected. `history_split` says nothing is
lost, repeated or reordered.
-/

namespace RunLib

variable {α : Type} {cap : Nat}

/-- At most `cap` items, oldest first. -/
structure Fifo (α : Type) (cap : Nat) where
  items : List α
  bounded : items.length ≤ cap

namespace Fifo

theorem ext {q r : Fifo α cap} (h : q.items = r.items) : q = r := by
  cases q; cases r; cases h; rfl

def empty : Fifo α cap := ⟨[], Nat.zero_le _⟩

theorem length_push_le {items : List α} {x : α} (h : items.length < cap) : (items ++ [x]).length ≤ cap := by
  rw [List.length_append]
  exact h

/-- Append `x`, or report `false` and change nothing when the queue is full. -/
def push (q : Fifo α cap) (x : α) : Fifo α cap × Bool :=
  if h : q.items.length < cap then (⟨q.items ++ [x], length_push_le h⟩, true) else (q, false)

/-- Take the oldest item. -/
def pop : Fifo α cap → Option (α × Fifo α cap)
  | ⟨[], _⟩ => none
  | ⟨x :: xs, h⟩ => some (x, ⟨xs, Nat.le_of_succ_le h⟩)

@[simp] theorem empty_items : (empty : Fifo α cap).items = [] := rfl

theorem push_items (q : Fifo α cap) (x : α) :
    (q.push x).1.items = if (q.push x).2 then q.items ++ [x] else q.items := by
  unfold push; split <;> rfl

theorem push_ok (q : Fifo α cap) (x : α) : (q.push x).2 = decide (q.items.length < cap) := by
  unfold push; split <;> simp_all

theorem pop_eq_some {q r : Fifo α cap} {x : α} : q.pop = some (x, r) ↔ q.items = x :: r.items := by
  rcases q with ⟨_ | ⟨y, ys⟩, h⟩
  · simp [pop]
  · simp only [pop, Option.some.injEq, Prod.mk.injEq, List.cons.injEq]
    exact ⟨fun ⟨a, b⟩ => ⟨a, b ▸ rfl⟩, fun ⟨a, b⟩ => ⟨a, ext b⟩⟩

theorem pop_eq_none {q : Fifo α cap} : q.pop = none ↔ q.items = [] := by
  rcases q with ⟨_ | ⟨y, ys⟩, h⟩ <;> simp [pop]

end Fifo

/-! ## The queue with its history -/

/-- The queue, and everything it accepted, gave out and rejected so far. -/
structure FifoHistory (α : Type) (cap : Nat) where
  queue : Fifo α cap
  accepted : List α
  taken : List α
  rejected : Nat

inductive FifoStep (α : Type) where
  | push (x : α)
  | reject
  | pop
  | popEmpty

/-- A push is rejected only by a full queue, and only an empty one has nothing to give. -/
def fifoStep (s : FifoHistory α cap) : FifoStep α → Option (FifoHistory α cap)
  | .push x =>
    if (s.queue.push x).2 then some { s with queue := (s.queue.push x).1, accepted := s.accepted ++ [x] } else none
  | .reject => if s.queue.items.length = cap then some { s with rejected := s.rejected + 1 } else none
  | .pop =>
    match s.queue.pop with
    | some (x, q) => some { s with queue := q, taken := s.taken ++ [x] }
    | none => none
  | .popEmpty => if s.queue.items = [] then some s else none

def FifoHistory.init : FifoHistory α cap := ⟨.empty, [], [], 0⟩

theorem fifoStep_split {s t : FifoHistory α cap} {l : FifoStep α} (hi : s.accepted = s.taken ++ s.queue.items)
    (h : fifoStep s l = some t) : t.accepted = t.taken ++ t.queue.items := by
  cases l with
  | push x =>
    simp only [fifoStep, Option.ite_none_right_eq_some, Option.some.injEq] at h
    obtain ⟨hok, rfl⟩ := h
    simp [Fifo.push_items, hok, hi]
  | reject =>
    simp only [fifoStep, Option.ite_none_right_eq_some, Option.some.injEq] at h
    obtain ⟨-, rfl⟩ := h
    exact hi
  | pop =>
    simp only [fifoStep] at h
    split at h
    · next x q hp =>
      cases h
      simp [hi, Fifo.pop_eq_some.1 hp]
    · cases h
  | popEmpty =>
    simp only [fifoStep, Option.ite_none_right_eq_some, Option.some.injEq] at h
    obtain ⟨-, rfl⟩ := h
    exact hi

/-- What was accepted is what was taken followed by what is still queued. -/
theorem history_split {t : FifoHistory α cap} {ls : List (FifoStep α)}
    (h : run fifoStep FifoHistory.init ls = some t) : t.accepted = t.taken ++ t.queue.items :=
  run_inv (fun s => s.accepted = s.taken ++ s.queue.items) (fun _ _ _ => fifoStep_split) rfl h

end RunLib
