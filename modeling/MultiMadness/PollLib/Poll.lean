import Mathlib.Data.Nat.Notation
import Mathlib.Tactic.ByContra
/-!
# Polling

A loop that looks for something again and again, and gives up when its time is
over. What it looks at may change between any two looks.

- `poll_eq_some`: it stops at the first look that finds something or is the last.
- `poll_total`: it stops when its time is ever over.
-/

namespace PollLib

variable {β : Type}

/-- Look from the `k`-th time on; the answer has the number of the last look. -/
def poll (look : ℕ → Option β) (late : ℕ → Bool) : ℕ → ℕ → Option (ℕ × Option β)
  | 0, _ => none
  | fuel + 1, k =>
    match look k with
    | some b => some (k, some b)
    | none => if late k then some (k, none) else poll look late fuel (k + 1)

section Poll
variable {look : ℕ → Option β} {late : ℕ → Bool}

/-- The loop goes on after its `i`-th look. -/
def GoesOn (look : ℕ → Option β) (late : ℕ → Bool) (i : ℕ) : Prop := look i = none ∧ late i = false

theorem poll_stop {k : ℕ} (h : ¬ GoesOn look late k) (fuel : ℕ) : poll look late (fuel + 1) k = some (k, look k) := by
  rw [poll]
  cases hl : look k with
  | some b => rfl
  | none => exact if_pos (by_contra fun ho => h ⟨hl, Bool.eq_false_iff.2 ho⟩)

theorem poll_goesOn {k : ℕ} (h : GoesOn look late k) (fuel : ℕ) :
    poll look late (fuel + 1) k = poll look late fuel (k + 1) := by
  rw [poll, h.1, h.2]
  rfl

/-- The loop stops at the first look after which it does not go on. -/
theorem poll_eq_some {fuel k j : ℕ} {r : Option β} : poll look late fuel k = some (j, r) ↔
    (k ≤ j ∧ j < k + fuel) ∧ (∀ i, k ≤ i → i < j → GoesOn look late i) ∧ ¬ GoesOn look late j ∧ r = look j := by
  induction fuel generalizing k with
  | zero =>
    constructor
    · intro h; cases h
    · rintro ⟨⟨h, h'⟩, -⟩; omega
  | succ fuel ih =>
    by_cases hk : GoesOn look late k
    · rw [poll_goesOn hk, ih]
      constructor
      · rintro ⟨⟨h, h'⟩, hall, hj⟩
        refine ⟨⟨by omega, by omega⟩, fun i hi hij => ?_, hj⟩
        rcases Nat.eq_or_lt_of_le hi with rfl | hi
        · exact hk
        · exact hall i hi hij
      · rintro ⟨⟨h, h'⟩, hall, hj⟩
        have hne : k ≠ j := by rintro rfl; exact hj.1 hk
        exact ⟨⟨by omega, by omega⟩, fun i hi hij => hall i (by omega) hij, hj⟩
    · rw [poll_stop hk]
      constructor
      · rintro h
        cases h
        exact ⟨⟨Nat.le_refl _, by omega⟩, fun i hi hij => absurd hi (by omega), hk, rfl⟩
      · rintro ⟨⟨h, h'⟩, hall, -, rfl⟩
        rcases Nat.eq_or_lt_of_le h with rfl | hlt
        · rfl
        · exact absurd (hall k (Nat.le_refl k) hlt) hk

/-- A time that is late some time is enough. -/
theorem poll_total (look : ℕ → Option β) (late : ℕ → Bool) {k n : ℕ} (hk : k ≤ n) (ho : late n = true) {fuel : ℕ} (hf : n < k + fuel) :
    ∃ j r, poll look late fuel k = some (j, r) ∧ j ≤ n := by
  induction fuel generalizing k with
  | zero => omega
  | succ fuel ih =>
    by_cases hg : GoesOn look late k
    · have hne : k ≠ n := by rintro rfl; rw [hg.2] at ho; cases ho
      rw [poll_goesOn hg]
      exact ih (by omega) (by omega)
    · exact ⟨k, look k, poll_stop hg fuel, hk⟩

/-- More fuel does not change the answer. -/
theorem poll_mono {fuel fuel' k : ℕ} {p : ℕ × Option β} (h : poll look late fuel k = some p) (hf : fuel ≤ fuel') :
    poll look late fuel' k = some p := by
  obtain ⟨j, r⟩ := p
  rw [poll_eq_some] at h ⊢
  exact ⟨⟨h.1.1, by omega⟩, h.2⟩

end Poll

end PollLib
