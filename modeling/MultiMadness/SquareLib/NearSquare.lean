import Mathlib.Algebra.Order.Floor.Div
import Mathlib.Analysis.Real.Sqrt
import Mathlib.Tactic.Linarith
/-!
# Near-square grids

Room for `n` cells in the fewest columns whose square is enough, and in the
fewest rows that do with those columns.

- `ceilSqrt_le`: the columns are the square root of `n`, rounded up.
- `NearSquare.rows_le_cols`, `NearSquare.cols_le_rows`: as many rows as columns
  or one less.
- `NearSquare.area_lt`, `NearSquare.area_mono`: less than one row is empty, and
  more cells never get a smaller area.
- `NearSquare.sides_le`: no grid with room for `n` has shorter sides.
-/

namespace SquareLib

/-! ## The square root, rounded up -/

noncomputable def ceilSqrt (n : ℕ) : ℕ := ⌈√(n : ℝ)⌉₊

theorem ceilSqrt_le {n c : ℕ} : ceilSqrt n ≤ c ↔ n ≤ c * c := by
  rw [ceilSqrt, Nat.ceil_le, Real.sqrt_le_left (Nat.cast_nonneg c), sq]
  exact_mod_cast Iff.rfl

theorem lt_ceilSqrt {n c : ℕ} : c < ceilSqrt n ↔ c * c < n := by
  rw [← Nat.not_le, ceilSqrt_le, Nat.not_le]

theorem isLeast_ceilSqrt (n : ℕ) : IsLeast {c | n ≤ c * c} (ceilSqrt n) :=
  ⟨ceilSqrt_le.1 le_rfl, fun _ h => ceilSqrt_le.2 h⟩

/-! ## Grids -/

structure NearSquare (n rows cols : ℕ) : Prop where
  leastCols : IsLeast {c | n ≤ c * c} cols
  leastRows : IsLeast {r | n ≤ r * cols} rows

theorem nearSquare (n : ℕ) : NearSquare n (n ⌈/⌉ ceilSqrt n) (ceilSqrt n) := by
  refine ⟨isLeast_ceilSqrt n, ?_⟩
  obtain rfl | hn := Nat.eq_zero_or_pos n
  · rw [zero_ceilDiv]
    exact ⟨Nat.zero_le _, fun _ _ => Nat.zero_le _⟩
  · have hc : 0 < ceilSqrt n := lt_ceilSqrt.2 hn
    have hle : ∀ r, n ⌈/⌉ ceilSqrt n ≤ r ↔ n ≤ r * ceilSqrt n := fun r => by
      rw [ceilDiv_le_iff_le_mul hc, Nat.mul_comm]
    exact ⟨(hle _).1 le_rfl, fun r hr => (hle r).2 hr⟩

namespace NearSquare
variable {n m rows cols rows' cols' : ℕ}

theorem unique (h : NearSquare n rows cols) (h' : NearSquare n rows' cols') : rows = rows' ∧ cols = cols' := by
  have hc := h.leastCols.unique h'.leastCols
  subst hc
  exact ⟨h.leastRows.unique h'.leastRows, rfl⟩

theorem fits (h : NearSquare n rows cols) : n ≤ rows * cols := h.leastRows.1

theorem rows_pos (h : NearSquare n rows cols) (hn : 0 < n) : 0 < rows :=
  Nat.pos_of_mul_pos_right (hn.trans_le h.fits)

theorem rows_le_cols (h : NearSquare n rows cols) : rows ≤ cols := h.leastRows.2 h.leastCols.1

/-- With two rows less than columns, one column could be spared. -/
theorem cols_le_rows (h : NearSquare n rows cols) : cols ≤ rows + 1 := by
  by_contra hlt
  obtain ⟨k, rfl⟩ : ∃ k, cols = k + 2 := ⟨cols - 2, by omega⟩
  have hspare : n ≤ (k + 1) * (k + 1) := by
    calc n ≤ rows * (k + 2) := h.fits
      _ ≤ k * (k + 2) := Nat.mul_le_mul_right _ (by omega)
      _ ≤ (k + 1) * (k + 1) := by linarith
  have hk : k + 2 ≤ k + 1 := h.leastCols.2 hspare
  omega

/-- Less than one row is empty. -/
theorem area_lt (h : NearSquare n rows cols) (hn : 0 < n) : rows * cols < n + cols := by
  obtain ⟨r, rfl⟩ := Nat.exists_eq_succ_of_ne_zero (h.rows_pos hn).ne'
  have hr : r * cols < n := by
    by_contra hle
    exact absurd (h.leastRows.2 (Nat.not_lt.1 hle)) (by omega)
  rw [Nat.succ_mul]
  omega

/-- A column more comes only when the square is full. -/
theorem area_mono (h : NearSquare n rows cols) (h' : NearSquare m rows' cols') (hnm : n ≤ m) :
    rows * cols ≤ rows' * cols' := by
  have hc : cols ≤ cols' := h.leastCols.2 (hnm.trans h'.leastCols.1)
  obtain rfl | hlt := hc.eq_or_lt
  · exact Nat.mul_le_mul_right cols (h.leastRows.2 (hnm.trans h'.fits))
  · have hfull : cols * cols < m := by
      by_contra hle
      exact absurd (h'.leastCols.2 (Nat.not_lt.1 hle)) (by omega)
    calc rows * cols ≤ cols * cols := Nat.mul_le_mul_right cols h.rows_le_cols
      _ ≤ m := hfull.le
      _ ≤ rows' * cols' := h'.fits

/-- A grid with room for `n` is no shorter in its longer side, and no shorter
in both sides together. -/
theorem sides_le (h : NearSquare n rows cols) {a b : ℕ} (hab : n ≤ a * b) : cols ≤ max a b ∧ rows + cols ≤ a + b := by
  constructor
  · exact h.leastCols.2 (hab.trans (Nat.mul_le_mul (le_max_left a b) (le_max_right a b)))
  · by_contra hlt
    have hamgm : 4 * a * b ≤ (a + b) ^ 2 := four_mul_le_sq_add a b
    obtain hsq | hone : rows = cols ∨ cols = rows + 1 := by
      have hle := h.rows_le_cols
      have hge := h.cols_le_rows
      omega
    · -- In a square, a row could be spared.
      obtain ⟨k, rfl⟩ : ∃ k, cols = k + 1 := ⟨cols - 1, by omega⟩
      have hsum : (a + b) ^ 2 ≤ (2 * k + 1) ^ 2 := Nat.pow_le_pow_left (by omega) 2
      have hspare : rows ≤ k := h.leastRows.2 (hab.trans (by linarith))
      omega
    · subst hone
      have hsum : (a + b) ^ 2 ≤ (2 * rows) ^ 2 := Nat.pow_le_pow_left (by omega) 2
      have hspare : rows + 1 ≤ rows := h.leastCols.2 (hab.trans (by linarith))
      omega

end NearSquare

end SquareLib
