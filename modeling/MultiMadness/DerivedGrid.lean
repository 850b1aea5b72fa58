import MultiMadness.SquareLib.NearSquare
import MultiMadness.Layout
/-!
# The derived grid

- `growCols_eq`, `deriveGrid_eq`: the loop ends at the square root of the number
  of cells, rounded up, unless `cols` overflows before.
- `derived_grid`: the derived grid is near-square and never shrinks as `n` grows.
- `derived_smallest`: no grid with a cell for every slot has shorter sides.
-/

namespace MultiMadness

open SquareLib

/-- The loop goes on exactly as long as `cols` is below the root. -/
theorem growCols_eq {n : Nat} (room : Nat) {cols : Nat} (h : cols ≤ ceilSqrt n) :
    growCols n room cols = if ceilSqrt n ≤ cols + room then some (ceilSqrt n) else none := by
  induction room generalizing cols with
  | zero =>
    rw [growCols]
    simp only [← lt_ceilSqrt, Nat.add_zero]
    split
    · next hlt => rw [if_neg (Nat.not_le.2 hlt)]
    · next hge => rw [if_pos (Nat.not_lt.1 hge), Nat.le_antisymm h (Nat.not_lt.1 hge)]
  | succ room ih =>
    rw [growCols]
    simp only [← lt_ceilSqrt]
    split
    · next hlt => rw [ih hlt, Nat.succ_add_eq_add_succ]
    · next hge =>
      have hroot : ceilSqrt n = cols := Nat.le_antisymm (Nat.not_lt.1 hge) h
      rw [hroot, if_pos (Nat.le_add_right cols _)]

/-- Nothing wraps around: the derived grid is the root and the rows it leaves,
and it is undefined where the root is no `int`. -/
theorem deriveGrid_eq (n : Nat) : deriveGrid n =
    if ceilSqrt n ≤ 2147483647 then some (((n ⌈/⌉ ceilSqrt n : Nat) : Int), (ceilSqrt n : Int)) else none := by
  obtain rfl | hn := Nat.eq_zero_or_pos n
  · have h0 : ceilSqrt 0 = 0 := Nat.le_zero.1 (ceilSqrt_le.2 (Nat.zero_le _))
    rw [h0]
    rfl
  · have hc0 : 0 < ceilSqrt n := lt_ceilSqrt.2 hn
    have hrows : n ⌈/⌉ ceilSqrt n ≤ ceilSqrt n := (nearSquare n).rows_le_cols
    rw [deriveGrid, if_neg (by omega), growCols_eq 2147483646 hc0]
    by_cases hc : ceilSqrt n ≤ 2147483647
    · have hsq : n ≤ 2147483647 * 2147483647 := ceilSqrt_le.1 hc
      have hsize : toSize ((n : Int) + ceilSqrt n - 1) = n + ceilSqrt n - 1 := by
        unfold toSize
        omega
      rw [if_pos (by omega), if_pos hc]
      simp only [Option.bind_eq_bind, Option.bind_some, hsize, ← Nat.ceilDiv_eq_add_pred_div]
      rw [toInt32_of (by omega) (by omega)]
      rfl
    · rw [if_neg (by omega), if_neg hc]
      rfl

theorem deriveGrid_eq_some {n : Nat} {g : Int × Int} : deriveGrid n = some g ↔
    ∃ rows cols : Nat, NearSquare n rows cols ∧ cols ≤ 2147483647 ∧ g = ((rows : Int), (cols : Int)) := by
  rw [deriveGrid_eq]
  constructor
  · intro h
    split at h
    · next hc =>
      cases h
      exact ⟨_, _, nearSquare n, hc, rfl⟩
    · cases h
  · rintro ⟨rows, cols, hs, hc, rfl⟩
    obtain ⟨rfl, rfl⟩ := hs.unique (nearSquare n)
    rw [if_pos hc]

/-- A grid for `n` cells: square or one row short of it, with less than a row
empty, and no larger than the grid of a larger count. -/
structure PromisedGrid (n rows cols : Nat) : Prop where
  least : NearSquare n rows cols
  rows_pos : 1 ≤ rows
  rows_le : rows ≤ cols
  cols_le : cols ≤ rows + 1
  fits : n ≤ rows * cols
  tight : rows * cols < n + cols
  grows : ∀ m g, n ≤ m → deriveGrid m = some g → (rows : Int) * cols ≤ g.1 * g.2

/-- As long as the root of `n`, rounded up, is an `int`, the loop of
`derive_grid` ends and its grid is as promised. -/
theorem derived_grid (n : Nat) (h1 : 1 ≤ n) (hn : ⌈√(n : ℝ)⌉₊ ≤ 2147483647) :
    ∃ rows cols : Nat, deriveGrid n = some ((rows : Int), (cols : Int)) ∧ PromisedGrid n rows cols := by
  have h := nearSquare n
  refine ⟨_, _, deriveGrid_eq_some.2 ⟨_, _, h, hn, rfl⟩, h, h.rows_pos h1, h.rows_le_cols, h.cols_le_rows, h.fits,
    h.area_lt h1, ?_⟩
  intro m g hnm hg
  obtain ⟨rows, cols, hm, -, rfl⟩ := deriveGrid_eq_some.1 hg
  dsimp only
  exact_mod_cast h.area_mono hm hnm

/-- Five slots: two rows of three, one cell empty. -/
theorem derived_grid_five : deriveGrid 5 = some (2, 3) ∧
    ∃ rows cols : Nat, deriveGrid 5 = some ((rows : Int), (cols : Int)) ∧ PromisedGrid 5 rows cols :=
  ⟨by decide +kernel, derived_grid 5 (by decide) (ceilSqrt_le.2 (by decide))⟩

/-- The smallest grid that fits `n` cells: every other one is as long in its
longer side and in both sides together. -/
theorem derived_smallest {n rows cols : Nat} (h : deriveGrid n = some ((rows : Int), (cols : Int))) {a b : Nat}
    (hab : n ≤ a * b) : cols ≤ max a b ∧ rows + cols ≤ a + b := by
  obtain ⟨rows', cols', hs, -, he⟩ := deriveGrid_eq_some.1 h
  simp only [Prod.mk.injEq, Nat.cast_inj] at he
  obtain ⟨rfl, rfl⟩ := he
  exact hs.sides_le hab

/-- Five slots would fit into one row, which is longer. -/
theorem derived_smallest_five : 3 ≤ max 1 5 ∧ 2 + 3 ≤ 1 + 5 :=
  derived_smallest (show deriveGrid 5 = some (((2 : Nat) : Int), ((3 : Nat) : Int)) by decide +kernel) (by decide)

end MultiMadness
