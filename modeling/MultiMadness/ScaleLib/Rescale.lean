import Mathlib.Algebra.Order.Round
import Mathlib.Tactic.FieldSimp
import Mathlib.Tactic.Linarith
import Mathlib.Tactic.Positivity
/-!
# Rescaling by rounding

A whole number of steps of one scale, rounded to the nearest step of another.

- `round_rescale`: from a scale to one that is not coarser and back nothing is
  lost.
- `round_share`: a share of `w` steps is one of `0..w`.
-/

namespace ScaleLib

variable {K : Type} [Field K] [LinearOrder K] [IsStrictOrderedRing K] [FloorRing K]

theorem round_mono {x y : K} (h : x ≤ y) : round x ≤ round y := by
  rw [round_eq, round_eq]
  exact Int.floor_mono (by linarith)

/-- The steps nearest to a fraction of `w` steps are among the `w + 1`. -/
theorem round_share {u : K} (h0 : 0 ≤ u) (h1 : u ≤ 1) {w : ℤ} (hw : 0 ≤ w) :
    0 ≤ round (u * w) ∧ round (u * w) ≤ w := by
  have hwq : (0 : K) ≤ w := by exact_mod_cast hw
  refine ⟨?_, ?_⟩
  · have h := round_mono (mul_nonneg h0 hwq)
    rwa [round_zero] at h
  · have h := round_mono (mul_le_of_le_one_left hwq h1)
    rwa [round_intCast] at h

/-- The step of the finer scale nearest to `d` is nearest to `d` alone. -/
theorem round_rescale {m M : ℤ} (hm : 0 < m) (h : m ≤ M) (d : ℤ) :
    round ((round ((d : K) / m * M) : K) * m / M) = d := by
  have hmq : (0 : K) < m := by exact_mod_cast hm
  rcases h.eq_or_lt with rfl | hlt
  · rw [div_mul_cancel₀ _ hmq.ne', round_intCast, mul_div_assoc, div_self hmq.ne', mul_one, round_intCast]
  · have hMq : (m : K) < M := by exact_mod_cast hlt
    have hM0 : (0 : K) < M := hmq.trans hMq
    -- Rounding is off by half a fine step at most, which is less than half a coarse one.
    have hoff := abs_sub_round ((d : K) / m * M)
    rw [abs_le] at hoff
    have hstep : (d : K) / m * M * m = d * M := by field_simp
    have hlow : ((d : K) / m * M - 1 / 2) * m ≤ round ((d : K) / m * M) * m :=
      mul_le_mul_of_nonneg_right (by linarith) hmq.le
    have hhigh : round ((d : K) / m * M) * m ≤ ((d : K) / m * M + 1 / 2) * m :=
      mul_le_mul_of_nonneg_right (by linarith) hmq.le
    rw [round_eq_iff]
    constructor
    · rw [le_div_iff₀ hM0]
      linarith
    · rw [div_lt_iff₀ hM0]
      linarith

end ScaleLib
