import Mathlib.Algebra.Order.Round
import Mathlib.Data.Rat.Floor
import Mathlib.Tactic.Linarith
import Mathlib.Tactic.NormNum
/-!
# Screen geometry

`geometry.hpp`. Coordinates are exact integers and the `double` arithmetic of
the source is read as exact rational arithmetic.
-/

namespace MultiMadness

structure Rect where
  x : Int := 0
  y : Int := 0
  w : Int := 0
  h : Int := 0
deriving DecidableEq, Repr

namespace Rect

def right (r : Rect) : Int := r.x + r.w
def bottom (r : Rect) : Int := r.y + r.h

def contains (r : Rect) (px py : Int) : Bool := px ≥ r.x && py ≥ r.y && px < r.right && py < r.bottom

/-- Its fields and its edges are of type `int32_t`. -/
structure Fits (r : Rect) : Prop where
  x : -2147483648 ≤ r.x
  y : -2147483648 ≤ r.y
  w : 0 ≤ r.w ∧ r.w ≤ 2147483647
  h : 0 ≤ r.h ∧ r.h ≤ 2147483647
  right : r.right ≤ 2147483647
  bottom : r.bottom ≤ 2147483647

theorem contains_iff {r : Rect} {px py : Int} :
    r.contains px py = true ↔ (r.x ≤ px ∧ px < r.x + r.w) ∧ r.y ≤ py ∧ py < r.y + r.h := by
  unfold contains right bottom
  simp only [Bool.and_eq_true, decide_eq_true_eq]
  omega

end Rect

/-- A signed 32-bit result; overflow is undefined in the source. -/
def int32 (v : Int) : Option Int := if -2147483648 ≤ v ∧ v ≤ 2147483647 then some v else none

@[simp] theorem int32_of {v : Int} (h : -2147483648 ≤ v) (h' : v ≤ 2147483647) : int32 v = some v := if_pos ⟨h, h'⟩

/-- A point as a fraction of a client area. -/
structure NormPoint where
  u : ℚ := 0
  v : ℚ := 0

def normalize (client : Rect) (sx sy : Int) : NormPoint :=
  let w : ℚ := if client.w > 0 then client.w else 1
  let h : ℚ := if client.h > 0 then client.h else 1
  ⟨(sx - client.x) / w, (sy - client.y) / h⟩

structure Point where
  x : Int := 0
  y : Int := 0
deriving DecidableEq, Repr

/-- `std::clamp`. -/
def clamp (v lo hi : ℚ) : ℚ := if v < lo then lo else if hi < v then hi else v

/-- `static_cast` of a `double` to an integer type that holds the result. -/
def truncate (q : ℚ) : Int := if 0 ≤ q then ⌊q⌋ else ⌈q⌉

def denormalize (client : Rect) (p : NormPoint) : Point :=
  let u := clamp p.u 0 1
  let v := clamp p.v 0 1
  let px := client.x + truncate (u * client.w + 1 / 2)
  let py := client.y + truncate (v * client.h + 1 / 2)
  ⟨if client.w > 0 then min px (client.right - 1) else px, if client.h > 0 then min py (client.bottom - 1) else py⟩

/-- `SendInput` absolute coordinates, 0..65535 across the virtual screen. -/
structure AbsPoint where
  ax : Int := 0
  ay : Int := 0
deriving DecidableEq, Repr

/-- The lambda `scale` of `to_absolute`. -/
def scale (v origin extent : Int) : Int :=
  if extent ≤ 1 then 0
  else
    let t : ℚ := ((v - origin : Int) : ℚ) / ((extent - 1 : Int) : ℚ)
    let c := clamp t 0 1 * 65535
    truncate (c + 1 / 2)

def toAbsolute (virtualScreen : Rect) (sx sy : Int) : AbsPoint :=
  ⟨scale sx virtualScreen.x virtualScreen.w, scale sy virtualScreen.y virtualScreen.h⟩

theorem clamp_eq {lo hi : ℚ} (h : lo ≤ hi) (v : ℚ) : clamp v lo hi = max lo (min v hi) := by
  unfold clamp
  split
  · next hlo => rw [min_eq_left (hlo.le.trans h), max_eq_left hlo.le]
  · next hlo =>
    split
    · next hhi => rw [min_eq_right hhi.le, max_eq_right h]
    · next hhi => rw [min_eq_left (not_lt.1 hhi), max_eq_right (not_lt.1 hlo)]

theorem clamp_mem {lo hi : ℚ} (h : lo ≤ hi) (v : ℚ) : lo ≤ clamp v lo hi ∧ clamp v lo hi ≤ hi := by
  rw [clamp_eq h]
  exact ⟨le_max_left _ _, max_le h (min_le_right _ _)⟩

theorem clamp_mono {lo hi : ℚ} (h : lo ≤ hi) {v w : ℚ} (hvw : v ≤ w) : clamp v lo hi ≤ clamp w lo hi := by
  rw [clamp_eq h, clamp_eq h]
  exact max_le_max le_rfl (min_le_min hvw le_rfl)

theorem clamp_of_mem {v lo hi : ℚ} (h0 : lo ≤ v) (h1 : v ≤ hi) : clamp v lo hi = v := by
  rw [clamp_eq (h0.trans h1), min_eq_left h1, max_eq_right h0]

/-- Truncating a half more is rounding to the nearest. -/
theorem truncate_half {q : ℚ} (h : 0 ≤ q) : truncate (q + 1 / 2) = round q := by
  rw [truncate, if_pos (by linarith), round_eq]

theorem clamp_eq_lo {v lo hi : ℚ} (h : v ≤ lo) (hlh : lo ≤ hi) : clamp v lo hi = lo := by
  unfold clamp
  split
  · rfl
  · rw [if_neg (by linarith)]; linarith

theorem clamp_eq_hi {v lo hi : ℚ} (h : hi ≤ v) (hlh : lo ≤ hi) : clamp v lo hi = hi := by
  unfold clamp
  rw [if_neg (by linarith)]
  split
  · rfl
  · linarith

/-- A screen two pixels wide sends its first column and everything left of it to
0, every other column to 65535. -/
theorem scale_two (v origin : Int) : scale v origin 2 = if v ≤ origin then 0 else 65535 := by
  have h2 : ¬ ((2 : Int) ≤ 1) := by decide
  have h1 : ((2 - 1 : Int) : ℚ) = 1 := by norm_num
  simp only [scale, if_neg h2, h1, div_one]
  by_cases hv : v ≤ origin
  · have hq : ((v - origin : Int) : ℚ) ≤ 0 := by exact_mod_cast (show v - origin ≤ 0 by omega)
    rw [if_pos hv, clamp_eq_lo hq (by norm_num)]
    norm_num [truncate]
  · have hq : (1 : ℚ) ≤ ((v - origin : Int) : ℚ) := by exact_mod_cast (show (1 : Int) ≤ v - origin by omega)
    rw [if_neg hv, clamp_eq_hi hq (by norm_num)]
    norm_num [truncate]

end MultiMadness
