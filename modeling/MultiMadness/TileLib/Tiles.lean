import Mathlib.Data.Set.Lattice
import Mathlib.Data.Set.Prod
import Mathlib.Order.CompletePartialOrder
import Mathlib.Order.Interval.Set.Basic
import Mathlib.Order.Monotone.Basic
/-!
# Tilings

Cells tile an area when they lie in it and every point of it is in exactly one
of them. Cells between consecutive cuts tile an interval, and rows and columns
that tile make a grid that tiles.

- `tiles_cuts`: the intervals between the values of a monotone sequence.
- `Tiles.grid`, `Tiles.prodLeft`, `Tiles.prodRight`, `Tiles.cons`: tilings of
  tilings.
- `cut`: cuts at multiples of `w / k`, rounded down, into parts that differ by
  at most one.
-/

namespace TileLib

variable {ι P Q α : Type}

/-- The cells of the indices in `s` lie in `area`, and each point of it is in
exactly one of them. -/
structure Tiles (s : Set ι) (cell : ι → Set P) (area : Set P) : Prop where
  inside : ∀ i ∈ s, cell i ⊆ area
  unique : ∀ p ∈ area, ∃! i, i ∈ s ∧ p ∈ cell i

namespace Tiles

theorem disjoint {s : Set ι} {cell : ι → Set P} {area : Set P} (h : Tiles s cell area) {i j : ι} (hi : i ∈ s)
    (hj : j ∈ s) (hij : i ≠ j) : Disjoint (cell i) (cell j) := by
  rw [Set.disjoint_left]
  intro p hpi hpj
  obtain ⟨k, -, hk⟩ := h.unique p (h.inside i hi hpi)
  exact hij ((hk i ⟨hi, hpi⟩).trans (hk j ⟨hj, hpj⟩).symm)

theorem prodLeft {s : Set ι} {cell : ι → Set P} {area : Set P} (h : Tiles s cell area) (b : Set Q) :
    Tiles s (fun i => b ×ˢ cell i) (b ×ˢ area) := by
  constructor
  · rintro i hi ⟨q, p⟩ ⟨hq, hp⟩
    exact ⟨hq, h.inside i hi hp⟩
  · rintro ⟨q, p⟩ ⟨hq, hp⟩
    obtain ⟨i, ⟨hi, hpi⟩, hu⟩ := h.unique p hp
    exact ⟨i, ⟨hi, hq, hpi⟩, fun j hj => hu j ⟨hj.1, hj.2.2⟩⟩

theorem prodRight {s : Set ι} {cell : ι → Set P} {area : Set P} (h : Tiles s cell area) (b : Set Q) :
    Tiles s (fun i => cell i ×ˢ b) (area ×ˢ b) := by
  constructor
  · rintro i hi ⟨p, q⟩ ⟨hp, hq⟩
    exact ⟨h.inside i hi hp, hq⟩
  · rintro ⟨p, q⟩ ⟨hp, hq⟩
    obtain ⟨i, ⟨hi, hpi⟩, hu⟩ := h.unique p hp
    exact ⟨i, ⟨hi, hpi, hq⟩, fun j hj => hu j ⟨hj.1, hj.2.1⟩⟩

/-- Rows and columns make a grid, numbered row by row. -/
theorem grid {r c : ℕ} {row : ℕ → Set Q} {col : ℕ → Set P} {a : Set P} {b : Set Q} (hr : Tiles (Set.Iio r) row b)
    (hc : Tiles (Set.Iio c) col a) : Tiles (Set.Iio (r * c)) (fun i => col (i % c) ×ˢ row (i / c)) (a ×ˢ b) := by
  constructor
  · rintro i hi ⟨p, q⟩ ⟨hp, hq⟩
    have hi' : i < r * c := hi
    have hc0 : 0 < c := Nat.pos_of_ne_zero fun h => by simp [h] at hi'
    exact ⟨hc.inside _ (Nat.mod_lt i hc0) hp, hr.inside _ (Nat.div_lt_of_lt_mul (Nat.mul_comm r c ▸ hi')) hq⟩
  · rintro ⟨p, q⟩ ⟨hp, hq⟩
    obtain ⟨x, ⟨hx, hpx⟩, hux⟩ := hc.unique p hp
    obtain ⟨y, ⟨hy, hqy⟩, huy⟩ := hr.unique q hq
    have hx' : x < c := hx
    have hdiv : (x + c * y) / c = y := by rw [Nat.add_mul_div_left _ _ (by omega), Nat.div_eq_of_lt hx', Nat.zero_add]
    have hmod : (x + c * y) % c = x := by rw [Nat.add_mul_mod_self_left, Nat.mod_eq_of_lt hx']
    refine ⟨x + c * y, ⟨?_, ?_⟩, ?_⟩
    · have hle : c * (y + 1) ≤ c * r := Nat.mul_le_mul_left c hy
      rw [Set.mem_Iio, Nat.mul_comm r c]
      rw [Nat.mul_add, Nat.mul_one] at hle
      omega
    · simp only [hdiv, hmod]
      exact ⟨hpx, hqy⟩
    · rintro i ⟨hi, hpi, hqi⟩
      have hi' : i < r * c := hi
      have hx'' : i % c = x := hux _ ⟨Nat.mod_lt i (by omega), hpi⟩
      have hy'' : i / c = y := huy _ ⟨Nat.div_lt_of_lt_mul (Nat.mul_comm r c ▸ hi'), hqi⟩
      rw [← hx'', ← hy'', Nat.mod_add_div]

/-- One more cell in front, which is the rest of the area. -/
theorem cons {n : ℕ} {cell : ℕ → Set P} {tail area : Set P} (h : Tiles (Set.Iio n) (fun i => cell (i + 1)) tail)
    (hu : cell 0 ∪ tail = area) (hd : Disjoint (cell 0) tail) : Tiles (Set.Iio (n + 1)) cell area := by
  subst hu
  constructor
  · intro i hi
    cases i with
    | zero => exact Set.subset_union_left
    | succ i => exact (h.inside i (Nat.lt_of_succ_lt_succ hi)).trans Set.subset_union_right
  · rintro p (hp | hp)
    · refine ⟨0, ⟨Nat.succ_pos n, hp⟩, ?_⟩
      rintro i ⟨hi, hpi⟩
      cases i with
      | zero => rfl
      | succ i => exact absurd (h.inside i (Nat.lt_of_succ_lt_succ hi) hpi) (Set.disjoint_left.1 hd hp)
    · obtain ⟨i, ⟨hi, hpi⟩, hu⟩ := h.unique p hp
      refine ⟨i + 1, ⟨Nat.succ_lt_succ hi, hpi⟩, ?_⟩
      rintro j ⟨hj, hpj⟩
      cases j with
      | zero => exact absurd hp (Set.disjoint_left.1 hd hpj)
      | succ j => rw [hu j ⟨Nat.lt_of_succ_lt_succ hj, hpj⟩]

end Tiles

/-! ## Cuts -/

section Cuts
variable [LinearOrder α] {c : ℕ → α}

theorem exists_part {p : α} (h0 : c 0 ≤ p) {k : ℕ} (hk : p < c k) : ∃ i < k, c i ≤ p ∧ p < c (i + 1) := by
  induction k with
  | zero => exact absurd hk (not_lt.2 h0)
  | succ k ih =>
    by_cases hp : p < c k
    · obtain ⟨i, hi, h⟩ := ih hp
      exact ⟨i, Nat.lt_succ_of_lt hi, h⟩
    · exact ⟨k, Nat.lt_succ_self k, not_lt.1 hp, hk⟩

/-- The intervals between consecutive cuts tile the interval between the first
and the last one. -/
theorem tiles_cuts (hc : Monotone c) (k : ℕ) :
    Tiles (Set.Iio k) (fun i => Set.Ico (c i) (c (i + 1))) (Set.Ico (c 0) (c k)) := by
  constructor
  · rintro i hi p ⟨hl, hr⟩
    exact ⟨(hc (Nat.zero_le i)).trans hl, hr.trans_le (hc (Nat.succ_le_of_lt hi))⟩
  · rintro p ⟨hl, hr⟩
    obtain ⟨i, hi, hpi⟩ := exists_part hl hr
    refine ⟨i, ⟨hi, hpi⟩, ?_⟩
    rintro j ⟨-, hpj⟩
    -- Two intervals that share a point cannot lie one behind the other.
    have hij : ∀ a b, c a ≤ p → p < c (b + 1) → a ≤ b := fun a b ha hb =>
      Nat.lt_succ_iff.1 (hc.reflect_lt (ha.trans_lt hb))
    exact Nat.le_antisymm (hij j i hpj.1 hpi.2) (hij i j hpi.1 hpj.2)

end Cuts

/-! ## Even cuts -/

/-- The `i`-th of the cuts of a length `w` into `k` parts. -/
def cut (w k i : ℕ) : ℕ := w * i / k

@[simp] theorem cut_zero (w k : ℕ) : cut w k 0 = 0 := by simp [cut]

theorem cut_last (w : ℕ) {k : ℕ} (hk : 0 < k) : cut w k k = w := Nat.mul_div_cancel w hk

theorem cut_mono (w k : ℕ) : Monotone (cut w k) := fun _ _ h => Nat.div_le_div_right (Nat.mul_le_mul_left w h)

theorem cut_le (w : ℕ) {k i : ℕ} (hk : 0 < k) (hi : i ≤ k) : cut w k i ≤ w :=
  (cut_mono w k hi).trans_eq (cut_last w hk)

/-- A part is `w / k` long, rounded down or up. -/
theorem cut_succ (w k i : ℕ) (hk : 0 < k) :
    cut w k i + w / k ≤ cut w k (i + 1) ∧ cut w k (i + 1) ≤ cut w k i + w / k + 1 := by
  have h : cut w k (i + 1) = cut w k i + w / k + if k ≤ w * i % k + w % k then 1 else 0 := by
    rw [cut, cut, Nat.mul_add, Nat.mul_one, Nat.add_div hk]
  rw [h]
  split <;> omega

end TileLib
