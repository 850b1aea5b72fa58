import MultiMadness.DerivedGrid
/-!
# The grid layout

- `gridShape_spec`: the grid that is asked for, or a derived one, which has a cell
  for every slot.
- `cells_tile`: the cells of a grid tile the area.
- `grid_tiles`: so does the layout, up to the slots it has.
-/

namespace MultiMadness

open TileLib SquareLib

/-! ## The shape -/

/-- The shape of a grid: what is asked for, or else a derived one. -/
theorem gridShape_spec (spec : LayoutSpec) {n : Nat} (h1 : 1 ≤ n) (hn : n ≤ 2147483648) :
    ∃ rows cols : Nat, gridShape spec n = some ((rows : Int), (cols : Int)) ∧ 0 < rows ∧ 0 < cols ∧
      rows < 2147483648 ∧ cols < 2147483648 ∧
      (0 < spec.rows.toInt → 0 < spec.cols.toInt → rows = spec.rows.toInt ∧ cols = spec.cols.toInt) ∧
      (spec.rows.toInt ≤ 0 ∨ spec.cols.toInt ≤ 0 → NearSquare n rows cols) := by
  unfold gridShape
  split
  · next hd =>
    have hs := nearSquare n
    have hr := hs.rows_pos h1
    have hle := hs.rows_le_cols
    have hc : ceilSqrt n ≤ 2147483647 := ceilSqrt_le.2 (by omega)
    exact ⟨_, _, deriveGrid_eq_some.2 ⟨_, _, hs, hc, rfl⟩, hr, hr.trans_le hle, by omega, by omega,
      fun hr' hc' => absurd hd (by omega), fun _ => hs⟩
  · next hd =>
    have hr := spec.rows.toInt_lt
    have hc := spec.cols.toInt_lt
    refine ⟨spec.rows.toInt.toNat, spec.cols.toInt.toNat, ?_, by omega, by omega, by omega, by omega,
      fun _ _ => ⟨by omega, by omega⟩, fun h => absurd h hd⟩
    rw [Int.toNat_of_nonneg (by omega), Int.toNat_of_nonneg (by omega)]

/-! ## The cells -/

/-- The cell of slot `i`, row by row. -/
def cellRect (area : Rect) (rows cols i : Nat) : Rect where
  x := sideCut area.x area.w.toNat cols (i % cols)
  y := sideCut area.y area.h.toNat rows (i / cols)
  w := sideCut area.x area.w.toNat cols (i % cols + 1) - sideCut area.x area.w.toNat cols (i % cols)
  h := sideCut area.y area.h.toNat rows (i / cols + 1) - sideCut area.y area.h.toNat rows (i / cols)

section Cells
variable {area : Rect} {rows cols : Nat}

theorem cellRect_pixels (area : Rect) (rows cols i : Nat) : (cellRect area rows cols i).pixels =
    Set.Ico (sideCut area.x area.w.toNat cols (i % cols)) (sideCut area.x area.w.toNat cols (i % cols + 1)) ×ˢ
      Set.Ico (sideCut area.y area.h.toNat rows (i / cols)) (sideCut area.y area.h.toNat rows (i / cols + 1)) := by
  simp only [Rect.pixels, Rect.right, Rect.bottom, cellRect, add_sub_cancel]

/-- The cells of a grid tile the area. -/
theorem cells_tile (ha : area.Fits) (hr : 0 < rows) (hc : 0 < cols) :
    Tiles (Set.Iio (rows * cols)) (fun i => (cellRect area rows cols i).pixels) area.pixels := by
  have hw := Int.toNat_of_nonneg ha.w.1
  have hh := Int.toNat_of_nonneg ha.h.1
  have h := (tiles_side area.y area.h.toNat hr).grid (tiles_side area.x area.w.toNat hc)
  rw [hw, hh] at h
  simp only [cellRect_pixels]
  exact h

theorem cellRect_within (ha : area.Fits) (hc : 0 < cols) {i : Nat} (hi : i < rows * cols) :
    (cellRect area rows cols i).Within area := by
  have hrow : i / cols < rows := Nat.div_lt_of_lt_mul (Nat.mul_comm rows cols ▸ hi)
  have hcol : i % cols < cols := Nat.mod_lt i hc
  have hw := Int.toNat_of_nonneg ha.w.1
  have hh := Int.toNat_of_nonneg ha.h.1
  have hx := sideCut_part area.x area.w.toNat hcol
  have hy := sideCut_part area.y area.h.toNat hrow
  constructor <;> simp only [cellRect, Rect.right, Rect.bottom] <;> omega

/-- What the loop of `compute_layout` puts into slot `i`. -/
theorem gridCell_eq (ha : area.Fits) (hr' : rows < 2147483648) (hc : 0 < cols)
    (hc' : cols < 2147483648) {i : Nat} (hi : i < 2147483648) :
    gridCell area rows cols i = some (if i < rows * cols then cellRect area rows cols i else {}) := by
  have hlt := Nat.mod_lt i hc
  have hle := Nat.div_le_self i cols
  have hc0 : (cols : Int) ≠ 0 := by omega
  have hdiv : quotient int32 i cols = int32 ((i / cols : Nat) : Int) := by
    rw [quotient, if_neg hc0, ← Int.ofNat_tdiv]
  have hmod : remainder i cols = some ((i % cols : Nat) : Int) := by
    rw [remainder, if_neg hc0, ← Int.ofNat_tmod]
  simp only [gridCell, toInt32_of (v := i) (by omega) (by omega), hdiv, hmod, ← Nat.div_lt_iff_lt_mul hc, cellRect]
  -- Row and column are all the loop looks at.
  generalize i / cols = r at hle ⊢
  generalize i % cols = c at hlt ⊢
  simp only [int32_of (v := r) (by omega) (by omega), Option.bind_eq_bind, Option.bind_some]
  by_cases hp : r < rows
  · obtain ⟨hx, hy, hw, hh, hri, hbo⟩ := ha
    obtain ⟨w, ew⟩ := Int.eq_ofNat_of_zero_le hw.1
    obtain ⟨h, eh⟩ := Int.eq_ofNat_of_zero_le hh.1
    unfold Rect.right at hri
    unfold Rect.bottom at hbo
    have hxc := sideCut_part area.x w hlt
    have hyc := sideCut_part area.y h hp
    rw [if_neg (by omega), if_pos hp, int32_of (v := (c : Int) + 1) (by omega) (by omega),
      int32_of (v := (r : Int) + 1) (by omega) (by omega)]
    simp only [Option.bind_some, ← Int.natCast_succ, ew, eh]
    rw [gridEdge_eq (by omega) hc' hlt.le hc hx (by omega), gridEdge_eq (by omega) hc' hlt hc hx (by omega),
      gridEdge_eq (by omega) hr' hp.le (by omega) hy (by omega), gridEdge_eq (by omega) hr' hp (by omega) hy (by omega)]
    simp only [Option.bind_some, Nat.succ_eq_add_one]
    rw [int32_of (by omega) (by omega), int32_of (by omega) (by omega)]
    rfl
  · rw [if_pos (by omega), if_neg hp]
    rfl

end Cells

/-! ## The layout -/

/-- The layout of `n` slots on a grid. -/
structure GridTiling (area : Rect) (rows cols n : Nat) (rects : List Rect) : Prop where
  length : rects.length = n
  inside : ∀ i r, i < rows * cols → rects[i]? = some r → r.Within area
  disjoint : ∀ i j r r', i < rows * cols → j < rows * cols → i ≠ j → rects[i]? = some r → rects[j]? = some r' →
    Disjoint r.pixels r'.pixels
  even : ∀ i j r r', i < rows * cols → j < rows * cols → rects[i]? = some r → rects[j]? = some r' →
    |r.w - r'.w| ≤ 1 ∧ |r.h - r'.h| ≤ 1
  cover : rows * cols ≤ n → ∀ p ∈ area.pixels, ∃! i, i < rows * cols ∧ ∃ r, rects[i]? = some r ∧ p ∈ r.pixels
  parked : ∀ i r, rows * cols ≤ i → rects[i]? = some r → r = {}

theorem gridTiling_of {area : Rect} {rows cols n : Nat} {rects : List Rect} (ha : area.Fits) (hr : 0 < rows)
    (hc : 0 < cols) (hlen : rects.length = n)
    (h : ∀ i < n, rects[i]? = some (if i < rows * cols then cellRect area rows cols i else {})) :
    GridTiling area rows cols n rects := by
  have hcell : ∀ i r, rects[i]? = some r → r = if i < rows * cols then cellRect area rows cols i else {} := by
    intro i r hi
    have hlt := (List.getElem?_eq_some_iff.1 hi).1
    rw [h i (by omega)] at hi
    cases hi
    rfl
  have htiles := cells_tile ha hr hc
  refine ⟨hlen, ?_, ?_, ?_, ?_, ?_⟩
  · intro i r hi hir
    rw [hcell i r hir, if_pos hi]
    exact cellRect_within ha hc hi
  · intro i j r r' hi hj hij hir hjr
    rw [hcell i r hir, hcell j r' hjr, if_pos hi, if_pos hj]
    exact htiles.disjoint hi hj hij
  · intro i j r r' hi hj hir hjr
    rw [hcell i r hir, hcell j r' hjr, if_pos hi, if_pos hj]
    exact ⟨sideCut_even _ _ hc _ _, sideCut_even _ _ hr _ _⟩
  · intro hle p hp
    obtain ⟨i, ⟨hi, hpi⟩, hu⟩ := htiles.unique p hp
    have hi' : i < rows * cols := hi
    refine ⟨i, ⟨hi', cellRect area rows cols i, by rw [h i (by omega), if_pos hi'], hpi⟩, ?_⟩
    rintro j ⟨hj, r, hjr, hpj⟩
    rw [hcell j r hjr, if_pos hj] at hpj
    exact hu j ⟨hj, hpj⟩
  · intro i r hi hir
    rw [hcell i r hir, if_neg (by omega)]

/-- For up to `2 ^ 31` slots nothing overflows, and every slot has its cell or
is parked. -/
theorem grid_slots {spec : LayoutSpec} (hk : spec.kind = .grid) {area : Rect} (ha : area.Fits) {n : Nat} (h1 : 1 ≤ n)
    {rows cols : Nat} (hs : gridShape spec n = some ((rows : Int), (cols : Int))) (hr' : rows < 2147483648)
    (hc : 0 < cols) (hc' : cols < 2147483648) (hn : n ≤ 2147483648) :
    ∃ rects, computeLayout spec area n = some rects ∧ rects.length = n ∧
      ∀ i < n, rects[i]? = some (if i < rows * cols then cellRect area rows cols i else {}) := by
  have hm : (List.range n).mapM (gridCell area rows cols) =
      some ((List.range n).map fun i => if i < rows * cols then cellRect area rows cols i else {}) := by
    rw [mapM_range]
    refine ⟨by simp, ?_⟩
    intro i hi
    rw [gridCell_eq ha hr' hc hc' (by omega), List.getElem?_map, List.getElem?_range hi]
    rfl
  refine ⟨_, ?_, (mapM_range.1 hm).1, fun i hi => ?_⟩
  · rw [computeLayout, if_neg (by omega), hk]
    simp only [hs, Option.bind_eq_bind, Option.bind_some]
    exact hm
  · rw [List.getElem?_map, List.getElem?_range hi]
    rfl

/-- The grid layout: nothing overflows, the cells tile the area evenly up to the
slots there are, further slots are parked, and a derived grid parks none. It has the
rows and columns that are asked for, or those of the derived grid. -/
theorem grid_tiles (spec : LayoutSpec) (hk : spec.kind = .grid) (area : Rect) (ha : area.Fits) (n : Nat) (h1 : 1 ≤ n)
    (hn : n < 2147483648) :
    ∃ (rows cols : Nat) (rects : List Rect), gridShape spec n = some ((rows : Int), (cols : Int)) ∧ 0 < rows ∧
      0 < cols ∧ computeLayout spec area n = some rects ∧ GridTiling area rows cols n rects ∧
      (0 < spec.rows.toInt → 0 < spec.cols.toInt → rows = spec.rows.toInt ∧ cols = spec.cols.toInt) ∧
      (spec.rows.toInt ≤ 0 ∨ spec.cols.toInt ≤ 0 → NearSquare n rows cols ∧ n ≤ rows * cols) := by
  obtain ⟨rows, cols, hs, hr, hc, hr', hc', hg, hd⟩ := gridShape_spec spec h1 hn.le
  obtain ⟨rects, hrects, hlen, hcells⟩ := grid_slots hk ha h1 hs hr' hc hc' hn.le
  exact ⟨rows, cols, rects, hs, hr, hc, hrects, gridTiling_of ha hr hc hlen hcells, hg, fun h => ⟨hd h, (hd h).fits⟩⟩

/-- Three slots and no grid asked for. -/
theorem grid_tiles_three : ∃ rows cols rects, computeLayout {} desk 3 = some rects ∧ GridTiling desk rows cols 3 rects ∧
    3 ≤ rows * cols := by
  obtain ⟨rows, cols, rects, -, -, -, h, ht, -, hd⟩ := grid_tiles {} rfl desk desk_fits 3 (by decide) (by decide)
  exact ⟨rows, cols, rects, h, ht, (hd (.inl (by decide))).2⟩

end MultiMadness
