import MultiMadness.Layout
/-!
# The picture-in-picture layout

The thumbnail strip lies along one edge and the master has the rest. Lengths
are along the edge, the thickness is across it.

- `pip_slots`: the rectangles of the layout, where nothing wraps.
- `pip_tiles`: they tile the area.
-/

namespace MultiMadness

open TileLib

/-- The side of a rectangle across the edge. -/
def Edge.thickness (edge : Edge) (r : Rect) : Int := if edge.vertical then r.w else r.h

/-- The side of a rectangle along the edge. -/
def Edge.length (edge : Edge) (r : Rect) : Int := if edge.vertical then r.h else r.w

/-- Where a rectangle starts along the edge. -/
def Edge.start (edge : Edge) (r : Rect) : Int := if edge.vertical then r.y else r.x

/-- The area without a strip of thickness `t`. -/
def pipMain (edge : Edge) (area : Rect) (t : Int) : Rect :=
  match edge with
  | .right => { area with w := area.w - t }
  | .left => { area with x := area.x + t, w := area.w - t }
  | .bottom => { area with h := area.h - t }
  | .top => { area with y := area.y + t, h := area.h - t }

/-- The strip of thickness `t` along an edge. -/
def pipStrip (edge : Edge) (area : Rect) (t : Int) : Rect :=
  match edge with
  | .right => { area with x := area.right - t, w := t }
  | .left => { area with w := t }
  | .bottom => { area with y := area.bottom - t, h := t }
  | .top => { area with h := t }

/-- The `k`-th of `thumbs` thumbnails of a strip. -/
def thumbRect (edge : Edge) (strip : Rect) (thumbs k : Nat) : Rect :=
  if edge.vertical then
    { strip with
      y := sideCut strip.y strip.h.toNat thumbs k
      h := sideCut strip.y strip.h.toNat thumbs (k + 1) - sideCut strip.y strip.h.toNat thumbs k }
  else
    { strip with
      x := sideCut strip.x strip.w.toNat thumbs k
      w := sideCut strip.x strip.w.toNat thumbs (k + 1) - sideCut strip.x strip.w.toNat thumbs k }

/-! ## The strip -/

/-- The thickness that is asked for, or else a fifth of the shorter side. -/
theorem pipThumb_eq {spec : LayoutSpec} {area : Rect} (ha : area.Fits) :
    pipThumb spec area = if 0 < spec.thumb.toInt then spec.thumb.toInt else max 1 (min area.w area.h / 5) := by
  have hw := ha.w.1
  have hh := ha.h.1
  rw [pipThumb, Int.tdiv_eq_ediv_of_nonneg (by omega)]

theorem pipThumb_pos (spec : LayoutSpec) (area : Rect) : 0 < pipThumb spec area := by
  unfold pipThumb
  split
  · next h => exact h
  · omega

section Strip
variable {edge : Edge} {area : Rect} {t : Int}

theorem pipSplit_eq (ha : area.Fits) (h0 : 0 ≤ t) (ht : t ≤ edge.thickness area) :
    pipSplit edge area t = some (pipMain edge area t, pipStrip edge area t) := by
  obtain ⟨hx, hy, hw, hh, hr, hb⟩ := ha
  cases edge <;> simp only [Edge.thickness, Edge.vertical, if_true, Bool.false_eq_true, if_false] at ht
  · simp only [Rect.right] at hr
    simp only [pipSplit, Rect.right, Option.bind_eq_bind]
    rw [int32_of (v := area.w - t) (by omega) (by omega), Option.bind_some,
      int32_of (v := area.x + (area.w - t)) (by omega) (by omega)]
    simp only [Option.bind_some, pipMain, pipStrip, Rect.right, add_sub_assoc]
    rfl
  · simp only [Rect.bottom] at hb
    simp only [pipSplit, Rect.bottom, Option.bind_eq_bind]
    rw [int32_of (v := area.h - t) (by omega) (by omega), Option.bind_some,
      int32_of (v := area.y + (area.h - t)) (by omega) (by omega)]
    simp only [Option.bind_some, pipMain, pipStrip, Rect.bottom, add_sub_assoc]
    rfl
  · simp only [Rect.right] at hr
    simp only [pipSplit, Option.bind_eq_bind]
    rw [int32_of (v := area.x + t) (by omega) (by omega), Option.bind_some,
      int32_of (v := area.w - t) (by omega) (by omega)]
    rfl
  · simp only [Rect.bottom] at hb
    simp only [pipSplit, Option.bind_eq_bind]
    rw [int32_of (v := area.y + t) (by omega) (by omega), Option.bind_some,
      int32_of (v := area.h - t) (by omega) (by omega)]
    rfl

theorem pipStrip_within (ha : area.Fits) (h0 : 0 ≤ t) (ht : t ≤ edge.thickness area) :
    (pipStrip edge area t).Within area := by
  obtain ⟨hx, hy, hw, hh, hr, hb⟩ := ha
  cases edge <;> simp only [Edge.thickness, Edge.vertical, if_true, Bool.false_eq_true, if_false] at ht <;>
    constructor <;> simp only [pipStrip, Rect.right, Rect.bottom] <;> omega

theorem pipStrip_fits (ha : area.Fits) (h0 : 0 ≤ t) (ht : t ≤ edge.thickness area) : (pipStrip edge area t).Fits :=
  (pipStrip_within ha h0 ht).fits ha

theorem pipMain_within (ha : area.Fits) (h0 : 0 ≤ t) (ht : t ≤ edge.thickness area) :
    (pipMain edge area t).Within area := by
  obtain ⟨hx, hy, hw, hh, hr, hb⟩ := ha
  cases edge <;> simp only [Edge.thickness, Edge.vertical, if_true, Bool.false_eq_true, if_false] at ht <;>
    constructor <;> simp only [pipMain, Rect.right, Rect.bottom] <;> omega

/-- The master's rectangle and the strip make up the area. -/
theorem main_union_strip (h0 : 0 ≤ t) (ht : t ≤ edge.thickness area) :
    (pipMain edge area t).pixels ∪ (pipStrip edge area t).pixels = area.pixels := by
  ext ⟨x, y⟩
  simp only [Set.mem_union, Rect.pixels, Set.mem_prod, Set.mem_Ico]
  cases edge <;> simp only [Edge.thickness, Edge.vertical, if_true, Bool.false_eq_true, if_false] at ht <;>
    simp only [pipMain, pipStrip, Rect.right, Rect.bottom] <;> omega

theorem main_disjoint_strip : Disjoint (pipMain edge area t).pixels (pipStrip edge area t).pixels := by
  rw [Set.disjoint_left]
  rintro ⟨x, y⟩ hm hs
  simp only [Rect.pixels, Set.mem_prod, Set.mem_Ico] at hm hs
  cases edge <;> simp only [pipMain, pipStrip, Rect.right, Rect.bottom] at hm hs <;> omega

/-- The area without the strip. -/
theorem main_pixels (h0 : 0 ≤ t) (ht : t ≤ edge.thickness area) :
    (pipMain edge area t).pixels = area.pixels \ (pipStrip edge area t).pixels := by
  rw [← main_union_strip h0 ht, Set.union_sdiff_right]
  exact (Disjoint.sdiff_eq_left main_disjoint_strip).symm

@[simp] theorem thickness_strip (edge : Edge) (area : Rect) (t : Int) : edge.thickness (pipStrip edge area t) = t := by
  cases edge <;> rfl

end Strip

/-! ## The thumbnails -/

section Thumbs
variable {edge : Edge} {strip : Rect} {thumbs : Nat}

@[simp] theorem thickness_thumbRect (edge : Edge) (strip : Rect) (thumbs k : Nat) :
    edge.thickness (thumbRect edge strip thumbs k) = edge.thickness strip := by
  cases edge <;> rfl

/-- A thumbnail goes from one cut of the strip to the next. -/
theorem thumbRect_sides (edge : Edge) (strip : Rect) (thumbs k : Nat) :
    edge.start (thumbRect edge strip thumbs k) = sideCut (edge.start strip) (edge.length strip).toNat thumbs k ∧
      edge.length (thumbRect edge strip thumbs k) =
        sideCut (edge.start strip) (edge.length strip).toNat thumbs (k + 1) -
          sideCut (edge.start strip) (edge.length strip).toNat thumbs k := by
  cases edge <;> exact ⟨rfl, rfl⟩

/-- What the loop of `compute_layout` puts into slot `k + 1`. -/
theorem pipThumbnail_eq (hs : strip.Fits) {k : Nat} (hk : k < thumbs)
    (hmul : (edge.length strip).toNat * thumbs < 18446744073709551616) :
    pipThumbnail edge strip thumbs k = some (thumbRect edge strip thumbs k) := by
  obtain ⟨hx, hy, hw, hh, hr, hb⟩ := hs
  have h0 : 0 < thumbs := Nat.zero_lt_of_lt hk
  unfold pipThumbnail thumbRect
  unfold Edge.length at hmul
  split
  · next hv =>
    rw [if_pos hv] at hmul
    obtain ⟨h, eh⟩ := Int.eq_ofNat_of_zero_le hh.1
    simp only [Rect.bottom] at hb
    rw [eh, Int.toNat_natCast] at hmul
    have hp := sideCut_part strip.y h hk
    simp only [eh, Int.toNat_natCast]
    rw [pipEdge_eq (by omega) hk.le h0 hmul hy (by omega), pipEdge_eq (by omega) hk h0 hmul hy (by omega)]
    simp only [Option.bind_eq_bind, Option.bind_some, Nat.succ_eq_add_one]
    rw [int32_of (by omega) (by omega)]
    rfl
  · next hv =>
    rw [if_neg hv] at hmul
    obtain ⟨w, ew⟩ := Int.eq_ofNat_of_zero_le hw.1
    simp only [Rect.right] at hr
    rw [ew, Int.toNat_natCast] at hmul
    have hp := sideCut_part strip.x w hk
    simp only [ew, Int.toNat_natCast]
    rw [pipEdge_eq (by omega) hk.le h0 hmul hx (by omega), pipEdge_eq (by omega) hk h0 hmul hx (by omega)]
    simp only [Option.bind_eq_bind, Option.bind_some, Nat.succ_eq_add_one]
    rw [int32_of (by omega) (by omega)]
    rfl

theorem thumbRect_within (hs : strip.Fits) {k : Nat} (hk : k < thumbs) :
    (thumbRect edge strip thumbs k).Within strip := by
  obtain ⟨hx, hy, hw, hh, hr, hb⟩ := hs
  have ew := Int.toNat_of_nonneg hw.1
  have eh := Int.toNat_of_nonneg hh.1
  unfold thumbRect
  split
  · have hp := sideCut_part strip.y strip.h.toNat hk
    constructor <;> simp only [Rect.right, Rect.bottom] <;> omega
  · have hp := sideCut_part strip.x strip.w.toNat hk
    constructor <;> simp only [Rect.right, Rect.bottom] <;> omega

/-- The thumbnails tile the strip. -/
theorem thumbs_tile (hs : strip.Fits) (h0 : 0 < thumbs) :
    Tiles (Set.Iio thumbs) (fun k => (thumbRect edge strip thumbs k).pixels) strip.pixels := by
  have ew := Int.toNat_of_nonneg hs.w.1
  have eh := Int.toNat_of_nonneg hs.h.1
  unfold thumbRect
  -- A strip on the left or right is cut across, one above or below lengthwise.
  by_cases hv : edge.vertical = true
  · have h := (tiles_side strip.y strip.h.toNat h0).prodLeft (Set.Ico strip.x strip.right)
    rw [eh] at h
    simp only [if_pos hv, Rect.pixels, Rect.right, Rect.bottom, add_sub_cancel] at h ⊢
    exact h
  · have h := (tiles_side strip.x strip.w.toNat h0).prodRight (Set.Ico strip.y strip.bottom)
    rw [ew] at h
    simp only [if_neg hv, Rect.pixels, Rect.right, Rect.bottom, add_sub_cancel] at h ⊢
    exact h

end Thumbs

/-! ## The layout -/

/-- The rectangle of slot `i` of `n`. -/
def pipRect (edge : Edge) (area : Rect) (t : Int) (n : Nat) : Nat → Rect
  | 0 => pipMain edge area t
  | k + 1 => thumbRect edge (pipStrip edge area t) (n - 1) k

section Layout
variable {edge : Edge} {area : Rect} {t : Int} {n : Nat}

theorem pipRect_tiles (ha : area.Fits) (h0 : 0 ≤ t) (ht : t ≤ edge.thickness area) (hn : 2 ≤ n) :
    Tiles (Set.Iio n) (fun i => (pipRect edge area t n i).pixels) area.pixels := by
  have h : Tiles (Set.Iio (n - 1)) (fun k => (pipRect edge area t n (k + 1)).pixels) (pipStrip edge area t).pixels :=
    thumbs_tile (pipStrip_fits ha h0 ht) (by omega)
  have hc : Tiles (Set.Iio (n - 1 + 1)) (fun i => (pipRect edge area t n i).pixels) area.pixels :=
    h.cons (main_union_strip h0 ht) main_disjoint_strip
  rwa [Nat.sub_add_cancel (by omega)] at hc

/-- Where the products of the loop fit a `size_t`, the layout is these rectangles. -/
theorem pip_slots {spec : LayoutSpec} (hk : spec.kind = .pip) (ha : area.Fits) (hn : 1 ≤ n)
    (ht : pipThumb spec area ≤ spec.edge.thickness area)
    (hmul : (spec.edge.length area).toNat * (n - 1) < 18446744073709551616) :
    computeLayout spec area n = some ((List.range n).map (pipRect spec.edge area (pipThumb spec area) n)) := by
  have h0 := (pipThumb_pos spec area).le
  have hlen : spec.edge.length (pipStrip spec.edge area (pipThumb spec area)) = spec.edge.length area := by
    cases spec.edge <;> rfl
  have hm : (List.range (n - 1)).mapM (pipThumbnail spec.edge (pipStrip spec.edge area (pipThumb spec area)) (n - 1)) =
      some ((List.range (n - 1)).map fun k => pipRect spec.edge area (pipThumb spec area) n (k + 1)) := by
    rw [mapM_range]
    refine ⟨by simp, ?_⟩
    intro k hkn
    rw [pipThumbnail_eq (pipStrip_fits ha h0 ht) hkn (by rw [hlen]; exact hmul), List.getElem?_map,
      List.getElem?_range hkn]
    rfl
  rw [computeLayout, if_neg (by omega), hk]
  simp only [pipSplit_eq ha h0 ht, Option.bind_eq_bind, Option.bind_some, hm]
  obtain ⟨m, rfl⟩ : ∃ m, n = m + 1 := ⟨n - 1, by omega⟩
  rw [List.range_succ_eq_map, List.map_cons, List.map_map]
  rfl

end Layout

/-- The layout of `n` slots with a strip of thickness `t`. -/
structure PipTiling (edge : Edge) (area : Rect) (t : Int) (n : Nat) (rects : List Rect) : Prop where
  length : rects.length = n
  inside : ∀ r ∈ rects, r.Within area
  cover : 2 ≤ n → ∀ p ∈ area.pixels, ∃! i : Nat, ∃ r : Rect, rects[i]? = some r ∧ p ∈ r.pixels
  /-- The master has the area minus the strip. -/
  master : rects[0]? = some (pipMain edge area t) ∧
    (pipMain edge area t).pixels = area.pixels \ (pipStrip edge area t).pixels
  thumbs : ∀ k r, rects[k + 1]? = some r → edge.thickness r = t ∧ r.Within (pipStrip edge area t)
  order : ∀ j k r r', j < k → rects[j + 1]? = some r → rects[k + 1]? = some r' →
    edge.start r + edge.length r ≤ edge.start r'
  even : ∀ j k r r', rects[j + 1]? = some r → rects[k + 1]? = some r' → |edge.length r - edge.length r'| ≤ 1

theorem pipTiling_of {edge : Edge} {area : Rect} {t : Int} {n : Nat} (ha : area.Fits) (h0 : 0 ≤ t)
    (ht : t ≤ edge.thickness area) (hn : 1 ≤ n) :
    PipTiling edge area t n ((List.range n).map (pipRect edge area t n)) := by
  have hs := pipStrip_fits ha h0 ht
  have hsw := pipStrip_within ha h0 ht
  have hget : ∀ i r, ((List.range n).map (pipRect edge area t n))[i]? = some r → i < n ∧ r = pipRect edge area t n i := by
    intro i r hi
    have hlt : i < n := by simpa using (List.getElem?_eq_some_iff.1 hi).1
    rw [List.getElem?_map, List.getElem?_range hlt] at hi
    cases hi
    exact ⟨hlt, rfl⟩
  have hthumb : ∀ k r, ((List.range n).map (pipRect edge area t n))[k + 1]? = some r →
      k < n - 1 ∧ r = thumbRect edge (pipStrip edge area t) (n - 1) k := by
    intro k r hk
    obtain ⟨hlt, rfl⟩ := hget (k + 1) r hk
    exact ⟨by omega, rfl⟩
  refine ⟨by simp, ?_, ?_, ⟨?_, main_pixels h0 ht⟩, ?_, ?_, ?_⟩
  · intro r hr
    obtain ⟨i, hi⟩ := List.mem_iff_getElem?.1 hr
    cases i with
    | zero =>
      obtain ⟨-, rfl⟩ := hget 0 r hi
      exact pipMain_within ha h0 ht
    | succ k =>
      obtain ⟨hk, rfl⟩ := hthumb k r hi
      have hin : (pipRect edge area t n (k + 1)).Within (pipStrip edge area t) := thumbRect_within hs hk
      obtain ⟨hw, hh, hl, htop, hr', hb⟩ := hin
      exact ⟨hw, hh, hsw.left.trans hl, hsw.top.trans htop, hr'.trans hsw.right, hb.trans hsw.bottom⟩
  · intro hn2 p hp
    obtain ⟨i, ⟨hi, hpi⟩, hu⟩ := (pipRect_tiles ha h0 ht hn2).unique p hp
    refine ⟨i, ⟨_, by rw [List.getElem?_map, List.getElem?_range hi]; rfl, hpi⟩, ?_⟩
    rintro j ⟨r, hj, hpj⟩
    obtain ⟨hlt, rfl⟩ := hget j r hj
    exact hu j ⟨hlt, hpj⟩
  · rw [List.getElem?_map, List.getElem?_range (by omega)]
    rfl
  · intro k r hk
    obtain ⟨hlt, rfl⟩ := hthumb k r hk
    exact ⟨by simp, thumbRect_within hs hlt⟩
  · intro j k r r' hjk hj hk
    obtain ⟨-, rfl⟩ := hthumb j r hj
    obtain ⟨-, rfl⟩ := hthumb k r' hk
    rw [(thumbRect_sides edge _ _ j).1, (thumbRect_sides edge _ _ j).2, (thumbRect_sides edge _ _ k).1, add_sub_cancel]
    exact sideCut_mono _ _ _ hjk
  · intro j k r r' hj hk
    obtain ⟨hlt, rfl⟩ := hthumb j r hj
    obtain ⟨-, rfl⟩ := hthumb k r' hk
    rw [(thumbRect_sides edge _ _ j).2, (thumbRect_sides edge _ _ k).2]
    exact sideCut_even _ _ (by omega) j k

/-- The picture-in-picture layout: a strip that is not thicker than the area
leaves a partition of it; one slot is the master's alone. -/
theorem pip_tiles (spec : LayoutSpec) (hk : spec.kind = .pip) (area : Rect) (ha : area.Fits) (n : Nat) (h1 : 1 ≤ n)
    (hn : n < 2147483648) (t : Int)
    (hthumb : t = if 0 < spec.thumb.toInt then spec.thumb.toInt else max 1 (min area.w area.h / 5))
    (ht : t ≤ spec.edge.thickness area) :
    ∃ rects, computeLayout spec area n = some rects ∧ PipTiling spec.edge area t n rects ∧
      (n = 1 → rects = [pipMain spec.edge area t]) := by
  obtain rfl : t = pipThumb spec area := hthumb.trans (pipThumb_eq ha).symm
  have hlen : (spec.edge.length area).toNat ≤ 2147483648 := by
    have hw := ha.w
    have hh := ha.h
    unfold Edge.length
    split <;> omega
  have hmul := mul_lt_int64 hlen (b := n - 1) (by omega)
  refine ⟨_, pip_slots hk ha h1 ht (by omega), pipTiling_of ha (pipThumb_pos spec area).le ht h1, ?_⟩
  rintro rfl
  rfl

/-- Three thumbnails of 200 pixels along the bottom. -/
theorem pip_tiles_bottom :
    ∃ rects, computeLayout { kind := .pip, thumb := 200, edge := .bottom } desk 4 = some rects ∧
      PipTiling .bottom desk 200 4 rects := by
  obtain ⟨rects, h, ht, -⟩ := pip_tiles { kind := .pip, thumb := 200, edge := .bottom } rfl desk desk_fits 4 (by decide)
    (by decide) 200 (by decide) (by decide)
  exact ⟨rects, h, ht⟩

end MultiMadness
