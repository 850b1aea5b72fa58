import Mathlib.Data.Int.ConditionallyCompleteOrder
import MultiMadness.Geometry
import MultiMadness.TileLib.Tiles
/-!
# The layout engine

`derive_grid` and `compute_layout` of `layout.hpp`. A signed result that does
not fit its type and a division by zero are undefined in the source: then there
is no layout. Conversions between integer types wrap around.

- `mapM_range`: a layout is its slots, computed one by one.
- `gridEdge_eq`, `pipEdge_eq`: where nothing wraps, an edge is an even cut.
- `tiles_side`: the even cuts of a side tile it.
-/

namespace MultiMadness

open TileLib

inductive LayoutKind where
  | grid
  | stacked
  | pip
deriving DecidableEq, Repr

inductive Edge where
  | right
  | bottom
  | left
  | top
deriving DecidableEq, Repr

structure LayoutSpec where
  kind : LayoutKind := .grid
  /-- 0 derives a near-square grid from the slot count. -/
  rows : Int32 := 0
  cols : Int32 := 0
  /-- Thickness of the thumbnail strip; 0 is a fifth of the shorter side. -/
  thumb : Int32 := 0
  edge : Edge := .right

/-! ## Machine integers -/

def int64 (v : Int) : Option Int := if -9223372036854775808 ≤ v ∧ v ≤ 9223372036854775807 then some v else none

/-- `static_cast<int32_t>`. -/
def toInt32 (v : Int) : Int := v.bmod 4294967296

/-- Conversion to `size_t`. -/
def toSize (v : Int) : Nat := (v % 18446744073709551616).toNat

/-- Division of integers of the type that `fits` checks. -/
def quotient (fits : Int → Option Int) (a b : Int) : Option Int := if b = 0 then none else fits (a.tdiv b)

def remainder (a b : Int) : Option Int := if b = 0 then none else some (a.tmod b)

/-! ## The grid -/

/-- The loop of `derive_grid`; `room` increments are left before `cols` overflows. -/
def growCols (n : Nat) : Nat → Nat → Option Nat
  | 0, cols => if cols * cols < n then none else some cols
  | room + 1, cols => if cols * cols < n then growCols n room (cols + 1) else some cols

def deriveGrid (n : Nat) : Option (Int × Int) :=
  if n = 0 then some (0, 0)
  else do
    let cols ← growCols n 2147483646 1
    let rows := toSize ((n : Int) + cols - 1) / cols
    return (toInt32 rows, (cols : Int))

/-- The rows and columns `compute_layout` uses. -/
def gridShape (spec : LayoutSpec) (slots : Nat) : Option (Int × Int) :=
  if spec.rows.toInt ≤ 0 ∨ spec.cols.toInt ≤ 0 then deriveGrid slots else some (spec.rows.toInt, spec.cols.toInt)

/-- `origin + static_cast<int32_t>(static_cast<int64_t>(extent) * c / cols)`. -/
def gridEdge (origin extent c cols : Int) : Option Int := do
  let p ← int64 (extent * c)
  let q ← quotient int64 p cols
  int32 (origin + toInt32 q)

def gridCell (area : Rect) (rows cols : Int) (i : Nat) : Option Rect := do
  let r ← quotient int32 (toInt32 i) cols
  let c ← remainder (toInt32 i) cols
  -- More slots than cells: the slot is parked at zero size.
  if r ≥ rows then return {}
  let x0 ← gridEdge area.x area.w c cols
  let x1 ← gridEdge area.x area.w (← int32 (c + 1)) cols
  let y0 ← gridEdge area.y area.h r rows
  let y1 ← gridEdge area.y area.h (← int32 (r + 1)) rows
  return ⟨x0, y0, ← int32 (x1 - x0), ← int32 (y1 - y0)⟩

/-! ## Picture in picture -/

/-- The thickness of the thumbnail strip. -/
def pipThumb (spec : LayoutSpec) (area : Rect) : Int :=
  if spec.thumb.toInt > 0 then spec.thumb.toInt else max 1 ((min area.w area.h).tdiv 5)

/-- `main` and `strip`. -/
def pipSplit (edge : Edge) (area : Rect) (thumb : Int) : Option (Rect × Rect) :=
  match edge with
  | .right => do
    let main : Rect := { area with w := ← int32 (area.w - thumb) }
    return (main, { area with x := ← int32 main.right, w := thumb })
  | .left => do
    let main : Rect := { area with x := ← int32 (area.x + thumb), w := ← int32 (area.w - thumb) }
    return (main, { area with w := thumb })
  | .bottom => do
    let main : Rect := { area with h := ← int32 (area.h - thumb) }
    return (main, { area with y := ← int32 main.bottom, h := thumb })
  | .top => do
    let main : Rect := { area with y := ← int32 (area.y + thumb), h := ← int32 (area.h - thumb) }
    return (main, { area with h := thumb })

def Edge.vertical : Edge → Bool
  | .right | .left => true
  | .bottom | .top => false

/-- `origin + static_cast<int32_t>(static_cast<int64_t>(extent) * k / thumbs)`,
where `k` and `thumbs` are `size_t` and so is the product. -/
def pipEdge (origin extent : Int) (k thumbs : Nat) : Option Int :=
  if thumbs = 0 then none
  else int32 (origin + toInt32 (toSize (toSize extent * k : Nat) / thumbs : Nat))

def pipThumbnail (edge : Edge) (strip : Rect) (thumbs k : Nat) : Option Rect :=
  if edge.vertical then do
    let y0 ← pipEdge strip.y strip.h k thumbs
    let y1 ← pipEdge strip.y strip.h (k + 1) thumbs
    return ⟨strip.x, y0, strip.w, ← int32 (y1 - y0)⟩
  else do
    let x0 ← pipEdge strip.x strip.w k thumbs
    let x1 ← pipEdge strip.x strip.w (k + 1) thumbs
    return ⟨x0, strip.y, ← int32 (x1 - x0), strip.h⟩

/-- One rectangle for each slot. -/
def computeLayout (spec : LayoutSpec) (area : Rect) (slots : Nat) : Option (List Rect) :=
  if slots = 0 then some []
  else
    match spec.kind with
    | .stacked => some (List.replicate slots area)
    | .grid => do
      let (rows, cols) ← gridShape spec slots
      (List.range slots).mapM (gridCell area rows cols)
    | .pip => do
      let (main, strip) ← pipSplit spec.edge area (pipThumb spec area)
      let rest ← (List.range (slots - 1)).mapM (pipThumbnail spec.edge strip (slots - 1))
      return main :: rest

/-! ## Slot by slot -/

theorem mapM_eq_some {α β : Type} {f : α → Option β} {l : List α} {rs : List β} :
    l.mapM f = some rs ↔ l.map f = rs.map some := by
  induction l generalizing rs with
  | nil => cases rs <;> simp
  | cons a l ih =>
    rw [List.mapM_cons, List.map_cons]
    cases hf : f a with
    | none => cases rs <;> simp
    | some b =>
      cases rs with
      | nil => cases l.mapM f <;> simp
      | cons r rs => cases hl : l.mapM f with
        | none =>
          have hn : ¬ l.map f = rs.map some := fun h => by rw [← ih, hl] at h; cases h
          simp [hn]
        | some rs' =>
          have hs := ih.1 hl
          have hinj : Function.Injective (some : β → Option β) := Option.some_injective β
          simp [hs, (List.map_injective_iff.2 hinj).eq_iff]

theorem mapM_range {β : Type} {f : Nat → Option β} {n : Nat} {rs : List β} :
    (List.range n).mapM f = some rs ↔ rs.length = n ∧ ∀ i < n, f i = rs[i]? := by
  rw [mapM_eq_some]
  constructor
  · intro h
    have hl : rs.length = n := by simpa using (congrArg List.length h).symm
    refine ⟨hl, fun i hi => ?_⟩
    have he := congrArg (·[i]?) h
    simp only [List.getElem?_map, List.getElem?_range hi, Option.map_some] at he
    rw [List.getElem?_eq_getElem (by omega)] at he ⊢
    simpa using he
  · rintro ⟨rfl, h⟩
    refine List.ext_getElem (by simp) fun i h1 h2 => ?_
    have hi : i < rs.length := by simpa using h2
    simpa [List.getElem?_eq_getElem hi] using h i hi

/-- A layout has one rectangle for each slot. -/
theorem computeLayout_length {spec : LayoutSpec} {area : Rect} {slots : Nat} {rects : List Rect}
    (h : computeLayout spec area slots = some rects) : rects.length = slots := by
  unfold computeLayout at h
  split at h
  · next h0 => cases h; exact h0.symm
  · next h0 =>
    split at h
    · cases h; exact List.length_replicate
    · obtain ⟨⟨rows, cols⟩, -, hm⟩ := Option.bind_eq_some_iff.1 h
      exact (mapM_range.1 hm).1
    · obtain ⟨⟨main, strip⟩, -, hm⟩ := Option.bind_eq_some_iff.1 h
      obtain ⟨rest, hr, he⟩ := Option.bind_eq_some_iff.1 hm
      cases he
      rw [List.length_cons, (mapM_range.1 hr).1]
      omega

/-! ## Where nothing wraps -/

theorem int64_of {v : Int} (h : -9223372036854775808 ≤ v) (h' : v ≤ 9223372036854775807) : int64 v = some v :=
  if_pos ⟨h, h'⟩

theorem int32_eq_some {v w : Int} : int32 v = some w ↔ w = v ∧ -2147483648 ≤ v ∧ v ≤ 2147483647 := by
  unfold int32
  split
  · next h => rw [Option.some.injEq]; exact ⟨fun he => ⟨he.symm, h⟩, fun he => he.1.symm⟩
  · next h => exact ⟨fun he => (by cases he), fun he => absurd he.2 h⟩

theorem toInt32_of {v : Int} (h : -2147483648 ≤ v) (h' : v ≤ 2147483647) : toInt32 v = v := by
  unfold toInt32
  rw [Int.bmod_eq_of_le] <;> omega

theorem toSize_natCast (n : Nat) : toSize n = n % 18446744073709551616 := by
  unfold toSize
  omega

theorem mul_lt_int64 {a b : Nat} (ha : a ≤ 2147483648) (hb : b ≤ 2147483648) : a * b ≤ 4611686018427387904 :=
  Nat.mul_le_mul ha hb

/-- The `i`-th cut of a side that starts at `origin` and is `w` long. -/
def sideCut (origin : Int) (w k i : Nat) : Int := origin + (cut w k i : Nat)

/-- An edge of a grid cell is a cut of the area's side. -/
theorem gridEdge_eq {origin : Int} {w c k : Nat} (hw : w < 2147483648) (hk : k < 2147483648) (hc : c ≤ k) (h0 : 0 < k)
    (hlo : -2147483648 ≤ origin) (hhi : origin + w ≤ 2147483647) :
    gridEdge origin w c k = some (sideCut origin w k c) := by
  have hcut : cut w k c ≤ w := cut_le w h0 hc
  have hmul : w * c ≤ 4611686018427387904 := mul_lt_int64 hw.le (by omega)
  have hq : ((w : Int) * c).tdiv k = (cut w k c : Nat) := by
    rw [← Int.natCast_mul, ← Int.ofNat_tdiv]
    rfl
  have hp : int64 ((w : Int) * c) = some ((w : Int) * c) := by
    rw [← Int.natCast_mul]
    exact int64_of (by omega) (by omega)
  have hk0 : (k : Int) ≠ 0 := by omega
  simp only [gridEdge, hp, Option.bind_eq_bind, Option.bind_some, quotient, if_neg hk0, hq]
  rw [int64_of (by omega) (by omega), Option.bind_some, toInt32_of (by omega) (by omega), int32_of (by omega) (by omega)]
  rfl

/-- An edge of a thumbnail is a cut of the strip's side. -/
theorem pipEdge_eq {origin : Int} {h k thumbs : Nat} (hh : h < 2147483648) (hk : k ≤ thumbs) (h0 : 0 < thumbs)
    (hmul : h * thumbs < 18446744073709551616) (hlo : -2147483648 ≤ origin) (hhi : origin + h ≤ 2147483647) :
    pipEdge origin h k thumbs = some (sideCut origin h thumbs k) := by
  have hcut : cut h thumbs k ≤ h := cut_le h h0 hk
  have hle : h * k < 18446744073709551616 := lt_of_le_of_lt (Nat.mul_le_mul_left h hk) hmul
  rw [pipEdge, if_neg (by omega), toSize_natCast h, toSize_natCast, Nat.mod_eq_of_lt (a := h) (by omega),
    Nat.mod_eq_of_lt hle]
  change int32 (origin + toInt32 (cut h thumbs k : Nat)) = _
  rw [toInt32_of (by omega) (by omega), int32_of (by omega) (by omega)]
  rfl

/-! ## Sides and pixels -/

namespace Rect

def pixels (r : Rect) : Set (ℤ × ℤ) := Set.Ico r.x r.right ×ˢ Set.Ico r.y r.bottom

/-- Not inverted, and no pixel or edge outside the area. -/
structure Within (r area : Rect) : Prop where
  w : 0 ≤ r.w
  h : 0 ≤ r.h
  left : area.x ≤ r.x
  top : area.y ≤ r.y
  right : r.right ≤ area.right
  bottom : r.bottom ≤ area.bottom

theorem Within.fits {r area : Rect} (h : r.Within area) (ha : area.Fits) : r.Fits := by
  obtain ⟨hw, hh, hl, ht, hr, hb⟩ := h
  obtain ⟨hx, hy, haw, hah, har, hab⟩ := ha
  refine ⟨by omega, by omega, ?_, ?_, hr.trans har, hb.trans hab⟩
  · unfold Rect.right at hr
    omega
  · unfold Rect.bottom at hb
    omega

end Rect

/-- A work area of 1000 by 700 pixels. -/
def desk : Rect := ⟨0, 0, 1000, 700⟩

theorem desk_fits : desk.Fits := by constructor <;> decide

theorem sideCut_mono (origin : Int) (w k : Nat) : Monotone (sideCut origin w k) := fun i j h => by
  have := cut_mono w k h
  unfold sideCut
  omega

/-- The part between two cuts lies on the side. -/
theorem sideCut_part (origin : Int) (w : Nat) {k i : Nat} (hi : i < k) : origin ≤ sideCut origin w k i ∧
    sideCut origin w k i ≤ sideCut origin w k (i + 1) ∧ sideCut origin w k (i + 1) ≤ origin + w := by
  have hmono := cut_mono w k (Nat.le_succ i)
  have hle := cut_le w (Nat.zero_lt_of_lt hi) (Nat.succ_le_of_lt hi)
  simp only [Nat.succ_eq_add_one] at hmono hle
  unfold sideCut
  omega

/-- Two parts of one side differ by at most one in length. -/
theorem sideCut_even (origin : Int) (w : Nat) {k : Nat} (hk : 0 < k) (i j : Nat) :
    |(sideCut origin w k (i + 1) - sideCut origin w k i) - (sideCut origin w k (j + 1) - sideCut origin w k j)| ≤ 1 := by
  have hi := cut_succ w k i hk
  have hj := cut_succ w k j hk
  rw [abs_le]
  unfold sideCut
  omega

/-- The parts of a side tile it. -/
theorem tiles_side (origin : Int) (w : Nat) {k : Nat} (hk : 0 < k) :
    Tiles (Set.Iio k) (fun i => Set.Ico (sideCut origin w k i) (sideCut origin w k (i + 1)))
      (Set.Ico origin (origin + w)) := by
  have h := tiles_cuts (sideCut_mono origin w k) k
  have h0 : sideCut origin w k 0 = origin := by simp [sideCut]
  have hlast : sideCut origin w k k = origin + w := by rw [sideCut, cut_last w hk]
  rwa [h0, hlast] at h

end MultiMadness
