import MultiMadness.Grid
import MultiMadness.Pip
/-!
# Windows inside the work area

A strip that is thicker than the area turns the master's rectangle inside out;
`cmd_run` passes `--thumb` on unchecked. Slot numbers from `2 ^ 31` on, and
products from `2 ^ 64` on, wrap around.

- `contained_iff`: otherwise every rectangle of a layout lies in the area.
-/

namespace MultiMadness

/-- The slot lies beyond the last cell of the grid. -/
def Parked (spec : LayoutSpec) (n i : Nat) : Prop :=
  spec.kind = .grid ∧ ∃ rows cols : Int, gridShape spec n = some (rows, cols) ∧ rows * cols ≤ i

/-- There is a layout, its parked slots are empty, and the others neither
inverted nor outside the area. -/
def Contained (spec : LayoutSpec) (area : Rect) (n : Nat) : Prop :=
  ∃ rects, computeLayout spec area n = some rects ∧
    ∀ i r, rects[i]? = some r → (Parked spec n i → r = {}) ∧ (¬ Parked spec n i → r.Within area)

/-- The strip leaves the master something, and nothing wraps around. -/
def Roomy (spec : LayoutSpec) (area : Rect) (n : Nat) : Prop :=
  match spec.kind with
  | .stacked => True
  | .grid => n ≤ 2147483648
  | .pip => n = 0 ∨ pipThumb spec area ≤ spec.edge.thickness area ∧
      (spec.edge.length area).toNat * (n - 1) < 18446744073709551616

/-! ## Enough room -/

theorem not_parked {spec : LayoutSpec} (h : spec.kind ≠ .grid) (n i : Nat) : ¬ Parked spec n i := fun hp => h hp.1

theorem contained_zero (spec : LayoutSpec) (area : Rect) : Contained spec area 0 :=
  ⟨[], rfl, fun i r h => by simp at h⟩

theorem contained_stacked {spec : LayoutSpec} (hk : spec.kind = .stacked) {area : Rect} (ha : area.Fits) {n : Nat}
    (hn : n ≠ 0) : Contained spec area n := by
  refine ⟨List.replicate n area, by rw [computeLayout, if_neg hn, hk], ?_⟩
  intro i r hi
  have hr := List.eq_of_mem_replicate (List.mem_of_getElem? hi)
  subst hr
  have hp : ¬ Parked spec n i := not_parked (by rw [hk]; decide) n i
  exact ⟨fun h => absurd h hp, fun _ => ⟨ha.w.1, ha.h.1, le_refl _, le_refl _, le_refl _, le_refl _⟩⟩

theorem contained_grid {spec : LayoutSpec} (hk : spec.kind = .grid) {area : Rect} (ha : area.Fits) {n : Nat}
    (h1 : 1 ≤ n) (hn : n ≤ 2147483648) : Contained spec area n := by
  obtain ⟨rows, cols, hs, hr, hc, hr', hc', -⟩ := gridShape_spec spec h1 hn
  obtain ⟨rects, hrects, hlen, hcells⟩ := grid_slots hk ha h1 hs hr' hc hc' hn
  have hparked : ∀ i, Parked spec n i ↔ rows * cols ≤ i := by
    intro i
    constructor
    · rintro ⟨-, r, c, hsh, hle⟩
      cases hs.symm.trans hsh
      exact_mod_cast hle
    · exact fun hle => ⟨hk, rows, cols, hs, by exact_mod_cast hle⟩
  refine ⟨rects, hrects, ?_⟩
  intro i r hi
  have hlt := (List.getElem?_eq_some_iff.1 hi).1
  rw [hcells i (by omega)] at hi
  rw [hparked]
  by_cases hic : i < rows * cols
  · rw [if_pos hic] at hi
    cases hi
    exact ⟨fun h => absurd hic (Nat.not_lt.2 h), fun _ => cellRect_within ha hc hic⟩
  · rw [if_neg hic] at hi
    cases hi
    exact ⟨fun _ => rfl, fun h => absurd (Nat.not_lt.1 hic) h⟩

theorem contained_pip {spec : LayoutSpec} (hk : spec.kind = .pip) {area : Rect} (ha : area.Fits) {n : Nat}
    (h1 : 1 ≤ n) (ht : pipThumb spec area ≤ spec.edge.thickness area)
    (hmul : (spec.edge.length area).toNat * (n - 1) < 18446744073709551616) : Contained spec area n := by
  refine ⟨_, pip_slots hk ha h1 ht hmul, ?_⟩
  intro i r hi
  have hin := (pipTiling_of ha (pipThumb_pos spec area).le ht h1).inside r (List.mem_of_getElem? hi)
  exact ⟨fun h => absurd h (not_parked (by rw [hk]; decide) n i), fun _ => hin⟩

/-! ## Too little room -/

section Pip
variable {spec : LayoutSpec} {area : Rect} {n : Nat}

theorem pipSplit_thickness {edge : Edge} {t : Int} {main strip : Rect}
    (h : pipSplit edge area t = some (main, strip)) : edge.thickness main = edge.thickness area - t := by
  cases edge <;> simp only [pipSplit, Option.bind_eq_bind, Option.bind_eq_some_iff, int32_eq_some] at h
  · obtain ⟨w, ⟨rfl, -⟩, x, -, he⟩ := h; cases he; rfl
  · obtain ⟨w, ⟨rfl, -⟩, x, -, he⟩ := h; cases he; rfl
  · obtain ⟨x, -, w, ⟨rfl, -⟩, he⟩ := h; cases he; rfl
  · obtain ⟨x, -, w, ⟨rfl, -⟩, he⟩ := h; cases he; rfl

theorem within_thickness {r : Rect} (h : r.Within area) (edge : Edge) : 0 ≤ edge.thickness r := by
  unfold Edge.thickness
  split
  · exact h.w
  · exact h.h

theorem within_length {r : Rect} (h : r.Within area) (edge : Edge) : 0 ≤ edge.length r := by
  unfold Edge.length
  split
  · exact h.h
  · exact h.w

/-- The rectangles of a picture-in-picture layout, as the loop computes them. -/
theorem pip_computed (hk : spec.kind = .pip) (hn : n ≠ 0) {rects : List Rect}
    (h : computeLayout spec area n = some rects) : ∃ main strip, pipSplit spec.edge area (pipThumb spec area) = some (main, strip) ∧
      rects[0]? = some main ∧ ∀ k < n - 1, pipThumbnail spec.edge strip (n - 1) k = rects[k + 1]? := by
  rw [computeLayout, if_neg hn, hk] at h
  obtain ⟨⟨main, strip⟩, hs, hm⟩ := Option.bind_eq_some_iff.1 h
  obtain ⟨rest, hr, he⟩ := Option.bind_eq_some_iff.1 hm
  cases he
  exact ⟨main, strip, hs, rfl, (mapM_range.1 hr).2⟩

/-- A master that is not inverted has a strip that is no thicker than the area. -/
theorem thickness_of_contained (hk : spec.kind = .pip) (hn : n ≠ 0) (h : Contained spec area n) :
    pipThumb spec area ≤ spec.edge.thickness area := by
  obtain ⟨rects, hr, hall⟩ := h
  obtain ⟨main, strip, hs, h0, -⟩ := pip_computed hk hn hr
  have hw := within_thickness ((hall 0 main h0).2 (not_parked (by rw [hk]; decide) n 0)) spec.edge
  rw [pipSplit_thickness hs] at hw
  omega

theorem pipEdge_value {origin : Int} {h k thumbs : Nat} {e : Int} (hh : h < 18446744073709551616)
    (he : pipEdge origin h k thumbs = some e) :
    e = origin + toInt32 (h * k % 18446744073709551616 / thumbs : Nat) := by
  unfold pipEdge at he
  split at he
  · cases he
  · rw [toSize_natCast h, toSize_natCast, Nat.mod_eq_of_lt hh] at he
    exact (int32_eq_some.1 he).1

/-- The two edges of a thumbnail. -/
theorem pipThumbnail_sides {edge : Edge} {strip r : Rect} {thumbs k : Nat}
    (h : pipThumbnail edge strip thumbs k = some r) :
    ∃ e e', pipEdge (edge.start strip) (edge.length strip) k thumbs = some e ∧
      pipEdge (edge.start strip) (edge.length strip) (k + 1) thumbs = some e' ∧ edge.length r = e' - e := by
  unfold pipThumbnail at h
  unfold Edge.start Edge.length
  split at h
  · next hv =>
    simp only [Option.bind_eq_bind, Option.bind_eq_some_iff, int32_eq_some] at h
    obtain ⟨e, he, e', he', d, ⟨rfl, -⟩, hr⟩ := h
    cases hr
    exact ⟨e, e', by rw [if_pos hv, if_pos hv, he], by rw [if_pos hv, if_pos hv, he'], by rw [if_pos hv]⟩
  · next hv =>
    simp only [Option.bind_eq_bind, Option.bind_eq_some_iff, int32_eq_some] at h
    obtain ⟨e, he, e', he', d, ⟨rfl, -⟩, hr⟩ := h
    cases hr
    exact ⟨e, e', by rw [if_neg hv, if_neg hv, he], by rw [if_neg hv, if_neg hv, he'], by rw [if_neg hv]⟩

/-- Where the products exceed a `size_t`, the first one that wraps around puts
the end of its thumbnail back to the start of the strip. -/
theorem wrap_inverts {h thumbs : Nat} (hh : h < 2147483648) (ht : thumbs < 9223372036854775808)
    (hmul : 18446744073709551616 ≤ h * thumbs) :
    ∃ k < thumbs, 1 ≤ h * k % 18446744073709551616 / thumbs ∧ h * k % 18446744073709551616 / thumbs ≤ h ∧
      h * (k + 1) % 18446744073709551616 / thumbs = 0 := by
  have h0 : 0 < h := Nat.pos_of_ne_zero fun h0 => by rw [h0, Nat.zero_mul] at hmul; omega
  have hlt : h < thumbs := by
    by_contra hge
    have : h * thumbs ≤ 2147483648 * 2147483648 := Nat.mul_le_mul hh.le (by omega)
    omega
  have hlo : h * (18446744073709551615 / h) ≤ 18446744073709551615 := Nat.mul_div_le _ _
  have hhi : 18446744073709551615 < h * (18446744073709551615 / h + 1) := Nat.lt_mul_div_succ _ h0
  -- `k` is the last index whose product does not wrap around.
  generalize 18446744073709551615 / h = k at hlo hhi
  have hkt : k < thumbs := by
    by_contra hge
    have := Nat.mul_le_mul_left h (Nat.not_lt.1 hge)
    omega
  have hsucc : h * (k + 1) = h * k + h := Nat.mul_succ h k
  have hk : h * k % 18446744073709551616 = h * k := Nat.mod_eq_of_lt (by omega)
  have hk' : h * (k + 1) % 18446744073709551616 = h * (k + 1) - 18446744073709551616 := by omega
  refine ⟨k, hkt, ?_, ?_, ?_⟩
  · rw [hk, Nat.one_le_div_iff (by omega)]
    omega
  · rw [hk]
    exact Nat.div_le_of_le_mul (by rw [Nat.mul_comm thumbs h]; exact Nat.mul_le_mul_left h hkt.le)
  · rw [hk', Nat.div_eq_zero_iff]
    right
    omega

/-- Thumbnails that are not inverted come from products that do not wrap around. -/
theorem product_of_contained (hk : spec.kind = .pip) (ha : area.Fits) (hn : n ≠ 0) (hn' : n < 9223372036854775808)
    (h : Contained spec area n) : (spec.edge.length area).toNat * (n - 1) < 18446744073709551616 := by
  have ht := thickness_of_contained hk hn h
  obtain ⟨rects, hr, hall⟩ := h
  obtain ⟨main, strip, hs, -, hthumbs⟩ := pip_computed hk hn hr
  rw [pipSplit_eq ha (pipThumb_pos spec area).le ht] at hs
  cases hs
  have hlen : ∃ l : Nat, spec.edge.length area = l ∧ l < 2147483648 ∧
      spec.edge.length (pipStrip spec.edge area (pipThumb spec area)) = l := by
    have hw := ha.w
    have hh := ha.h
    refine ⟨(spec.edge.length area).toNat, ?_, ?_, ?_⟩ <;> cases spec.edge <;>
      simp only [Edge.length, Edge.vertical, pipStrip, if_true, Bool.false_eq_true, if_false] <;> omega
  obtain ⟨l, hl, hl', hls⟩ := hlen
  rw [hl, Int.toNat_natCast]
  by_contra hge
  obtain ⟨k, hkt, h1, h2, h3⟩ := wrap_inverts hl' (by omega) (Nat.not_lt.1 hge)
  have hlenr := computeLayout_length hr
  have hget := hthumbs k hkt
  rw [List.getElem?_eq_getElem (by omega)] at hget
  have hin := (hall (k + 1) _ (List.getElem?_eq_getElem (by omega))).2 (not_parked (by rw [hk]; decide) n (k + 1))
  obtain ⟨e, e', he, he', hd⟩ := pipThumbnail_sides hget
  rw [hls] at he he'
  have hev := pipEdge_value (by omega) he
  have hev' := pipEdge_value (by omega) he'
  rw [h3] at hev'
  rw [toInt32_of (by omega) (by omega)] at hev hev'
  have h0 := within_length hin spec.edge
  omega

end Pip

/-! ## The condition -/

/-- A layout with room lies in the area. Conversely a layout in the area has
room, for as many slots as a vector can have and a grid can number. -/
theorem contained_iff (spec : LayoutSpec) (area : Rect) (ha : area.Fits) (n : Nat) :
    (Roomy spec area n → Contained spec area n) ∧
      (n < 9223372036854775808 → (spec.kind = .grid → n ≤ 2147483648) → Contained spec area n → Roomy spec area n) := by
  constructor
  · intro h
    by_cases hn : n = 0
    · rw [hn]
      exact contained_zero spec area
    · unfold Roomy at h
      split at h
      · next hk => exact contained_stacked hk ha hn
      · next hk => exact contained_grid hk ha (by omega) h
      · next hk =>
        obtain ⟨ht, hmul⟩ := h.resolve_left hn
        exact contained_pip hk ha (by omega) ht hmul
  · intro hn hg h
    unfold Roomy
    split
    · trivial
    · next hk => exact hg hk
    · next hk =>
      by_cases h0 : n = 0
      · exact .inl h0
      · exact .inr ⟨thickness_of_contained hk h0 h, product_of_contained hk ha h0 hn h⟩

/-- The derived strip always leaves room. -/
theorem derived_thumb_fits {spec : LayoutSpec} (h : spec.thumb.toInt ≤ 0) {area : Rect} (hw : 1 ≤ area.w)
    (hh : 1 ≤ area.h) : pipThumb spec area ≤ spec.edge.thickness area := by
  rw [pipThumb, if_neg (by omega), Int.tdiv_eq_ediv_of_nonneg (by omega)]
  unfold Edge.thickness
  split <;> omega

/-- `--layout pip --thumb 3000` on a screen of 1920 by 1080 pixels. -/
def thickStrip : LayoutSpec := { kind := .pip, thumb := 3000 }

def screen : Rect := ⟨0, 0, 1920, 1080⟩

/-- The master's window would be 1080 pixels less than nothing wide. -/
theorem thick_strip_inverts : computeLayout thickStrip screen 2 = some [⟨0, 0, -1080, 1080⟩, ⟨-1080, 0, 3000, 1080⟩] ∧
    screen.Fits ∧ ¬ Contained thickStrip screen 2 := by
  have h : computeLayout thickStrip screen 2 = some [⟨0, 0, -1080, 1080⟩, ⟨-1080, 0, 3000, 1080⟩] := by decide +kernel
  refine ⟨h, by constructor <;> decide, ?_⟩
  rintro ⟨rects, hr, hall⟩
  cases h.symm.trans hr
  have hw := ((hall 0 _ rfl).2 (not_parked (by decide) 2 0)).w
  exact absurd hw (by decide)

/-- A strip of 400 pixels leaves the master 1520. -/
theorem contained_thin : Contained { kind := .pip, thumb := 400 } screen 2 :=
  (contained_iff { kind := .pip, thumb := 400 } screen (by constructor <;> decide) 2).1 (.inr ⟨by decide, by decide⟩)

end MultiMadness
