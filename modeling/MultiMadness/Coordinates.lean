import MultiMadness.ScaleLib.Rescale
import MultiMadness.Broadcaster
/-!
# Click mapping and absolute coordinates

How `normalize` and `denormalize` carry a point from one client area to
another, and `to_absolute` to the virtual screen, one axis at a time.

- `mapAxis`, `scale_eq`: an axis of the two mappings.
- `click_sound`: a mapped click lands inside the slave.
- `absolute_exact`: every pixel of the virtual screen has coordinates of its own.
-/

namespace MultiMadness

open ScaleLib

/-! ## One axis of the click mapping -/

/-- The share of the master's side at which a coordinate lies, cut off at its ends. -/
def share (origin extent p : Int) : ℚ := clamp (((p : ℚ) - origin) / extent) 0 1

/-- The slave's pixel nearest to the same share of its side. -/
def mapAxis (mo mw so sw p : Int) : Int := min (so + round (share mo mw p * sw)) (so + sw - 1)

section Axis
variable {mo mw so sw p : Int}

theorem share_mem (mo mw p : Int) : 0 ≤ share mo mw p ∧ share mo mw p ≤ 1 := clamp_mem (by norm_num) _

theorem share_mono (hm : 0 < mw) {q : Int} (h : p ≤ q) : share mo mw p ≤ share mo mw q := by
  have hmq : (0 : ℚ) < mw := by exact_mod_cast hm
  have hpq : (p : ℚ) ≤ q := by exact_mod_cast h
  apply clamp_mono (by norm_num)
  gcongr

theorem share_low (hm : 0 < mw) (h : p ≤ mo) : share mo mw p = 0 := by
  have hmq : (0 : ℚ) < mw := by exact_mod_cast hm
  have hp : (p : ℚ) ≤ mo := by exact_mod_cast h
  exact clamp_eq_lo (div_nonpos_of_nonpos_of_nonneg (by linarith) hmq.le) (by norm_num)

theorem share_high (hm : 0 < mw) (h : mo + mw ≤ p) : share mo mw p = 1 := by
  have hmq : (0 : ℚ) < mw := by exact_mod_cast hm
  have hp : (mo : ℚ) + mw ≤ p := by exact_mod_cast h
  exact clamp_eq_hi ((one_le_div hmq).2 (by linarith)) (by norm_num)

theorem share_inside (hm : 0 < mw) (h0 : mo ≤ p) (h1 : p ≤ mo + mw) : share mo mw p = ((p - mo : Int) : ℚ) / mw := by
  have hmq : (0 : ℚ) < mw := by exact_mod_cast hm
  have hp0 : (mo : ℚ) ≤ p := by exact_mod_cast h0
  have hp1 : (p : ℚ) ≤ mo + mw := by exact_mod_cast h1
  rw [Int.cast_sub]
  exact clamp_of_mem (div_nonneg (by linarith) hmq.le) ((div_le_one hmq).2 (by linarith))

/-- The rounded share is at most the slave's side. -/
theorem round_mem (mo mw p : Int) (hs : 0 < sw) :
    0 ≤ round (share mo mw p * sw) ∧ round (share mo mw p * sw) ≤ sw :=
  round_share (share_mem mo mw p).1 (share_mem mo mw p).2 hs.le

theorem mapAxis_mem (mo mw p : Int) (hs : 0 < sw) : so ≤ mapAxis mo mw so sw p ∧ mapAxis mo mw so sw p < so + sw := by
  have h := round_mem mo mw p hs
  unfold mapAxis
  omega

theorem mapAxis_mono (hm : 0 < mw) (hs : 0 < sw) {q : Int} (h : p ≤ q) :
    mapAxis mo mw so sw p ≤ mapAxis mo mw so sw q := by
  have hsq : (0 : ℚ) ≤ sw := by exact_mod_cast hs.le
  have hshare : share mo mw p ≤ share mo mw q := share_mono hm h
  have hround := round_mono (mul_le_mul_of_nonneg_right hshare hsq)
  unfold mapAxis
  omega

/-- On a side of the same length every pixel keeps its place. -/
theorem mapAxis_same (hm : 0 < mw) (h0 : mo ≤ p) (h1 : p < mo + mw) : mapAxis mo mw so mw p = p - mo + so := by
  have hmq : (mw : ℚ) ≠ 0 := by exact_mod_cast hm.ne'
  rw [mapAxis, share_inside hm h0 h1.le, div_mul_cancel₀ _ hmq, round_intCast]
  omega

theorem mapAxis_low (hm : 0 < mw) (hs : 0 < sw) (h : p ≤ mo) : mapAxis mo mw so sw p = so := by
  rw [mapAxis, share_low hm h, zero_mul, round_zero]
  omega

theorem mapAxis_high (hm : 0 < mw) (h : mo + mw ≤ p) : mapAxis mo mw so sw p = so + sw - 1 := by
  rw [mapAxis, share_high hm h, one_mul, round_intCast]
  omega

end Axis

/-! ## Clicks -/

/-- Where a point of the master's screen lands on the slave's. -/
def mapPoint (master slave : Rect) (x y : Int) : Point := denormalize slave (normalize master x y)

theorem mapPoint_eq {master slave : Rect} (hmw : 0 < master.w) (hmh : 0 < master.h) (hsw : 0 < slave.w)
    (hsh : 0 < slave.h) (x y : Int) :
    mapPoint master slave x y =
      ⟨mapAxis master.x master.w slave.x slave.w x, mapAxis master.y master.h slave.y slave.h y⟩ := by
  have hx := mul_nonneg (share_mem master.x master.w x).1 (show (0 : ℚ) ≤ slave.w by exact_mod_cast hsw.le)
  have hy := mul_nonneg (share_mem master.y master.h y).1 (show (0 : ℚ) ≤ slave.h by exact_mod_cast hsh.le)
  simp only [mapPoint, denormalize, normalize, if_pos hmw, if_pos hmh, if_pos hsw, if_pos hsh, Rect.right, Rect.bottom]
  rw [← share, ← share, truncate_half hx, truncate_half hy]
  rfl

/-- The broadcaster maps the points of mirrored clicks so. -/
theorem mapped_eq (b : Broadcaster) (env : Env) (target : Nat) (x y : Int) :
    b.mapped env target x y = mapPoint (b.clientOf env b.master) (b.clientOf env target) x y := rfl

/-- The 32-bit values computed on one axis are defined. -/
structure AxisDefined (mo mw so sw p : Int) : Prop where
  offset : int32 (p - mo) = some (p - mo)
  rounded : int32 (round (share mo mw p * sw)) = some (round (share mo mw p * sw))
  placed : int32 (so + round (share mo mw p * sw)) = some (so + round (share mo mw p * sw))
  last : int32 (so + sw - 1) = some (so + sw - 1)

theorem axisDefined {mo mw so sw p : Int} (hp : (int32 (p - mo)).isSome = true) (hs : 0 < sw) (hw : sw ≤ 2147483647)
    (ho : -2147483648 ≤ so) (hr : so + sw ≤ 2147483647) : AxisDefined mo mw so sw p := by
  have h := round_mem mo mw p hs
  refine ⟨?_, int32_of (by omega) (by omega), int32_of (by omega) (by omega), int32_of (by omega) (by omega)⟩
  unfold int32 at hp ⊢
  split at hp
  · next hin => rw [if_pos hin]
  · cases hp

structure ClickSound (master slave : Rect) : Prop where
  inside : ∀ x y, slave.contains (mapPoint master slave x y).x (mapPoint master slave x y).y = true
  monoX : ∀ x x' y y', x ≤ x' → (mapPoint master slave x y).x ≤ (mapPoint master slave x' y').x
  monoY : ∀ x x' y y', y ≤ y' → (mapPoint master slave x y).y ≤ (mapPoint master slave x' y').y
  exact : master.w = slave.w → master.h = slave.h → ∀ x y, master.contains x y = true →
    mapPoint master slave x y = ⟨x - master.x + slave.x, y - master.y + slave.y⟩
  left : ∀ x y, x < master.x → (mapPoint master slave x y).x = slave.x
  right : ∀ x y, master.right ≤ x → (mapPoint master slave x y).x = slave.right - 1
  above : ∀ x y, y < master.y → (mapPoint master slave x y).y = slave.y
  below : ∀ x y, master.bottom ≤ y → (mapPoint master slave x y).y = slave.bottom - 1
  defined : ∀ x y, (int32 (x - master.x)).isSome = true → (int32 (y - master.y)).isSome = true →
    AxisDefined master.x master.w slave.x slave.w x ∧ AxisDefined master.y master.h slave.y slave.h y

/-- For client areas of every size and place the mapping lands inside, keeps
order, is exact between areas of one size and sends what is outside to the border. -/
theorem click_sound (master slave : Rect) (hs : slave.Fits) (hmw : 1 ≤ master.w) (hmh : 1 ≤ master.h)
    (hsw : 1 ≤ slave.w) (hsh : 1 ≤ slave.h) : ClickSound master slave := by
  have heq : ∀ x y, mapPoint master slave x y = _ := mapPoint_eq hmw hmh hsw hsh
  have hright := hs.right
  have hbottom := hs.bottom
  unfold Rect.right at hright
  unfold Rect.bottom at hbottom
  refine ⟨?_, ?_, ?_, ?_, ?_, ?_, ?_, ?_, ?_⟩
  · intro x y
    rw [heq, Rect.contains_iff]
    exact ⟨mapAxis_mem _ _ _ hsw, mapAxis_mem _ _ _ hsh⟩
  · intro x x' y y' h
    rw [heq, heq]
    exact mapAxis_mono hmw hsw h
  · intro x x' y y' h
    rw [heq, heq]
    exact mapAxis_mono hmh hsh h
  · intro hw hh x y hin
    obtain ⟨⟨hx0, hx1⟩, hy0, hy1⟩ := Rect.contains_iff.1 hin
    rw [heq, ← hw, ← hh, mapAxis_same hmw hx0 hx1, mapAxis_same hmh hy0 hy1]
  · intro x y h
    rw [heq]
    exact mapAxis_low hmw hsw h.le
  · intro x y h
    rw [heq]
    exact mapAxis_high hmw h
  · intro x y h
    rw [heq]
    exact mapAxis_low hmh hsh h.le
  · intro x y h
    rw [heq]
    exact mapAxis_high hmh h
  · intro x y hx hy
    exact ⟨axisDefined hx hsw hs.w.2 hs.x hright, axisDefined hy hsh hs.h.2 hs.y hbottom⟩

/-- A master on a monitor to the left and a slave of half its size. -/
theorem click_sound_half : ClickSound ⟨-1920, 0, 1280, 720⟩ ⟨100, 50, 640, 360⟩ :=
  click_sound ⟨-1920, 0, 1280, 720⟩ ⟨100, 50, 640, 360⟩ (by constructor <;> decide) (by decide) (by decide) (by decide)
    (by decide)

/-! ## Absolute coordinates -/

/-- The pixel of a side that an absolute coordinate stands for: 65535 is the last one. -/
def unscale (a origin extent : Int) : Int := round ((a : ℚ) * ((extent - 1 : Int) : ℚ) / 65535) + origin

def fromAbsolute (virtualScreen : Rect) (p : AbsPoint) : Point :=
  ⟨unscale p.ax virtualScreen.x virtualScreen.w, unscale p.ay virtualScreen.y virtualScreen.h⟩

section Scale
variable {v origin extent : Int}

theorem scale_eq (h : 1 < extent) (v origin : Int) :
    scale v origin extent = round (share origin (extent - 1) v * ((65535 : Int) : ℚ)) := by
  have hpos := mul_nonneg (share_mem origin (extent - 1) v).1 (show (0 : ℚ) ≤ ((65535 : Int) : ℚ) by norm_num)
  rw [scale, if_neg (not_le.2 h), ← truncate_half hpos, share, ← Int.cast_sub]
  norm_num

theorem scale_mem (h : 1 < extent) (v origin : Int) : 0 ≤ scale v origin extent ∧ scale v origin extent ≤ 65535 := by
  rw [scale_eq h]
  exact round_mem origin (extent - 1) v (by norm_num)

theorem scale_low (h : 1 < extent) (hv : v ≤ origin) : scale v origin extent = 0 := by
  rw [scale_eq h, share_low (by omega) hv, zero_mul, round_zero]

theorem scale_high (h : 1 < extent) (hv : origin + extent - 1 ≤ v) : scale v origin extent = 65535 := by
  rw [scale_eq h, share_high (by omega) (by omega), one_mul, round_intCast]

/-- A coordinate outside counts as the nearest pixel. -/
theorem scale_clamps (h : 1 < extent) (v origin : Int) :
    scale v origin extent = scale (max origin (min v (origin + extent - 1))) origin extent := by
  rcases le_total v origin with hlo | hlo
  · rw [scale_low h hlo, scale_low h (by omega)]
  · rcases le_total (origin + extent - 1) v with hhi | hhi
    · rw [scale_high h hhi, scale_high h (by omega)]
    · rw [min_eq_left hhi, max_eq_right hlo]

/-- Up to 65536 pixels the coordinate tells which one it was. -/
theorem unscale_scale (h : 1 < extent) (hmax : extent ≤ 65536) (h0 : origin ≤ v) (h1 : v < origin + extent) :
    unscale (scale v origin extent) origin extent = v := by
  have hback := round_rescale (K := ℚ) (m := extent - 1) (M := 65535) (by omega) (by omega) (v - origin)
  rw [scale_eq h, share_inside (by omega) h0 (by omega), unscale]
  rw [Int.cast_ofNat] at hback ⊢
  rw [hback]
  omega

theorem scale_strict (h : 1 < extent) (hmax : extent ≤ 65536) {v' : Int} (h0 : origin ≤ v) (hlt : v < v')
    (h1 : v' < origin + extent) : scale v origin extent < scale v' origin extent := by
  have hle : scale v origin extent ≤ scale v' origin extent := by
    rw [scale_eq h, scale_eq h]
    exact round_mono (mul_le_mul_of_nonneg_right (share_mono (by omega) hlt.le) (by norm_num))
  refine lt_of_le_of_ne hle fun he => ?_
  have hv := unscale_scale h hmax h0 (hlt.trans h1)
  rw [he, unscale_scale h hmax (h0.trans hlt.le) h1] at hv
  omega

end Scale

structure AbsoluteExact (v : Rect) : Prop where
  range : ∀ x y, (0 ≤ (toAbsolute v x y).ax ∧ (toAbsolute v x y).ax ≤ 65535) ∧
    0 ≤ (toAbsolute v x y).ay ∧ (toAbsolute v x y).ay ≤ 65535
  first : toAbsolute v v.x v.y = ⟨0, 0⟩
  last : toAbsolute v (v.right - 1) (v.bottom - 1) = ⟨65535, 65535⟩
  clamps : ∀ x y, toAbsolute v x y =
    toAbsolute v (max v.x (min x (v.right - 1))) (max v.y (min y (v.bottom - 1)))
  strictX : ∀ x x' y y', v.x ≤ x → x < x' → x' < v.right → (toAbsolute v x y).ax < (toAbsolute v x' y').ax
  strictY : ∀ x x' y y', v.y ≤ y → y < y' → y' < v.bottom → (toAbsolute v x y).ay < (toAbsolute v x' y').ay
  decodes : ∀ x y, v.contains x y = true → fromAbsolute v (toAbsolute v x y) = ⟨x, y⟩
  restores : ∀ env os ev, env.virtualScreen = v → v.contains ev.x ev.y = true →
    ∃ p, (Broadcaster.restoreCursor env os ev).log = os.log ++ [⟨.restoreCursor, .sendMouseMoveAbs p, os.fg⟩] ∧
      fromAbsolute v p = ⟨ev.x, ev.y⟩

/-- On every virtual screen of up to 65536 by 65536 pixels the absolute
coordinates lose no pixel, and the cursor is restored to the one it had. -/
theorem absolute_exact (v : Rect) (hw : 2 ≤ v.w ∧ v.w ≤ 65536) (hh : 2 ≤ v.h ∧ v.h ≤ 65536) : AbsoluteExact v := by
  have hdec : ∀ x y, v.contains x y = true → fromAbsolute v (toAbsolute v x y) = ⟨x, y⟩ := by
    intro x y hin
    obtain ⟨⟨hx0, hx1⟩, hy0, hy1⟩ := Rect.contains_iff.1 hin
    rw [fromAbsolute, toAbsolute, unscale_scale hw.1 hw.2 hx0 hx1, unscale_scale hh.1 hh.2 hy0 hy1]
  refine ⟨?_, ?_, ?_, ?_, ?_, ?_, hdec, ?_⟩
  · exact fun x y => ⟨scale_mem hw.1 _ _, scale_mem hh.1 _ _⟩
  · rw [toAbsolute, scale_low hw.1 le_rfl, scale_low hh.1 le_rfl]
  · rw [toAbsolute, Rect.right, Rect.bottom, scale_high hw.1 le_rfl, scale_high hh.1 le_rfl]
  · intro x y
    rw [toAbsolute, toAbsolute, scale_clamps hw.1 x, scale_clamps hh.1 y]
    rfl
  · exact fun x x' _ _ h0 hlt h1 => scale_strict hw.1 hw.2 h0 hlt h1
  · exact fun _ _ y y' h0 hlt h1 => scale_strict hh.1 hh.2 h0 hlt h1
  · rintro env os ev rfl hin
    exact ⟨_, rfl, hdec ev.x ev.y hin⟩

/-- Two monitors, the second one to the left of the first. -/
theorem absolute_exact_two : AbsoluteExact ⟨-1920, 0, 3840, 1080⟩ :=
  absolute_exact ⟨-1920, 0, 3840, 1080⟩ (by decide) (by decide)

end MultiMadness
