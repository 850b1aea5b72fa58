import Mathlib.Algebra.Group.Action.Defs
import Mathlib.Algebra.Order.BigOperators.Group.List
import Mathlib.Algebra.Order.Floor.Semiring
import Mathlib.Data.List.Induction
import MultiMadness.StatLib.OrderStat
import MultiMadness.LatencyStats
/-!
# What the latency numbers say

The histogram against the latencies that were recorded, as a multiset.

- `recorded_of`: the fields after any recording.
- `percentileUs_eq`: a percentile is the upper edge of the bucket of an order
  statistic.
- `percentiles_exact`: all the numbers that are printed.
-/

namespace MultiMadness.Percentiles

open StatLib
open LatencyStats (record bucket percentileLoop)

/-- The statistics after recording `us`, in that order. -/
def recorded (us : List UInt32) : LatencyStats := us.foldl record {}

def values (us : List UInt32) : List ℕ := us.map UInt32.toNat

/-! ## The fields -/

/-- What the fields hold, up to the widths of their types. -/
structure Holds (us : List UInt32) (s : LatencyStats) : Prop where
  buckets : ∀ b, s.buckets b = UInt64.ofNat (us.countP fun x => bucket x = b)
  count : s.count = UInt64.ofNat us.length
  sum : s.sum = UInt64.ofNat (values us).sum
  min : (∀ x ∈ us, s.min ≤ x) ∧ (s.min ∈ us ∨ s.min = 0xFFFFFFFF)
  max : (∀ x ∈ us, x ≤ s.max) ∧ (s.max ∈ us ∨ s.max = 0)

/-- The more extreme of the old extreme and a new value. -/
theorem extreme_snoc (le : UInt32 → UInt32 → Prop) (hrefl : ∀ x, le x x) (htrans : ∀ x y z, le x y → le y z → le x z)
    {us : List UInt32} {m init x m' : UInt32} (h : (∀ y ∈ us, le m y) ∧ (m ∈ us ∨ m = init))
    (hm' : m' = x ∧ le x m ∨ m' = m ∧ le m x) :
    (∀ y ∈ us ++ [x], le m' y) ∧ (m' ∈ us ++ [x] ∨ m' = init) := by
  obtain ⟨hle, hmem⟩ := h
  rcases hm' with ⟨rfl, hx⟩ | ⟨rfl, hx⟩
  · refine ⟨?_, .inl (by simp)⟩
    intro y hy
    rcases List.mem_append.1 hy with hy | hy
    · exact htrans _ _ _ hx (hle y hy)
    · rw [List.mem_singleton.1 hy]
      exact hrefl _
  · refine ⟨?_, hmem.imp_left (List.mem_append_left _)⟩
    intro y hy
    rcases List.mem_append.1 hy with hy | hy
    · exact hle y hy
    · rwa [List.mem_singleton.1 hy]

theorem holds_record {us : List UInt32} {s : LatencyStats} (h : Holds us s) (x : UInt32) :
    Holds (us ++ [x]) (s.record x) := by
  refine ⟨?_, ?_, ?_, ?_, ?_⟩
  · intro b
    rw [record, List.countP_append, List.countP_singleton, UInt64.ofNat_add, ← h.buckets b]
    by_cases hb : b = bucket x
    · subst hb
      simp
    · simp [hb, Ne.symm hb]
  · rw [List.length_append, UInt64.ofNat_add, ← h.count]
    rfl
  · have hx : UInt64.ofNat (values [x]).sum = x.toUInt64 := by simp [values]
    rw [values, List.map_append, List.sum_append, UInt64.ofNat_add]
    exact congrArg₂ (· + ·) h.sum hx.symm
  · refine extreme_snoc (· ≤ ·) UInt32.le_refl (fun _ _ _ => UInt32.le_trans) h.min ?_
    simp only [record]
    split
    · next hlt => exact .inl ⟨rfl, UInt32.le_of_lt hlt⟩
    · next hge => exact .inr ⟨rfl, UInt32.not_lt.1 hge⟩
  · refine extreme_snoc (· ≥ ·) UInt32.le_refl (fun _ _ _ h h' => UInt32.le_trans h' h) h.max ?_
    simp only [record]
    split
    · next hlt => exact .inl ⟨rfl, UInt32.le_of_lt hlt⟩
    · next hge => exact .inr ⟨rfl, UInt32.not_lt.1 hge⟩

theorem recorded_of (us : List UInt32) : Holds us (recorded us) := by
  induction us using List.reverseRecOn with
  | nil => exact ⟨fun _ => rfl, rfl, rfl, ⟨by simp, .inr rfl⟩, ⟨by simp, .inr rfl⟩⟩
  | append_singleton us x ih =>
    rw [recorded, List.foldl_append]
    exact holds_record ih x

/-! ## The scan -/

section Scan
variable {us : List UInt32}

/-- How many recorded latencies fall into the buckets before `i`. -/
def seenBefore (us : List UInt32) (i : ℕ) : ℕ := us.countP fun x => (bucket x).val < i

theorem seenBefore_succ (us : List UInt32) (b : Fin kBuckets) :
    seenBefore us (b.val + 1) = seenBefore us b.val + us.countP fun x => bucket x = b := by
  unfold seenBefore
  induction us with
  | nil => rfl
  | cons x us ih =>
    have hx : ((bucket x).val < b.val + 1) = ((bucket x).val < b.val ∨ bucket x = b) := by
      rw [Fin.ext_iff, eq_iff_iff]
      omega
    have hdisj : ¬ ((bucket x).val < b.val ∧ bucket x = b) := by
      rw [Fin.ext_iff]
      omega
    simp only [List.countP_cons, ih, decide_eq_true_eq]
    split <;> split <;> split <;> simp_all <;> omega

theorem seenBefore_le (us : List UInt32) (i : ℕ) : seenBefore us i ≤ us.length := List.countP_le_length

/-- One turn of the loop, at bucket `i`. -/
theorem percentileLoop_turn (hlen : us.length < 2 ^ 64) (target : ℚ) {i : ℕ} (hi : i < kBuckets) :
    (recorded us).percentileLoop target ((List.finRange kBuckets).drop i) (UInt64.ofNat (seenBefore us i)) =
      if (seenBefore us (i + 1) : ℚ) ≥ target then UInt32.ofNat ((i + 1) * kBucketUs.toNat)
      else (recorded us).percentileLoop target ((List.finRange kBuckets).drop (i + 1))
        (UInt64.ofNat (seenBefore us (i + 1))) := by
  have hi' : i < (List.finRange kBuckets).length := by rwa [List.length_finRange]
  have hget : (List.finRange kBuckets)[i] = ⟨i, hi⟩ := by simp
  have hseen : UInt64.ofNat (seenBefore us i) + (recorded us).buckets ⟨i, hi⟩ =
      UInt64.ofNat (seenBefore us (i + 1)) := by
    rw [(recorded_of us).buckets, ← UInt64.ofNat_add, ← seenBefore_succ us ⟨i, hi⟩]
  have hnat : (UInt64.ofNat (seenBefore us (i + 1))).toNat = seenBefore us (i + 1) := by
    rw [UInt64.toNat_ofNat', Nat.mod_eq_of_lt ((seenBefore_le us _).trans_lt hlen)]
  rw [List.drop_eq_getElem_cons hi', hget, percentileLoop]
  dsimp only
  rw [hseen, hnat]

/-- The loop stops at the first bucket up to which enough latencies are counted. -/
theorem percentileLoop_eq (hlen : us.length < 2 ^ 64) {target : ℚ} {b : Fin kBuckets}
    (hb : IsLeast {b : Fin kBuckets | (seenBefore us (b.val + 1) : ℚ) ≥ target} b) {i d : ℕ} (hd : i + d = b.val) :
    (recorded us).percentileLoop target ((List.finRange kBuckets).drop i) (UInt64.ofNat (seenBefore us i)) =
      UInt32.ofNat ((b + 1) * kBucketUs.toNat) := by
  have hi : i < kBuckets := by omega
  rw [percentileLoop_turn hlen target hi]
  induction d generalizing i with
  | zero =>
    obtain rfl : i = b.val := hd
    exact if_pos hb.1
  | succ d ih =>
    have hnot : ¬ (seenBefore us (i + 1) : ℚ) ≥ target := by
      intro hge
      have hle : b.val ≤ i := hb.2 (show (⟨i, hi⟩ : Fin kBuckets) ∈ _ from hge)
      omega
    have hi1 : i + 1 < kBuckets := by omega
    rw [if_neg hnot, percentileLoop_turn hlen target hi1, ih (by omega) hi1]

/-! ## The percentile -/

theorem toNat_count (hlen : us.length < 2 ^ 32) : (recorded us).count.toNat = us.length := by
  rw [(recorded_of us).count, UInt64.toNat_ofNat', Nat.mod_eq_of_lt (by omega)]

theorem count_ne (hne : us ≠ []) (hlen : us.length < 2 ^ 32) : (recorded us).count ≠ 0 := by
  intro h
  have hcount := toNat_count hlen
  rw [h] at hcount
  exact hne (List.eq_nil_of_length_eq_zero hcount.symm)

/-- The bucket of a latency, for the latencies as numbers. -/
def bucketOf (v : ℕ) : Fin kBuckets := ⟨min (v / 25) 2047, Nat.lt_succ_of_le (Nat.min_le_right _ _)⟩

theorem monotone_bucketOf : Monotone bucketOf := by
  intro v w h
  show min (v / 25) 2047 ≤ min (w / 25) 2047
  have := Nat.div_le_div_right (c := 25) h
  omega

theorem bucket_eq (x : UInt32) : bucket x = bucketOf x.toNat := by
  apply Fin.ext
  unfold bucket bucketOf
  split
  · next h =>
    have h' : x.toNat / 25 < 2048 := h
    show x.toNat / 25 = min (x.toNat / 25) 2047
    omega
  · next h =>
    have h' : ¬ x.toNat / 25 < 2048 := h
    show 2047 = min (x.toNat / 25) 2047
    omega

theorem seenBefore_eq (us : List UInt32) (b : Fin kBuckets) :
    seenBefore us (b.val + 1) = (values us).countP fun v => decide (bucketOf v ≤ b) := by
  rw [seenBefore, values, List.countP_map]
  congr 1
  funext x
  rw [Function.comp_apply, ← bucket_eq, decide_eq_decide, Fin.le_def]
  omega

/-- A percentile is the upper edge of the bucket of an order statistic. -/
theorem percentileUs_eq (hlen : us.length < 2 ^ 32) {pct : ℚ} (h0 : 0 < pct) (h1 : pct ≤ 100) {v : ℕ}
    (hv : kthSmallest (values us) ⌈pct * us.length / 100⌉₊ = some v) :
    ((recorded us).percentileUs pct).toNat = 25 * (min (v / 25) 2047 + 1) := by
  have hpos : 0 < us.length := by
    by_contra hnone
    rw [List.eq_nil_of_length_eq_zero (by omega : us.length = 0)] at hv
    cases hv
  have hcount := toNat_count hlen
  have hne : ¬ (recorded us).count = 0 := count_ne (List.length_pos_iff.1 hpos) hlen
  have htarget : clamp pct 0 100 / 100 * (us.length : ℚ) = pct * us.length / 100 := by
    rw [clamp, if_neg (by linarith), if_neg (by linarith)]
    ring
  have hk : 0 < ⌈pct * us.length / 100⌉₊ := by
    have hq : (0 : ℚ) < us.length := by exact_mod_cast hpos
    exact Nat.ceil_pos.2 (by positivity)
  -- Counting enough latencies is reaching the rank.
  have hleast : IsLeast {b : Fin kBuckets | (seenBefore us (b.val + 1) : ℚ) ≥ pct * us.length / 100} (bucketOf v) := by
    have h := isLeast_cumulative monotone_bucketOf hk hv
    simpa only [← seenBefore_eq, Nat.ceil_le] using h
  have hloop := percentileLoop_eq (by omega) hleast (Nat.zero_add (bucketOf v).val)
  have hstart : seenBefore us 0 = 0 := by simp [seenBefore]
  have hzero : UInt64.ofNat 0 = 0 := rfl
  rw [hstart, hzero, List.drop_zero] at hloop
  have hval : (bucketOf v).val = min (v / 25) 2047 := rfl
  rw [LatencyStats.percentileUs, if_neg hne, hcount, htarget, hloop, hval, UInt32.toNat_ofNat', show kBucketUs.toNat = 25 from rfl]
  omega

end Scan

/-! ## The order of recording -/

theorem least_comm (m a b : UInt32) :
    (if b < (if a < m then a else m) then b else if a < m then a else m) =
      if a < (if b < m then b else m) then a else if b < m then b else m := by
  simp only [UInt32.lt_iff_toNat_lt, ← UInt32.toNat_inj]
  grind

theorem greatest_comm (m a b : UInt32) :
    (if (if m < a then a else m) < b then b else if m < a then a else m) =
      if (if m < b then b else m) < a then a else if m < b then b else m := by
  simp only [UInt32.lt_iff_toNat_lt, ← UInt32.toNat_inj]
  grind

theorem buckets_comm (f : Fin kBuckets → UInt64) (b c : Fin kBuckets) :
    Function.update (Function.update f b (f b + 1)) c (Function.update f b (f b + 1) c + 1) =
      Function.update (Function.update f c (f c + 1)) b (Function.update f c (f c + 1) b + 1) := by
  by_cases h : b = c
  · rw [h]
  · rw [Function.update_of_ne h, Function.update_of_ne (Ne.symm h), Function.update_comm h]

instance : RightCommutative record where
  right_comm s a b := by
    simp only [record, LatencyStats.mk.injEq]
    refine ⟨buckets_comm s.buckets _ _, trivial, ?_, least_comm s.min a b, greatest_comm s.max a b⟩
    rw [UInt64.add_assoc, UInt64.add_assoc, UInt64.add_comm a.toUInt64]

theorem recorded_perm {us vs : List UInt32} (h : us.Perm vs) : recorded us = recorded vs := h.foldl_eq _

/-! ## Count, least, greatest and mean -/

section Summary
variable {us : List UInt32}

theorem isLeast_minUs (hne : us ≠ []) (hlen : us.length < 2 ^ 32) :
    IsLeast {v | v ∈ values us} (recorded us).minUs.toNat := by
  obtain ⟨hle, hmem⟩ := (recorded_of us).min
  rw [LatencyStats.minUs, if_pos (count_ne hne hlen)]
  refine ⟨?_, ?_⟩
  · rcases hmem with hmem | hinit
    · exact List.mem_map_of_mem hmem
    · -- Nothing is below the initial value but what was recorded, which is not above it.
      obtain ⟨x, hx⟩ := List.exists_mem_of_ne_nil us hne
      have hxle := UInt32.le_iff_toNat_le.1 (hle x hx)
      have hxlt := x.toNat_lt
      have heq : (recorded us).min = x := by
        rw [← UInt32.toNat_inj]
        rw [hinit] at hxle ⊢
        have : (0xFFFFFFFF : UInt32).toNat = 4294967295 := rfl
        omega
      rw [heq]
      exact List.mem_map_of_mem hx
  · rintro v hv
    obtain ⟨x, hx, rfl⟩ := List.mem_map.1 hv
    exact UInt32.le_iff_toNat_le.1 (hle x hx)

theorem isGreatest_maxUs (hne : us ≠ []) : IsGreatest {v | v ∈ values us} (recorded us).maxUs.toNat := by
  obtain ⟨hle, hmem⟩ := (recorded_of us).max
  rw [LatencyStats.maxUs]
  refine ⟨?_, ?_⟩
  · rcases hmem with hmem | hinit
    · exact List.mem_map_of_mem hmem
    · obtain ⟨x, hx⟩ := List.exists_mem_of_ne_nil us hne
      have hxle := UInt32.le_iff_toNat_le.1 (hle x hx)
      have heq : (recorded us).max = x := by
        rw [← UInt32.toNat_inj]
        rw [hinit] at hxle ⊢
        have : (0 : UInt32).toNat = 0 := rfl
        omega
      rw [heq]
      exact List.mem_map_of_mem hx
  · rintro v hv
    obtain ⟨x, hx, rfl⟩ := List.mem_map.1 hv
    exact UInt32.le_iff_toNat_le.1 (hle x hx)

/-- The sum lies between `n` times the least and `n` times the greatest value. -/
theorem sum_bounds (hne : us ≠ []) (hlen : us.length < 2 ^ 32) :
    us.length * (recorded us).minUs.toNat ≤ (values us).sum ∧
      (values us).sum ≤ us.length * (recorded us).maxUs.toNat := by
  have hl : (values us).length = us.length := List.length_map _
  refine ⟨?_, ?_⟩
  · have h := List.card_nsmul_le_sum (values us) _ fun v hv => (isLeast_minUs hne hlen).2 hv
    rwa [hl, smul_eq_mul] at h
  · have h := List.sum_le_card_nsmul (values us) _ fun v hv => (isGreatest_maxUs hne).2 hv
    rwa [hl, smul_eq_mul] at h

theorem toNat_sum (hne : us ≠ []) (hlen : us.length < 2 ^ 32) : (recorded us).sum.toNat = (values us).sum := by
  have h := (sum_bounds hne hlen).2
  have hmax := (recorded us).maxUs.toNat_lt
  have hmul : us.length * (recorded us).maxUs.toNat ≤ us.length * 2 ^ 32 := Nat.mul_le_mul_left _ hmax.le
  rw [(recorded_of us).sum, UInt64.toNat_ofNat', Nat.mod_eq_of_lt (by omega)]

theorem toNat_meanUs (hne : us ≠ []) (hlen : us.length < 2 ^ 32) :
    (recorded us).meanUs.toNat = (values us).sum / us.length := by
  have hpos := List.length_pos_iff.2 hne
  have hdiv : (values us).sum / us.length ≤ (recorded us).maxUs.toNat := by
    apply Nat.div_le_of_le_mul
    exact (sum_bounds hne hlen).2
  have hmax := (recorded us).maxUs.toNat_lt
  rw [LatencyStats.meanUs, if_pos (count_ne hne hlen), UInt64.toNat_toUInt32, UInt64.toNat_div, toNat_sum hne hlen,
    toNat_count hlen, Nat.mod_eq_of_lt (by omega)]

end Summary

/-! ## All the numbers -/

/-- The numbers of the `[stats]` line against the recorded values. -/
structure Exact (us : List UInt32) : Prop where
  percentile : ∀ pct : ℚ, 0 < pct → pct ≤ 100 → ∃ v, kthSmallest (values us) ⌈pct * us.length / 100⌉₊ = some v ∧
    ((recorded us).percentileUs pct).toNat = 25 * (min (v / 25) 2047 + 1) ∧
    (v < 51200 → v < ((recorded us).percentileUs pct).toNat ∧ ((recorded us).percentileUs pct).toNat ≤ v + 25) ∧
    (51200 ≤ v → ((recorded us).percentileUs pct).toNat = 51200)
  mono : ∀ p q : ℚ, 0 < p → p ≤ q → q ≤ 100 → (recorded us).percentileUs p ≤ (recorded us).percentileUs q
  order : ∀ vs, us.Perm vs → recorded vs = recorded us
  count : (recorded us).count.toNat = us.length
  sum : (recorded us).sum.toNat = (values us).sum
  least : IsLeast {v | v ∈ values us} (recorded us).minUs.toNat
  greatest : IsGreatest {v | v ∈ values us} (recorded us).maxUs.toNat
  mean : (recorded us).meanUs.toNat = (values us).sum / us.length
  between : (recorded us).minUs ≤ (recorded us).meanUs ∧ (recorded us).meanUs ≤ (recorded us).maxUs

section Exactness
variable {us : List UInt32}

/-- The rank of a percentile is one of the ranks of the list. -/
theorem exists_rank (hne : us ≠ []) {pct : ℚ} (h0 : 0 < pct) (h1 : pct ≤ 100) :
    0 < ⌈pct * us.length / 100⌉₊ ∧ ∃ v, kthSmallest (values us) ⌈pct * us.length / 100⌉₊ = some v := by
  have hq : (0 : ℚ) < us.length := by exact_mod_cast List.length_pos_iff.2 hne
  have hpos : 0 < ⌈pct * us.length / 100⌉₊ := Nat.ceil_pos.2 (by positivity)
  refine ⟨hpos, exists_kth hpos ?_⟩
  rw [values, List.length_map, Nat.ceil_le, div_le_iff₀ (by norm_num), mul_comm]
  exact mul_le_mul_of_nonneg_left h1 hq.le

theorem percentileUs_mono (hne : us ≠ []) (hlen : us.length < 2 ^ 32) {p q : ℚ} (h0 : 0 < p) (hpq : p ≤ q)
    (h1 : q ≤ 100) : (recorded us).percentileUs p ≤ (recorded us).percentileUs q := by
  obtain ⟨hk, v, hv⟩ := exists_rank hne h0 (hpq.trans h1)
  obtain ⟨-, w, hw⟩ := exists_rank hne (h0.trans_le hpq) h1
  have hrank : ⌈p * us.length / 100⌉₊ ≤ ⌈q * us.length / 100⌉₊ := by
    apply Nat.ceil_mono
    gcongr
  have hvw := Nat.div_le_div_right (c := 25) (kth_mono hk hv hrank hw)
  rw [UInt32.le_iff_toNat_le, percentileUs_eq hlen h0 (hpq.trans h1) hv, percentileUs_eq hlen (h0.trans_le hpq) h1 hw]
  omega

end Exactness

/-- For every multiset of fewer than 2^32 latencies the printed percentiles are
those of the multiset up to one bucket, and the other numbers are exact. -/
theorem percentiles_exact (us : List UInt32) (hne : us ≠ []) (hlen : us.length < 2 ^ 32) : Exact us := by
  have hpos := List.length_pos_iff.2 hne
  refine ⟨?_, fun p q h0 hpq h1 => percentileUs_mono hne hlen h0 hpq h1, fun vs h => recorded_perm h.symm,
    toNat_count hlen, toNat_sum hne hlen, isLeast_minUs hne hlen, isGreatest_maxUs hne, toNat_meanUs hne hlen, ?_, ?_⟩
  · intro pct h0 h1
    obtain ⟨-, v, hv⟩ := exists_rank hne h0 h1
    have hp := percentileUs_eq hlen h0 h1 hv
    exact ⟨v, hv, hp, fun h => by omega, fun h => by omega⟩
  · rw [UInt32.le_iff_toNat_le, toNat_meanUs hne hlen, Nat.le_div_iff_mul_le hpos, Nat.mul_comm]
    exact (sum_bounds hne hlen).1
  · rw [UInt32.le_iff_toNat_le, toNat_meanUs hne hlen]
    exact Nat.div_le_of_le_mul (sum_bounds hne hlen).2

/-- Three latencies, one of them beyond the histogram. -/
theorem percentiles_exact_three : (recorded [100, 60000, 7]).percentileUs 50 = 125 ∧ Exact [100, 60000, 7] :=
  ⟨by decide +kernel, percentiles_exact [100, 60000, 7] (by decide) (by decide)⟩

end MultiMadness.Percentiles
