import Mathlib.Data.List.Range
import Mathlib.Data.Nat.Nth
import Mathlib.Order.Interval.Finset.Nat
/-!
# Scanning a circle

Positions `0..n-1` on a circle, some of them live. A scan from a position goes
round the circle once and stops at the first live position it meets.

- `scan_spec`: it stops at the smallest positive distance.
- `scan_iterate`: repeated scans from a live position stop at the live distances
  in order.
- `scan_round`: as many scans as there are live positions visit each of them
  once and return.
-/

namespace CycleLib

/-- The first live position after `m`, going round once; `m` when there is none. -/
def scan (n : ℕ) (live : ℕ → Bool) (m : ℕ) : ℕ :=
  (((List.range' 1 n).map fun i => (m + i) % n).find? live).getD m

/-- The position at distance `d` from `m` is live. -/
def LiveAt (n : ℕ) (live : ℕ → Bool) (m d : ℕ) : Prop := live ((m + d) % n) = true

instance (n : ℕ) (live : ℕ → Bool) (m : ℕ) : DecidablePred (LiveAt n live m) :=
  fun d => inferInstanceAs (Decidable (live ((m + d) % n) = true))

section Scan
variable {n m : ℕ} {live : ℕ → Bool}

theorem liveAt_add (d : ℕ) : LiveAt n live m (d + n) ↔ LiveAt n live m d := by
  rw [LiveAt, LiveAt, ← Nat.add_assoc, Nat.add_mod_right]

theorem liveAt_zero (hm : m < n) : LiveAt n live m 0 ↔ live m = true := by
  rw [LiveAt, Nat.add_zero, Nat.mod_eq_of_lt hm]

theorem liveAt_mod (e d : ℕ) : LiveAt n live ((m + e) % n) d ↔ LiveAt n live m (e + d) := by
  rw [LiveAt, LiveAt, Nat.mod_add_mod, Nat.add_assoc]

/-- Every position is at a distance of at most `n`. -/
theorem exists_distance (hm : m < n) {i : ℕ} (hi : i < n) : ∃ d, 0 < d ∧ d ≤ n ∧ (m + d) % n = i := by
  by_cases h : m < i
  · refine ⟨i - m, by omega, by omega, ?_⟩
    rw [Nat.add_sub_cancel' (by omega), Nat.mod_eq_of_lt hi]
  · refine ⟨i + n - m, by omega, by omega, ?_⟩
    rw [Nat.add_sub_cancel' (by omega), Nat.add_mod_right, Nat.mod_eq_of_lt hi]

/-- Two distances of one turn that lead to the same position are equal. -/
theorem distance_inj {a b : ℕ} (ha : 0 < a) (han : a ≤ n) (hb : 0 < b) (hbn : b ≤ n) (h : (m + a) % n = (m + b) % n) :
    a = b := by
  have h1 := Nat.sub_mod_eq_zero_of_mod_eq h
  have h2 := Nat.sub_mod_eq_zero_of_mod_eq h.symm
  rw [Nat.add_sub_add_left, Nat.mod_eq_of_lt (by omega)] at h1 h2
  omega

theorem scan_eq (n : ℕ) (live : ℕ → Bool) (m : ℕ) :
    scan n live m = (((List.range' 1 n).find? fun d => live ((m + d) % n)).map fun d => (m + d) % n).getD m := by
  rw [scan, List.find?_map]
  rfl

/-- With a live position on the circle, a scan stops at the smallest positive
distance of one. -/
theorem scan_spec (hm : m < n) (hl : ∃ i < n, live i = true) :
    ∃ d, IsLeast {d | 0 < d ∧ LiveAt n live m d} d ∧ d ≤ n ∧ scan n live m = (m + d) % n := by
  rw [scan_eq]
  cases hf : (List.range' 1 n).find? fun d => live ((m + d) % n) with
  | none =>
    obtain ⟨i, hi, hli⟩ := hl
    obtain ⟨d, h0, hd, rfl⟩ := exists_distance hm hi
    have hne := List.find?_eq_none.1 hf d (List.mem_range'_1.2 ⟨h0, by omega⟩)
    exact absurd hli hne
  | some d =>
    rw [List.find?_range'_eq_some] at hf
    obtain ⟨hd, hmem, hfirst⟩ := hf
    obtain ⟨h0, hn⟩ := List.mem_range'_1.1 hmem
    refine ⟨d, ⟨⟨h0, hd⟩, ?_⟩, by omega, rfl⟩
    rintro e ⟨he0, he⟩
    by_contra hlt
    have hnot := hfirst e he0 (by omega)
    rw [LiveAt] at he
    rw [he] at hnot
    cases hnot

/-- Without one it does not move. -/
theorem scan_none (hn : 0 < n) (hl : ∀ i < n, live i = false) : scan n live m = m := by
  have hf : ((List.range' 1 n).find? fun d => live ((m + d) % n)) = none := by
    rw [List.find?_eq_none]
    intro d _
    simp [hl _ (Nat.mod_lt _ hn)]
  rw [scan_eq, hf]
  rfl

theorem scan_lt (hm : m < n) : scan n live m < n := by
  by_cases hl : ∃ i < n, live i = true
  · obtain ⟨d, -, -, h⟩ := scan_spec hm hl
    rw [h]
    exact Nat.mod_lt _ (by omega)
  · push Not at hl
    rw [scan_none (by omega) fun i hi => Bool.eq_false_iff.2 (hl i hi)]
    exact hm

/-- A scan from the only live position goes all the way round. -/
theorem scan_alone (hm : m < n) (hl : ∀ i < n, live i = true ↔ i = m) : scan n live m = m := by
  obtain ⟨d, ⟨⟨-, hd⟩, -⟩, -, h⟩ := scan_spec hm ⟨m, hm, (hl m hm).2 rfl⟩
  rw [h]
  exact (hl _ (Nat.mod_lt _ (by omega))).1 hd

/-! ## Repeated scans -/

theorem infinite_liveAt (hm : m < n) (hl : live m = true) : (Set.ofPred (LiveAt n live m)).Infinite := by
  refine Set.infinite_of_injective_forall_mem (f := fun k => k * n) (fun a b h => Nat.eq_of_mul_eq_mul_right (by omega) h) ?_
  intro k
  show live ((m + k * n) % n) = true
  rw [Nat.add_mul_mod_self_right, Nat.mod_eq_of_lt hm, hl]

/-- From a live position the `j`-th scan stops at the `j`-th live distance. -/
theorem scan_iterate (hm : m < n) (hl : live m = true) (j : ℕ) :
    (scan n live)^[j] m = (m + Nat.nth (LiveAt n live m) j) % n := by
  have hinf := infinite_liveAt hm hl
  induction j with
  | zero => rw [Nat.nth_zero_of_zero ((liveAt_zero hm).2 hl), Nat.add_zero, Nat.mod_eq_of_lt hm]; rfl
  | succ j ih =>
    have hcur := Nat.nth_mem_of_infinite hinf j
    obtain ⟨d, hleast, -, hscan⟩ := scan_spec (m := (m + Nat.nth (LiveAt n live m) j) % n)
      (Nat.mod_lt _ (by omega)) ⟨_, Nat.mod_lt _ (by omega), hcur⟩
    -- The next live distance is the first one beyond the current.
    have hnext : IsLeast {i | LiveAt n live m i ∧ ∀ k < j + 1, Nat.nth (LiveAt n live m) k < i}
        (Nat.nth (LiveAt n live m) j + d) := by
      refine ⟨⟨(liveAt_mod _ d).1 hleast.1.2, ?_⟩, ?_⟩
      · intro k hk
        have hle := (Nat.nth_le_nth hinf).2 (Nat.le_of_lt_succ hk)
        have h0 : 0 < d := hleast.1.1
        omega
      · rintro e ⟨he, hbeyond⟩
        have hlt := hbeyond j (Nat.lt_succ_self j)
        have hle : d ≤ e - Nat.nth (LiveAt n live m) j := by
          refine hleast.2 ⟨by omega, (liveAt_mod _ _).2 ?_⟩
          rwa [Nat.add_sub_cancel' (by omega)]
        omega
    rw [Function.iterate_succ_apply', ih, hscan, Nat.mod_add_mod, Nat.add_assoc,
      hnext.unique (Nat.isLeast_nth_of_infinite hinf (j + 1))]

theorem count_congr {p q : ℕ → Prop} [DecidablePred p] [DecidablePred q] {k : ℕ} (h : ∀ i < k, p i ↔ q i) :
    Nat.count p k = Nat.count q k :=
  Nat.le_antisymm (Nat.count_mono_left fun i hi => (h i hi).1) (Nat.count_mono_left fun i hi => (h i hi).2)

/-- Any `n` consecutive distances meet every live position once. -/
theorem count_liveAt (n : ℕ) (live : ℕ → Bool) (m : ℕ) :
    Nat.count (LiveAt n live m) n = Nat.count (fun i => live i = true) n := by
  let q : ℕ → Prop := fun i => live (i % n) = true
  have hm : Nat.count q (m + n) = Nat.count q m + Nat.count (LiveAt n live m) n := Nat.count_add q m n
  have hn : Nat.count q (n + m) = Nat.count q n + Nat.count (fun k => q (n + k)) m := Nat.count_add q n m
  -- Beyond the first turn nothing new is met.
  have hturn : Nat.count (fun k => q (n + k)) m = Nat.count q m := by
    refine count_congr fun i _ => ?_
    show live ((n + i) % n) = true ↔ live (i % n) = true
    rw [Nat.add_mod_left]
  have hfirst : Nat.count q n = Nat.count (fun i => live i = true) n := by
    refine count_congr fun i hi => ?_
    show live (i % n) = true ↔ live i = true
    rw [Nat.mod_eq_of_lt hi]
  rw [Nat.add_comm n m] at hn
  omega

/-- With `k` live positions, `k` scans from a live one visit each of them once
and end where they began. -/
theorem scan_round (hm : m < n) (hl : live m = true) {k : ℕ} (hk : k = Nat.count (fun i => live i = true) n) :
    (scan n live)^[k] m = m ∧ (∀ j, live ((scan n live)^[j] m) = true) ∧
      ∀ i < n, live i = true → ∃! j, j < k ∧ (scan n live)^[j + 1] m = i := by
  have hinf := infinite_liveAt hm hl
  have h0 : LiveAt n live m 0 := (liveAt_zero hm).2 hl
  have hn0 : LiveAt n live m n := by
    have h := (liveAt_add 0).2 h0
    rwa [Nat.zero_add] at h
  -- The `k`-th live distance is one full turn.
  have hturn : Nat.nth (LiveAt n live m) k = n := by
    rw [hk, ← count_liveAt n live m, Nat.nth_count hn0]
  refine ⟨?_, ?_, ?_⟩
  · rw [scan_iterate hm hl, hturn, Nat.add_mod_right, Nat.mod_eq_of_lt hm]
  · intro j
    rw [scan_iterate hm hl]
    exact Nat.nth_mem_of_infinite hinf j
  · intro i hi hli
    obtain ⟨d, hd0, hdn, rfl⟩ := exists_distance hm hi
    have hpos : 0 < Nat.count (LiveAt n live m) d := by
      have h := Nat.count_strict_mono h0 hd0
      rwa [Nat.count_zero] at h
    have hle : Nat.count (LiveAt n live m) d ≤ k := by
      rw [hk, ← count_liveAt n live m]
      exact Nat.count_monotone _ hdn
    have hnth : Nat.nth (LiveAt n live m) (Nat.count (LiveAt n live m) d) = d := Nat.nth_count hli
    refine ⟨Nat.count (LiveAt n live m) d - 1, ⟨by omega, ?_⟩, ?_⟩
    · rw [scan_iterate hm hl, Nat.sub_add_cancel hpos, hnth]
    · rintro j ⟨hj, hscan⟩
      rw [scan_iterate hm hl] at hscan
      have hjpos : 0 < Nat.nth (LiveAt n live m) (j + 1) :=
        Nat.lt_of_le_of_lt (Nat.zero_le _) ((Nat.nth_lt_nth hinf).2 (Nat.lt_succ_self j))
      have hjn : Nat.nth (LiveAt n live m) (j + 1) ≤ n :=
        ((Nat.nth_le_nth hinf).2 hj).trans_eq hturn
      have heq : Nat.nth (LiveAt n live m) (j + 1) = d := distance_inj hjpos hjn hd0 hdn hscan
      have hj' := Nat.nth_injective hinf (heq.trans hnth.symm)
      omega

end Scan

end CycleLib
