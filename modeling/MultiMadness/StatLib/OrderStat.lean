import Mathlib.Data.List.Sort
import Mathlib.Order.Bounds.Basic
/-!
# Order statistics

The `k`-th smallest element of a list, counted from 1 and with repetitions.

- `kth_of_lower`: it meets a downward closed condition exactly when at least `k`
  elements do.
- `isLeast_cumulative`: in a histogram it is in the first bucket with a
  cumulative count of at least `k`.
-/

namespace StatLib

variable {α β : Type} [LinearOrder α] [LinearOrder β]

def kthSmallest (l : List α) (k : ℕ) : Option α := (l.insertionSort (· ≤ ·))[k - 1]?

/-- In a sorted list the elements that meet a downward closed condition come first. -/
theorem sorted_of_lower {p : α → Bool} (hp : ∀ x y, x ≤ y → p y = true → p x = true) {s : List α}
    (hs : s.Pairwise (· ≤ ·)) {j : ℕ} {v : α} (h : s[j]? = some v) : p v = true ↔ j < s.countP p := by
  induction s generalizing j with
  | nil => cases h
  | cons a s ih =>
    obtain ⟨ha, hs⟩ := List.pairwise_cons.1 hs
    by_cases hpa : p a = true
    · rw [List.countP_cons_of_pos hpa]
      cases j with
      | zero =>
        cases h
        simp [hpa]
      | succ j => rw [ih hs h, Nat.succ_lt_succ_iff]
    · -- No later element meets the condition either.
      have hnone : ∀ x ∈ a :: s, ¬ p x = true := by
        intro x hx hpx
        rcases List.mem_cons.1 hx with rfl | hx
        · exact hpa hpx
        · exact hpa (hp a x (ha x hx) hpx)
      rw [List.countP_eq_zero.2 hnone]
      simp [hnone v (List.mem_of_getElem? h)]

section Kth
variable {l : List α} {k : ℕ} {v : α}

theorem kth_of_lower {p : α → Bool} (hp : ∀ x y, x ≤ y → p y = true → p x = true) (hk : 0 < k)
    (h : kthSmallest l k = some v) : p v = true ↔ k ≤ l.countP p := by
  rw [sorted_of_lower hp (List.pairwise_insertionSort _ l) h, (List.perm_insertionSort _ l).countP_eq]
  omega

theorem exists_kth (hk : 0 < k) (hl : k ≤ l.length) : ∃ v, kthSmallest l k = some v := by
  have hlen : k - 1 < (l.insertionSort (· ≤ ·)).length := by
    rw [List.length_insertionSort]
    omega
  exact ⟨_, List.getElem?_eq_getElem hlen⟩

theorem kth_mono (hk : 0 < k) (h : kthSmallest l k = some v) {k' : ℕ} {v' : α} (hkk : k ≤ k')
    (h' : kthSmallest l k' = some v') : v ≤ v' := by
  have hlow : ∀ x y, x ≤ y → decide (y ≤ v') = true → decide (x ≤ v') = true := by
    intro x y hxy hy
    rw [decide_eq_true_eq] at hy ⊢
    exact hxy.trans hy
  have hcount := (kth_of_lower hlow (hk.trans_le hkk) h').1 (decide_eq_true le_rfl)
  exact of_decide_eq_true ((kth_of_lower hlow hk h).2 (hkk.trans hcount))

/-- The bucket of the `k`-th smallest element is the first one up to which the
histogram counts `k` elements. -/
theorem isLeast_cumulative {f : α → β} (hf : Monotone f) (hk : 0 < k) (h : kthSmallest l k = some v) :
    IsLeast {b | k ≤ l.countP fun x => decide (f x ≤ b)} (f v) := by
  have hiff : ∀ b, f v ≤ b ↔ k ≤ l.countP fun x => decide (f x ≤ b) := by
    intro b
    rw [← kth_of_lower (p := fun x => decide (f x ≤ b)) ?_ hk h, decide_eq_true_eq]
    intro x y hxy hy
    rw [decide_eq_true_eq] at hy ⊢
    exact (hf hxy).trans hy
  exact ⟨(hiff _).1 le_rfl, fun b hb => (hiff b).2 hb⟩

end Kth

end StatLib
