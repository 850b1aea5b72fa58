import Mathlib.Data.List.Induction
/-!
# A list as an ordered map

Entries with a key each, at most one an entry a key, in the order the keys were
first put in. `put` replaces in place or appends.

- `lookup_puts`: a lookup after any puts is the last entry put for the key.
- `keys_puts`: the keys are the distinct keys put, in the order of their first.
- `put_set`, `put_new`: what a put does to a list whose position of the key is
  known.
-/

namespace MapLib

variable {K E : Type} [DecidableEq K] (key : E → K)

/-- Replace the entry for the key of `e`, or append it. -/
def put (e : E) : List E → List E
  | [] => [e]
  | d :: l => if key d = key e then e :: l else d :: put e l

def puts (l : List E) (es : List E) : List E := es.foldl (fun l e => put key e l) l

def lookup (k : K) (l : List E) : Option E := l.find? fun e => key e = k

variable {key}

theorem lookup_cons (k : K) (e : E) (l : List E) :
    lookup key k (e :: l) = if key e = k then some e else lookup key k l := by
  unfold lookup
  rw [List.find?_cons]
  by_cases h : key e = k <;> simp [h]

theorem lookup_put (k : K) (e : E) (l : List E) :
    lookup key k (put key e l) = if key e = k then some e else lookup key k l := by
  induction l with
  | nil => rw [put, lookup_cons]
  | cons d l ih =>
    unfold put
    split
    · next h => rw [lookup_cons, lookup_cons, h]; split <;> rfl
    · next h =>
      rw [lookup_cons, lookup_cons, ih]
      by_cases hd : key d = k
      · rw [if_pos hd, if_pos hd, if_neg fun he => h (hd.trans he.symm)]
      · rw [if_neg hd, if_neg hd]

theorem keys_put (e : E) (l : List E) :
    (put key e l).map key = if key e ∈ l.map key then l.map key else l.map key ++ [key e] := by
  induction l with
  | nil => rfl
  | cons d l ih =>
    unfold put
    by_cases h : key d = key e
    · rw [if_pos h, if_pos (by simp [h])]
      simp [h]
    · rw [if_neg h, List.map_cons, ih]
      by_cases hm : key e ∈ l.map key
      · rw [if_pos hm, if_pos (by simp [hm])]
        simp
      · rw [if_neg hm, if_neg (by simp only [List.map_cons, List.mem_cons, not_or]; exact ⟨Ne.symm h, hm⟩)]
        simp

theorem puts_snoc (l es : List E) (e : E) : puts key l (es ++ [e]) = put key e (puts key l es) := by
  rw [puts, List.foldl_append]
  rfl

/-- The last entry put for a key answers for it. -/
theorem lookup_puts (k : K) (es l : List E) :
    lookup key k (puts key l es) = lookup key k (es.reverse ++ l) := by
  induction es using List.reverseRecOn with
  | nil => rfl
  | append_singleton es e ih =>
    rw [puts_snoc, lookup_put, ih, List.reverse_concat, List.cons_append, lookup_cons]

theorem eraseDups_snoc (ks : List K) (k : K) :
    (ks ++ [k]).eraseDups = if k ∈ ks then ks.eraseDups else ks.eraseDups ++ [k] := by
  rw [List.eraseDups_append]
  by_cases h : k ∈ ks
  · rw [if_pos h]
    simp [List.removeAll, h]
  · rw [if_neg h]
    simp [List.removeAll, h, List.eraseDups_cons]

/-- The keys put, each once, in the order of their first put. -/
theorem keys_puts (es : List E) : (puts key [] es).map key = (es.map key).eraseDups := by
  induction es using List.reverseRecOn with
  | nil => rfl
  | append_singleton es e ih =>
    rw [puts_snoc, keys_put, List.map_append, List.map_singleton, eraseDups_snoc, ih]
    simp only [List.mem_eraseDups]

/-- Puts for different keys commute under every lookup. -/
theorem lookup_swap {e f : E} (h : key e ≠ key f) (k : K) (l : List E) :
    lookup key k (put key f (put key e l)) = lookup key k (put key e (put key f l)) := by
  simp only [lookup_put]
  by_cases he : key e = k
  · rw [if_pos he, if_pos he, if_neg fun hf => h (he.trans hf.symm)]
  · rw [if_neg he, if_neg he]

/-! ## A known position -/

theorem put_new {e : E} {l : List E} (h : key e ∉ l.map key) : put key e l = l ++ [e] := by
  induction l with
  | nil => rfl
  | cons d l ih =>
    simp only [List.map_cons, List.mem_cons, not_or] at h
    rw [put, if_neg (Ne.symm h.1), ih h.2, List.cons_append]

theorem put_set {e d : E} {l : List E} {n : ℕ} (hn : (l.map key).Nodup) (hd : l[n]? = some d) (h : key d = key e) :
    put key e l = l.set n e := by
  induction l generalizing n with
  | nil => cases hd
  | cons c l ih =>
    rw [List.map_cons, List.nodup_cons] at hn
    cases n with
    | zero =>
      cases hd
      rw [put, if_pos h, List.set_cons_zero]
    | succ n =>
      rw [List.getElem?_cons_succ] at hd
      have hc : key c ≠ key e := fun hc =>
        hn.1 (hc ▸ h ▸ List.mem_map_of_mem (List.mem_of_getElem? hd))
      rw [put, if_neg hc, ih hn.2 hd, List.set_cons_succ]

/-- With one entry a key, an entry is what the lookup of its key finds. -/
theorem lookup_eq_some {l : List E} (hn : (l.map key).Nodup) {k : K} {e : E} :
    lookup key k l = some e ↔ e ∈ l ∧ key e = k := by
  induction l with
  | nil => exact iff_of_false nofun fun h => absurd h.1 List.not_mem_nil
  | cons d l ih =>
    rw [List.map_cons, List.nodup_cons] at hn
    rw [lookup_cons, List.mem_cons]
    by_cases hd : key d = k
    · rw [if_pos hd]
      constructor
      · intro h
        cases h
        exact ⟨.inl rfl, hd⟩
      · rintro ⟨rfl | he, hk⟩
        · rfl
        · exact absurd (List.mem_map_of_mem he) (hk.trans hd.symm ▸ hn.1)
    · rw [if_neg hd, ih hn.2]
      refine and_congr_left fun hk => (or_iff_right ?_).symm
      rintro rfl
      exact hd hk

end MapLib
