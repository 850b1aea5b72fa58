import Mathlib.Data.List.Forall2
import Mathlib.Data.Nat.Digits.Defs
/-!
# Numerals read from the left

A numeral of base `b` over characters `C`, of which `read` gives the digits. A
loop that reads one multiplies what it has by `b` and adds the next digit;
`Reads v cs w` is that loop started with `v`.

- `reads_zero`: started with 0 it computes the number the numeral denotes.
- `Denotes.zeros`, `denotes_toDigits`: leading zeros, and the numeral a number is
  written as.
- `readPrefix_append`: reading up to the first character that is no digit.
- `readUpTo_iff`: giving up as soon as a limit is passed refuses exactly the
  numerals above the limit, since what is read never gets smaller.
-/

namespace NumeralLib

variable {C : Type} (read : C → Option ℕ) (b : ℕ)

/-- `cs` denotes `n` in base `b`. -/
def Denotes (cs : List C) (n : ℕ) : Prop :=
  ∃ ds, List.Forall₂ (fun c d => read c = some d) cs ds ∧ n = Nat.ofDigits b ds.reverse

def Reads (v : ℕ) (cs : List C) (w : ℕ) : Prop :=
  ∃ ds, List.Forall₂ (fun c d => read c = some d) cs ds ∧ w = ds.foldl (fun v d => v * b + d) v

/-- Read on from `v`, unless a character is no digit or the limit is passed. -/
def readUpTo (limit : ℕ) : List C → ℕ → Option ℕ
  | [], v => some v
  | c :: cs, v => (read c).bind fun d => if limit < v * b + d then none else readUpTo limit cs (v * b + d)

/-- Read on from `v`, up to the first character that is no digit. -/
def readPrefix : List C → ℕ → ℕ
  | [], v => v
  | c :: cs, v => match read c with
    | none => v
    | some d => readPrefix cs (v * b + d)

variable {read b}

@[simp] theorem reads_nil {v w : ℕ} : Reads read b v [] w ↔ w = v := by
  constructor
  · rintro ⟨ds, hds, rfl⟩
    rw [List.forall₂_nil_left_iff.1 hds]
    rfl
  · rintro rfl
    exact ⟨[], .nil, rfl⟩

theorem reads_cons {v w : ℕ} {c : C} {cs : List C} :
    Reads read b v (c :: cs) w ↔ ∃ d, read c = some d ∧ Reads read b (v * b + d) cs w := by
  constructor
  · rintro ⟨ds, hds, rfl⟩
    obtain ⟨d, rest, hd, hrest, rfl⟩ := List.forall₂_cons_left_iff.1 hds
    exact ⟨d, hd, rest, hrest, rfl⟩
  · rintro ⟨d, hd, ds, hds, rfl⟩
    exact ⟨d :: ds, .cons hd hds, rfl⟩

theorem reads_zero {cs : List C} {n : ℕ} : Reads read b 0 cs n ↔ Denotes read b cs n := by
  have h : ∀ ds : List ℕ, Nat.ofDigits b ds.reverse = ds.foldl (fun v d => v * b + d) 0 := by
    intro ds
    rw [Nat.ofDigits_eq_foldr, List.foldr_reverse]
    simp only [Nat.cast_id, Nat.mul_comm, Nat.add_comm]
  simp only [Reads, Denotes, h]

theorem reads_append {v w : ℕ} {cs es : List C} :
    Reads read b v (cs ++ es) w ↔ ∃ u, Reads read b v cs u ∧ Reads read b u es w := by
  induction cs generalizing v with
  | nil => simp
  | cons c cs ih =>
    simp only [List.cons_append, reads_cons, ih]
    constructor
    · rintro ⟨d, hd, u, hu, hw⟩
      exact ⟨u, ⟨d, hd, hu⟩, hw⟩
    · rintro ⟨u, ⟨d, hd, hu⟩, hw⟩
      exact ⟨d, hd, u, hu, hw⟩

theorem Denotes.zeros {z : C} (hz : read z = some 0) (k : ℕ) {cs : List C} {n : ℕ} (h : Denotes read b cs n) :
    Denotes read b (List.replicate k z ++ cs) n := by
  induction k with
  | zero => exact h
  | succ k ih =>
    rw [List.replicate_succ, List.cons_append, ← reads_zero, reads_cons]
    exact ⟨0, hz, by rwa [Nat.zero_mul, reads_zero]⟩

/-- Digits written so that they read back make a numeral that does. -/
theorem denotes_toDigits {write : Char → C} (hb : 1 < b) (h : ∀ d < b, read (write d.digitChar) = some d) (n : ℕ) :
    Denotes read b ((Nat.toDigits b n).map write) n := by
  rw [← reads_zero]
  induction n using Nat.strong_induction_on with
  | _ n ih =>
    by_cases hn : n < b
    · rw [Nat.toDigits_of_lt_base hn, List.map_singleton, reads_cons]
      exact ⟨n, h n hn, by simp⟩
    · have hle : b ≤ n := Nat.not_lt.1 hn
      have hlast : n = n / b * b + n % b := (Nat.div_add_mod' n b).symm
      rw [Nat.toDigits_of_base_le hb hle, List.map_append, List.map_singleton, reads_append]
      refine ⟨n / b, ih (n / b) (Nat.div_lt_self (by omega) hb), reads_cons.2 ⟨n % b, h _ (Nat.mod_lt n (by omega)), ?_⟩⟩
      rwa [reads_nil]

/-- A numeral is read whatever follows it, unless that is one more digit. -/
theorem readPrefix_append {v w : ℕ} {cs rest : List C} (h : Reads read b v cs w) (hr : ∀ c ∈ rest.head?, read c = none) :
    readPrefix read b (cs ++ rest) v = w := by
  induction cs generalizing v with
  | nil =>
    rw [reads_nil.1 h, List.nil_append]
    cases rest with
    | nil => rfl
    | cons c rest => rw [readPrefix, hr c rfl]
  | cons c cs ih =>
    obtain ⟨d, hd, h⟩ := reads_cons.1 h
    rw [List.cons_append, readPrefix, hd]
    exact ih h

/-- What is read never gets smaller. -/
theorem reads_le (hb : 0 < b) {v w : ℕ} {cs : List C} (h : Reads read b v cs w) : v ≤ w := by
  induction cs generalizing v with
  | nil => exact (reads_nil.1 h).ge
  | cons c cs ih =>
    obtain ⟨d, -, h⟩ := reads_cons.1 h
    calc v ≤ v * b := Nat.le_mul_of_pos_right v hb
      _ ≤ v * b + d := Nat.le_add_right _ _
      _ ≤ w := ih h

/-- Passing the limit on the way is the same as passing it at the end. -/
theorem readUpTo_iff (hb : 0 < b) {limit v w : ℕ} (hv : v ≤ limit) {cs : List C} :
    readUpTo read b limit cs v = some w ↔ Reads read b v cs w ∧ w ≤ limit := by
  induction cs generalizing v with
  | nil =>
    rw [readUpTo, reads_nil, Option.some.injEq]
    exact ⟨fun h => ⟨h.symm, h ▸ hv⟩, fun h => h.1.symm⟩
  | cons c cs ih =>
    rw [readUpTo, reads_cons, Option.bind_eq_some_iff]
    constructor
    · rintro ⟨d, hd, h⟩
      split at h
      · cases h
      · next hle =>
        obtain ⟨h, hw⟩ := (ih (Nat.le_of_not_lt hle)).1 h
        exact ⟨⟨d, hd, h⟩, hw⟩
    · rintro ⟨⟨d, hd, h⟩, hw⟩
      have hle : v * b + d ≤ limit := (reads_le hb h).trans hw
      exact ⟨d, hd, by rw [if_neg (Nat.not_lt.2 hle), ih hle]; exact ⟨h, hw⟩⟩

end NumeralLib
