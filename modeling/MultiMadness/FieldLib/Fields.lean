import Mathlib.Data.Nat.Bitwise
/-!
# Bit fields

A word is put together from values that are shifted to their places.

- `field_pack`: where the fields are apart, each one reads back what was put in.
- `field_pack_apart`: bits that no field has are zero.
-/

namespace FieldLib

structure Field where
  pos : ℕ
  len : ℕ
  value : ℕ
  fits : value < 2 ^ len

/-- The word of several fields. -/
def pack (fs : List Field) : ℕ := fs.foldr (fun f w => f.value <<< f.pos ||| w) 0

theorem pack_cons (f : Field) (fs : List Field) : pack (f :: fs) = f.value <<< f.pos ||| pack fs := rfl

/-- The `len` bits of a word from `pos` on. -/
def field (pos len w : ℕ) : ℕ := w >>> pos % 2 ^ len

/-- These bits are not the field's. -/
def Apart (pos len : ℕ) (f : Field) : Prop := pos + len ≤ f.pos ∨ f.pos + f.len ≤ pos

theorem field_or (pos len v w : ℕ) : field pos len (v ||| w) = field pos len v ||| field pos len w := by
  rw [field, Nat.shiftRight_or_distrib, Nat.or_mod_two_pow]
  rfl

theorem field_self (f : Field) : field f.pos f.len (f.value <<< f.pos) = f.value := by
  rw [field, Nat.shiftLeft_shiftRight, Nat.mod_eq_of_lt f.fits]

theorem field_apart {pos len : ℕ} {f : Field} (h : Apart pos len f) : field pos len (f.value <<< f.pos) = 0 := by
  refine Nat.eq_of_testBit_eq fun i => ?_
  simp only [field, Nat.testBit_mod_two_pow, Nat.testBit_shiftRight, Nat.testBit_shiftLeft, Nat.zero_testBit]
  by_cases hi : i < len
  · by_cases hp : pos + i ≥ f.pos
    · -- Beyond the field's end its value has no bits.
      have hend : f.pos + f.len ≤ pos := h.resolve_left (by omega)
      have hlt : f.value < 2 ^ (pos + i - f.pos) :=
        f.fits.trans_le (Nat.pow_le_pow_right (by decide) (by omega))
      simp [Nat.testBit_lt_two_pow hlt]
    · simp [hp]
  · simp [hi]

theorem field_pack_apart {pos len : ℕ} {fs : List Field} (h : ∀ f ∈ fs, Apart pos len f) : field pos len (pack fs) = 0 := by
  induction fs with
  | nil => simp [pack, field]
  | cons f fs ih =>
    rw [pack_cons, field_or, field_apart (h f List.mem_cons_self), ih fun g hg => h g (List.mem_cons_of_mem _ hg),
      Nat.or_zero]

/-- Fields that are apart read back what was put in. -/
theorem field_pack {fs : List Field} (hd : fs.Pairwise fun f g => Apart f.pos f.len g ∧ Apart g.pos g.len f) {f : Field}
    (hf : f ∈ fs) : field f.pos f.len (pack fs) = f.value := by
  induction fs with
  | nil => cases hf
  | cons g fs ih =>
    obtain ⟨hg, hd⟩ := List.pairwise_cons.1 hd
    rw [pack_cons, field_or]
    obtain rfl | hf := List.mem_cons.1 hf
    · rw [field_self, field_pack_apart fun h hh => (hg h hh).1, Nat.or_zero]
    · rw [field_apart (hg f hf).2, ih hd hf, Nat.zero_or]

end FieldLib
