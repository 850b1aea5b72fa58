import Mathlib.Data.List.Perm.Basic
import Mathlib.Data.List.Nodup
import Mathlib.Data.List.Range
/-!
# Which instance occupies which slot

`Assignment` of `layout.hpp`. Slot 0 is the master's. The slots of the instances
are a permutation of `0..n-1`, and the structure carries that.

- `consistent`: slots and instances are each other's inverse.
- `slotOf_erase`: an erased instance leaves no gap behind.
-/

namespace MultiMadness

/-- `slotOf[i]` is the slot of instance `i`. -/
structure Assignment where
  slotOf : List Nat
  perm : slotOf.Perm (List.range slotOf.length)

namespace Assignment

def reset (instances : Nat) : Assignment := ⟨List.range instances, by simp⟩

def size (a : Assignment) : Nat := a.slotOf.length

/-- `static_cast<std::size_t>(-1)`, the answer for a slot nobody has. -/
def npos : Nat := 0xFFFFFFFFFFFFFFFF

def instanceAt (a : Assignment) (slot : Nat) : Nat := (a.slotOf.findIdx? (· = slot)).getD npos

def master (a : Assignment) : Nat := a.instanceAt 0

def swap (a : Assignment) (i j : Nat) : Assignment :=
  if h : i < a.slotOf.length ∧ j < a.slotOf.length then
    ⟨(a.slotOf.set i a.slotOf[j]).set j a.slotOf[i], by
      simpa using (List.set_set_perm h.1 h.2).trans a.perm⟩
  else a

/-- Moves `instance` into slot 0; the previous master takes its old slot. -/
def setMaster (a : Assignment) (inst : Nat) : Assignment :=
  let current := a.master
  if current ≠ inst then a.swap current inst else a

/-- What becomes of a number when `freed` is taken out from under the later ones. -/
def closeGap (freed s : Nat) : Nat := if s > freed then s - 1 else s

theorem closeGap_lt {freed s t : Nat} (hs : s ≠ freed) (ht : t ≠ freed) : closeGap freed s < closeGap freed t ↔ s < t := by
  unfold closeGap
  split <;> split <;> omega

theorem closeGap_inj {freed s t : Nat} (hs : s ≠ freed) (ht : t ≠ freed) (h : closeGap freed s = closeGap freed t) :
    s = t := by
  unfold closeGap at h
  split at h <;> split at h <;> omega

/-- Numbers without repetition below their count are all numbers below it. -/
theorem perm_range {l : List Nat} (hn : l.Nodup) (hl : ∀ x ∈ l, x < l.length) : l.Perm (List.range l.length) :=
  (List.subperm_of_subset hn fun x hx => List.mem_range.2 (hl x hx)).perm_of_length_le (by simp)

theorem erase_perm {l : List Nat} (h : l.Perm (List.range l.length)) {i : Nat} (hi : i < l.length) :
    ((l.eraseIdx i).map (closeGap l[i])).Perm (List.range ((l.eraseIdx i).map (closeGap l[i])).length) := by
  have hp := List.getElem_cons_eraseIdx_perm hi
  have hn : (l[i] :: l.eraseIdx i).Nodup := hp.nodup_iff.2 (h.nodup_iff.2 List.nodup_range)
  obtain ⟨hfresh, hn⟩ := List.nodup_cons.1 hn
  have hne : ∀ x ∈ l.eraseIdx i, x ≠ l[i] := fun x hx he => hfresh (he ▸ hx)
  have hlt : ∀ x ∈ l, x < l.length := fun x hx => List.mem_range.1 (h.mem_iff.1 hx)
  apply perm_range
  · refine hn.map_on ?_
    intro x hx y hy hxy
    exact closeGap_inj (hne x hx) (hne y hy) hxy
  · intro y hy
    obtain ⟨x, hx, rfl⟩ := List.mem_map.1 hy
    have hxl := hlt x (List.mem_of_mem_eraseIdx hx)
    have hfl := hlt l[i] (List.getElem_mem hi)
    have hxf := hne x hx
    rw [List.length_map, List.length_eraseIdx_of_lt hi]
    unfold closeGap
    split <;> omega

/-- Removes an instance and compacts slots so they stay `0..n-1`. -/
def erase (a : Assignment) (inst : Nat) : Assignment :=
  if h : inst < a.slotOf.length then
    ⟨(a.slotOf.eraseIdx inst).map (closeGap a.slotOf[inst]), erase_perm a.perm h⟩
  else a

@[simp] theorem size_swap (a : Assignment) (i j : Nat) : (a.swap i j).size = a.size := by
  unfold swap size; split <;> simp

@[simp] theorem size_setMaster (a : Assignment) (inst : Nat) : (a.setMaster inst).size = a.size := by
  unfold setMaster; dsimp only; split
  · exact size_swap a _ _
  · rfl

theorem ext {a b : Assignment} (h : ∀ i : Nat, a.slotOf[i]? = b.slotOf[i]?) : a = b := by
  obtain ⟨l, _⟩ := a
  obtain ⟨l', _⟩ := b
  cases List.ext_getElem? h
  rfl

theorem slotOf_swap {a : Assignment} {i j : Nat} (hi : i < a.size) (hj : j < a.size) (k : Nat) :
    (a.swap i j).slotOf[k]? = if k = j then a.slotOf[i]? else if k = i then a.slotOf[j]? else a.slotOf[k]? := by
  have hij : i < a.slotOf.length ∧ j < a.slotOf.length := ⟨hi, hj⟩
  rw [swap, dif_pos hij]
  by_cases hkj : k = j
  · subst hkj
    rw [if_pos rfl, List.getElem?_set_self (by simpa using hij.2), List.getElem?_eq_getElem hij.1]
  · rw [if_neg hkj, List.getElem?_set_ne (Ne.symm hkj)]
    by_cases hki : k = i
    · subst hki
      rw [if_pos rfl, List.getElem?_set_self hij.1, List.getElem?_eq_getElem hij.2]
    · rw [if_neg hki, List.getElem?_set_ne (Ne.symm hki)]

theorem swap_of_ge {a : Assignment} {i j : Nat} (h : a.size ≤ i ∨ a.size ≤ j) : a.swap i j = a := by
  unfold size at h
  rw [swap, dif_neg (by omega)]

theorem nodup (a : Assignment) : a.slotOf.Nodup := a.perm.nodup_iff.2 List.nodup_range

/-- The instance in a slot is the one whose slot it is. -/
theorem instanceAt_of {a : Assignment} {i slot : Nat} (h : a.slotOf[i]? = some slot) : a.instanceAt slot = i := by
  obtain ⟨hi, he⟩ := List.getElem?_eq_some_iff.1 h
  have hf : a.slotOf.findIdx? (· = slot) = some i := by
    rw [List.findIdx?_eq_some_iff_getElem]
    refine ⟨hi, by simpa using he, ?_⟩
    intro j hj
    have hne : a.slotOf[j] ≠ a.slotOf[i] := fun hje => by
      have := (a.nodup.getElem_inj_iff).1 hje
      omega
    rw [he] at hne
    simpa using hne
  rw [instanceAt, hf]
  rfl

theorem exists_slot {a : Assignment} {slot : Nat} (h : slot < a.size) : ∃ i : Nat, a.slotOf[i]? = some slot :=
  List.mem_iff_getElem?.1 (a.perm.mem_iff.2 (List.mem_range.2 h))

/-- The master is a real instance with slot 0. -/
theorem slotOf_master {a : Assignment} (h : 0 < a.size) : a.slotOf[a.master]? = some 0 := by
  obtain ⟨i, hi⟩ := exists_slot h
  rw [master, instanceAt_of hi, hi]

theorem master_lt {a : Assignment} (h : 0 < a.size) : a.master < a.size :=
  (List.getElem?_eq_some_iff.1 (slotOf_master h)).1

/-- After `set_master` of a real instance, that instance is the master. -/
theorem master_setMaster {a : Assignment} {inst : Nat} (h : inst < a.size) : (a.setMaster inst).master = inst := by
  have hm := slotOf_master (a := a) (by omega)
  obtain ⟨hlt, h0⟩ := List.getElem?_eq_some_iff.1 hm
  unfold setMaster
  dsimp only
  by_cases he : a.master = inst
  · rw [if_neg (not_not.2 he), he]
  · rw [if_pos he]
    apply instanceAt_of
    have hinst : inst < a.slotOf.length := h
    rw [swap, dif_pos ⟨hlt, hinst⟩]
    rw [List.getElem?_set_self (by simpa using hinst), h0]

/-- An instance that does not exist does not become the master. -/
theorem setMaster_of_ge {a : Assignment} {inst : Nat} (h : a.size ≤ inst) : a.setMaster inst = a := by
  unfold setMaster
  dsimp only
  rw [swap_of_ge (.inr h), ite_self]

theorem master_reset {n : Nat} (hn : 0 < n) : (reset n).master = 0 :=
  instanceAt_of (by simp [reset, hn])

/-- Only the old and the new master change slots. -/
theorem slotOf_setMaster {a : Assignment} {inst i : Nat} (hm : i ≠ a.master) (hi : i ≠ inst) :
    (a.setMaster inst).slotOf[i]? = a.slotOf[i]? := by
  unfold setMaster
  dsimp only
  split
  · by_cases h : a.master < a.size ∧ inst < a.size
    · rw [slotOf_swap h.1 h.2, if_neg hi, if_neg hm]
    · rw [swap_of_ge (by omega)]
  · rfl

theorem setMaster_self (a : Assignment) : a.setMaster a.master = a := by
  simp [setMaster]

/-- Making the previous master the master again undoes `set_master`. -/
theorem setMaster_setMaster (a : Assignment) (inst : Nat) : (a.setMaster inst).setMaster a.master = a := by
  by_cases he : a.master = inst
  · subst he
    rw [setMaster_self, setMaster_self]
  · have hset : a.setMaster inst = a.swap a.master inst := by simp [setMaster, he]
    by_cases h : inst < a.size
    · have hm := master_lt (a := a) (by omega)
      have hback : (a.setMaster inst).setMaster a.master = (a.setMaster inst).swap inst a.master := by
        have hne : inst ≠ a.master := fun h => he h.symm
        rw [setMaster, master_setMaster h]
        simp [hne]
      rw [hback, hset]
      apply ext
      intro i
      rw [slotOf_swap (by rwa [size_swap]) (by rwa [size_swap]), slotOf_swap hm h, slotOf_swap hm h, slotOf_swap hm h]
      by_cases him : i = a.master
      · simp [him]
      · by_cases hii : i = inst
        · simp [hii, he, Ne.symm he]
        · simp [him, hii]
    · rw [hset, swap_of_ge (.inr (by omega)), setMaster_self]

/-! ## The invariant -/

/-- The slots are `0..n-1` in some order, and `slot_of` and `instance_at` are
each other's inverse. -/
structure Consistent (a : Assignment) : Prop where
  perm : a.slotOf.Perm (List.range a.size)
  slot : ∀ i < a.size, ∃ slot < a.size, a.slotOf[i]? = some slot ∧ a.instanceAt slot = i
  inst : ∀ slot < a.size, a.instanceAt slot < a.size ∧ a.slotOf[a.instanceAt slot]? = some slot
  master : 0 < a.size → a.master < a.size ∧ a.slotOf[a.master]? = some 0

theorem consistent (a : Assignment) : Consistent a := by
  refine ⟨a.perm, ?_, ?_, fun h => ⟨master_lt h, slotOf_master h⟩⟩
  · intro i hi
    obtain ⟨slot, hs⟩ : ∃ slot, a.slotOf[i]? = some slot := ⟨_, List.getElem?_eq_getElem hi⟩
    exact ⟨slot, List.mem_range.1 (a.perm.mem_iff.1 (List.mem_of_getElem? hs)), hs, instanceAt_of hs⟩
  · intro slot hs
    obtain ⟨i, hi⟩ := exists_slot hs
    rw [instanceAt_of hi]
    exact ⟨(List.getElem?_eq_some_iff.1 hi).1, hi⟩

/-! ## Erasing -/

theorem size_erase {a : Assignment} {inst : Nat} (h : inst < a.size) : (a.erase inst).size = a.size - 1 := by
  have h' : inst < a.slotOf.length := h
  rw [erase, dif_pos h']
  simp only [size, List.length_map, List.length_eraseIdx_of_lt h']

/-- The other instances move up, and so do their slots. -/
theorem slotOf_erase {a : Assignment} {inst freed : Nat} (h : a.slotOf[inst]? = some freed) {j : Nat} (hj : j ≠ inst) :
    (a.erase inst).slotOf[closeGap inst j]? = (a.slotOf[j]?).map (closeGap freed) := by
  obtain ⟨hi, rfl⟩ := List.getElem?_eq_some_iff.1 h
  rw [erase, dif_pos hi, List.getElem?_map, List.getElem?_eraseIdx]
  congr 1
  unfold closeGap
  split
  · rw [if_neg (by omega), Nat.sub_add_cancel (by omega)]
  · rw [if_pos (by omega)]

theorem slot_ne {a : Assignment} {inst j freed s : Nat} (h : a.slotOf[inst]? = some freed) (hj : j ≠ inst)
    (hs : a.slotOf[j]? = some s) : s ≠ freed := by
  rintro rfl
  exact hj ((instanceAt_of hs).symm.trans (instanceAt_of h))

/-- The remaining instances keep their relative order. -/
theorem order_erase {a : Assignment} {inst freed j k s t : Nat} (h : a.slotOf[inst]? = some freed) (hj : j ≠ inst)
    (hk : k ≠ inst) (hs : a.slotOf[j]? = some s) (ht : a.slotOf[k]? = some t) :
    ∃ s' t', (a.erase inst).slotOf[closeGap inst j]? = some s' ∧ (a.erase inst).slotOf[closeGap inst k]? = some t' ∧
      (s' < t' ↔ s < t) := by
  refine ⟨closeGap freed s, closeGap freed t, ?_, ?_, closeGap_lt (slot_ne h hj hs) (slot_ne h hk ht)⟩
  · rw [slotOf_erase h hj, hs]; rfl
  · rw [slotOf_erase h hk, ht]; rfl

/-- Erasing the master promotes the instance in slot 1. -/
theorem master_erase {a : Assignment} {inst k : Nat} (h : a.slotOf[inst]? = some 0) (hk : a.slotOf[k]? = some 1) :
    (a.erase inst).master = closeGap inst k := by
  have hne : k ≠ inst := by
    rintro rfl
    rw [h] at hk
    cases hk
  apply instanceAt_of
  rw [slotOf_erase h hne, hk]
  rfl

end Assignment

end MultiMadness
