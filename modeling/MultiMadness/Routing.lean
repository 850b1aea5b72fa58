import MultiMadness.KeyState
import Mathlib.Data.Fintype.Pigeonhole
/-!
# The routing table

`Routes` of `routing.hpp`: a dense list of bindings and a table from key codes
to positions in it. `add_key` is the only function that writes the two, so the
structure carries their agreement (`IndexOk`), and `find` reads a list position
the source does not check.
-/

namespace MultiMadness

open KeyState (slot code)

inductive Strategy where
  /-- `SetForegroundWindow` and `SendInput`. -/
  | focusCycle
  /-- `PostMessage` to the window, no focus change. -/
  | windowMessage
deriving DecidableEq, Repr

/-- Bit `i` is instance `i`. -/
abbrev TargetMask := BitVec 32

def kAllTargets : TargetMask := ~~~0

/-- `TargetMask{1} << index`; the source's shift is undefined from 32 on. -/
def targetBit (index : Nat) : TargetMask := 1#32 <<< index

theorem getLsbD_targetBit (i j : Nat) : (targetBit i).getLsbD j = (decide (j < 32) && decide (j = i)) := by
  by_cases hj : j < 32
  · simp only [targetBit, BitVec.getLsbD_shiftLeft, hj, decide_true, Bool.true_and, BitVec.getLsbD_one]
    by_cases h : j = i
    · simp [h]
    · have : ¬ (¬ j < i ∧ j - i = 0) := by omega
      simpa [h] using this
  · rw [BitVec.getLsbD_of_ge _ _ (by omega)]
    simp [hj]

/-- The loop test `mask & target_bit(i)`. -/
theorem and_targetBit_ne_zero {m : TargetMask} {i : Nat} (hi : i < 32) :
    m &&& targetBit i ≠ 0 ↔ m.getLsbD i = true := by
  constructor
  · intro h
    by_contra hm
    apply h
    apply BitVec.eq_of_getLsbD_eq
    intro j hj
    by_cases hji : j = i
    · subst hji; simp_all
    · simp [getLsbD_targetBit, hji]
  · intro h he
    have := congrArg (·.getLsbD i) he
    simp only [BitVec.getLsbD_and, h, getLsbD_targetBit, hi] at this
    simp at this

structure KeyBinding where
  vk : UInt16 := 0
  targets : TargetMask := kAllTargets
  strategy : Strategy := .focusCycle
  /-- The master never sees the key. -/
  swallow : Bool := false
deriving DecidableEq

/-- The position table and the list of bindings are each other's inverse. -/
structure IndexOk (keys : List KeyBinding) (index : Fin 256 → Int) : Prop where
  stored : ∀ i, 0 ≤ index i → ∃ b, keys[(index i).toNat]? = some b ∧ b.vk = code i
  indexed : ∀ (n : Nat) (b : KeyBinding), keys[n]? = some b → ∃ i, b.vk = code i ∧ index i = n

theorem IndexOk.nil : IndexOk [] fun _ => -1 :=
  ⟨fun _ h => absurd h (by decide), fun _ _ h => by cases h⟩

structure Routes where
  mouseTargets : TargetMask := 0
  mouseModifierVk : UInt16 := 0
  mouseStrategy : Strategy := .focusCycle
  swapHotkeyVk : UInt16 := 0
  keys : List KeyBinding := []
  index : Fin 256 → Int := fun _ => -1
  index_ok : IndexOk keys index := by exact IndexOk.nil

theorem code_inj {i j : Fin 256} (h : code i = code j) : i = j := by
  have : some i = some j := by rw [← KeyState.slot_code i, h, KeyState.slot_code]
  exact Option.some.inj this

/-- One binding per key code, so the table's positions fit an `int16_t`. -/
theorem IndexOk.length_le {keys : List KeyBinding} {index : Fin 256 → Int} (h : IndexOk keys index) :
    keys.length ≤ 256 := by
  choose f hf using fun n : Fin keys.length => h.indexed n.val (keys[n.val]) (List.getElem?_eq_getElem n.isLt)
  have hinj : Function.Injective f := by
    intro a b hab
    have h1 := (hf a).2
    have h2 := (hf b).2
    rw [hab, h2] at h1
    exact Fin.ext (by omega)
  simpa using Fintype.card_le_of_injective f hinj

/-- `static_cast<int16_t>`. -/
def toInt16 (n : Nat) : Int := (n : Int).bmod (2 ^ 16)

theorem toInt16_of_le {n : Nat} (h : n ≤ 256) : toInt16 n = n := by
  unfold toInt16
  rw [Int.bmod_eq_of_le] <;> omega

theorem IndexOk.replace {keys : List KeyBinding} {index : Fin 256 → Int} (h : IndexOk keys index) {i : Fin 256}
    {b : KeyBinding} (hb : b.vk = code i) (hi : 0 ≤ index i) : IndexOk (keys.set (index i).toNat b) index := by
  constructor
  · intro j hj
    obtain ⟨c, hc, hvk⟩ := h.stored j hj
    have hlen := (List.getElem?_eq_some_iff.1 hc).1
    by_cases hn : (index i).toNat = (index j).toNat
    · obtain ⟨d, hd, hdv⟩ := h.stored i hi
      rw [hn, hc] at hd
      cases hd
      exact ⟨b, by rw [hn, List.getElem?_set_self hlen], hb.trans (hdv.symm.trans hvk)⟩
    · exact ⟨c, by rw [List.getElem?_set_ne hn, hc], hvk⟩
  · intro n c hc
    by_cases hn : (index i).toNat = n
    · subst hn
      have hlen : (index i).toNat < keys.length := by
        simpa using (List.getElem?_eq_some_iff.1 hc).1
      rw [List.getElem?_set_self hlen] at hc
      cases hc
      exact ⟨i, hb, by omega⟩
    · rw [List.getElem?_set_ne hn] at hc
      exact h.indexed n c hc

theorem IndexOk.append {keys : List KeyBinding} {index : Fin 256 → Int} (h : IndexOk keys index) {i : Fin 256}
    {b : KeyBinding} (hb : b.vk = code i) (hi : ¬ 0 ≤ index i) :
    IndexOk (keys ++ [b]) (Function.update index i (toInt16 keys.length)) := by
  rw [toInt16_of_le h.length_le]
  constructor
  · intro j hj
    by_cases hji : j = i
    · subst hji
      exact ⟨b, by simp, hb⟩
    · rw [Function.update_of_ne hji] at hj ⊢
      obtain ⟨c, hc, hvk⟩ := h.stored j hj
      exact ⟨c, by rw [List.getElem?_append_left (List.getElem?_eq_some_iff.1 hc).1, hc], hvk⟩
  · intro n c hc
    by_cases hn : n < keys.length
    · rw [List.getElem?_append_left hn] at hc
      obtain ⟨j, hj, hjn⟩ := h.indexed n c hc
      have hji : j ≠ i := by rintro rfl; omega
      exact ⟨j, hj, by rw [Function.update_of_ne hji, hjn]⟩
    · rw [List.getElem?_append_right (by omega)] at hc
      have hn' : n - keys.length = 0 := by
        by_contra h0
        rw [List.getElem?_eq_none (by simp; omega)] at hc
        cases hc
      rw [hn'] at hc
      cases hc
      exact ⟨i, hb, by rw [Function.update_self]; omega⟩

namespace Routes

/-- Adds or replaces the binding for `b.vk`. -/
def addKey (r : Routes) (b : KeyBinding) : Routes :=
  match h : slot b.vk with
  | none => r
  | some i =>
    if hi : 0 ≤ r.index i then
      { r with
        keys := r.keys.set (r.index i).toNat b
        index_ok := r.index_ok.replace (KeyState.slot_eq_some.1 h) hi }
    else
      { r with
        keys := r.keys ++ [b]
        index := Function.update r.index i (toInt16 r.keys.length)
        index_ok := r.index_ok.append (KeyState.slot_eq_some.1 h) hi }

def find (r : Routes) (vk : UInt16) : Option KeyBinding :=
  match slot vk with
  | none => none
  | some i => if r.index i < 0 then none else r.keys[(r.index i).toNat]?

def swallows (r : Routes) (vk : UInt16) : Bool :=
  if vk = r.swapHotkeyVk ∧ vk ≠ 0 then true
  else
    match r.find vk with
    | none => false
    | some b => b.swallow

/-- `find` answers with a binding for the key it was asked for. -/
theorem find_vk {r : Routes} {vk : UInt16} {b : KeyBinding} (h : r.find vk = some b) : b.vk = vk := by
  unfold find at h
  split at h
  · cases h
  · next i hi =>
    split at h
    · cases h
    · obtain ⟨c, hc, hvk⟩ := r.index_ok.stored i (by omega)
      rw [h] at hc
      cases hc
      rw [hvk, KeyState.slot_eq_some.1 hi]

theorem find_eq_some {r : Routes} {b : KeyBinding} : r.find b.vk = some b ↔ b ∈ r.keys := by
  constructor
  · intro h
    unfold find at h
    split at h
    · cases h
    · split at h
      · cases h
      · exact List.mem_of_getElem? h
  · intro h
    obtain ⟨n, hn⟩ := List.mem_iff_getElem?.1 h
    obtain ⟨i, hi, hin⟩ := r.index_ok.indexed n b hn
    simp [find, hi, hin, hn]

/-- A binding with `swallow` set is in the list `cmd_run` walks. -/
theorem swallows_iff {r : Routes} {vk : UInt16} :
    r.swallows vk = true ↔ (vk = r.swapHotkeyVk ∧ vk ≠ 0) ∨ ∃ b ∈ r.keys, b.vk = vk ∧ b.swallow = true := by
  unfold swallows
  split
  · next h => exact ⟨fun _ => .inl h, fun _ => rfl⟩
  · next h =>
    simp only [h, false_or]
    cases hf : r.find vk with
    | none =>
      simp only [Bool.false_eq_true, false_iff, not_exists, not_and]
      rintro b hb rfl
      rw [find_eq_some.2 hb] at hf
      cases hf
    | some b =>
      have hv := find_vk hf
      constructor
      · exact fun hs => ⟨b, find_eq_some.1 (hv ▸ hf), hv, hs⟩
      · rintro ⟨c, hc, rfl, hs⟩
        rw [find_eq_some.2 hc] at hf
        cases hf
        exact hs

end Routes

end MultiMadness
