import MultiMadness.Dispatch
import MultiMadness.MapLib.Ordered
/-!
# The routing table as a map

The dense list of `Routes` is an ordered map from key codes to bindings:
`add_key` is a put, where the position table finds the place, and `find` is the
lookup. What a table answers after any calls is then the library's business.

- `finite_map`: after any calls of `add_key` on fresh routes.
-/

namespace MultiMadness

open KeyState MapLib

/-- No two bindings are for one key. -/
theorem IndexOk.nodup {keys : List KeyBinding} {index : Fin 256 → Int} (h : IndexOk keys index) :
    (keys.map (·.vk)).Nodup := by
  rw [List.nodup_iff_getElem?_ne_getElem?]
  intro n m hnm hm
  rw [List.length_map] at hm
  rw [List.getElem?_map, List.getElem?_map, List.getElem?_eq_getElem (hnm.trans hm), List.getElem?_eq_getElem hm]
  intro heq
  obtain ⟨i, hi, hin⟩ := h.indexed n _ (List.getElem?_eq_getElem (hnm.trans hm))
  obtain ⟨j, hj, hjm⟩ := h.indexed m _ (List.getElem?_eq_getElem hm)
  have hij : i = j := code_inj (hi.symm.trans ((Option.some.inj heq).trans hj))
  rw [hij, hjm] at hin
  omega

namespace Routes

/-- The calls of `add_key`, in order. -/
def addKeys (r : Routes) (bs : List KeyBinding) : Routes := bs.foldl addKey r

/-- What `find` answers is the lookup in the list. -/
theorem find_eq_lookup (r : Routes) (vk : UInt16) : r.find vk = lookup (·.vk) vk r.keys := by
  ext b
  rw [lookup_eq_some r.index_ok.nodup]
  constructor
  · intro h
    have hvk := find_vk h
    exact ⟨find_eq_some.1 (hvk ▸ h), hvk⟩
  · rintro ⟨hb, rfl⟩
    exact find_eq_some.2 hb

/-- Without a position there is no binding. -/
theorem not_mem_keys {r : Routes} {i : Fin 256} (hi : ¬ 0 ≤ r.index i) : code i ∉ r.keys.map (·.vk) := by
  intro h
  obtain ⟨b, hb, hvk⟩ := List.mem_map.1 h
  obtain ⟨n, hn⟩ := List.mem_iff_getElem?.1 hb
  obtain ⟨j, hj, hjn⟩ := r.index_ok.indexed n b hn
  rw [code_inj (hvk.symm.trans hj)] at hi
  omega

/-- `add_key` puts the binding, if the table has its key. -/
theorem addKey_keys (r : Routes) (b : KeyBinding) :
    (r.addKey b).keys = if (slot b.vk).isSome then put (·.vk) b r.keys else r.keys := by
  unfold addKey
  split
  · next h => rw [h]; rfl
  · next i h =>
    have hvk := slot_eq_some.1 h
    have hs : (slot b.vk).isSome = true := by rw [h]; rfl
    rw [if_pos hs]
    split
    · next hi =>
      obtain ⟨c, hc, hcv⟩ := r.index_ok.stored i hi
      exact (put_set r.index_ok.nodup hc (hcv.trans hvk.symm)).symm
    · next hi => exact (put_new (hvk ▸ not_mem_keys hi)).symm

theorem addKeys_keys (r : Routes) (bs : List KeyBinding) :
    (r.addKeys bs).keys = puts (·.vk) r.keys (bs.filter fun b => (slot b.vk).isSome) := by
  induction bs generalizing r with
  | nil => rfl
  | cons b bs ih =>
    rw [addKeys, List.foldl_cons, List.filter_cons]
    refine (ih (r.addKey b)).trans ?_
    rw [addKey_keys]
    split <;> rfl

/-! ## What a plan reads -/

/-- The fields of a routing table that are no bindings. -/
def settings (r : Routes) : TargetMask × UInt16 × Strategy × UInt16 :=
  (r.mouseTargets, r.mouseModifierVk, r.mouseStrategy, r.swapHotkeyVk)

/-- Two tables answer alike. -/
structure Agree (r r' : Routes) : Prop where
  find : ∀ vk, r.find vk = r'.find vk
  settings : r.settings = r'.settings

theorem Agree.plan {r r' : Routes} (h : Agree r r') (ev : InputEvent) (alive : TargetMask) (master : Nat)
    (ks : KeyState) : plan ev r alive master ks = plan ev r' alive master ks := by
  obtain ⟨hf, hs⟩ := h
  simp only [Routes.settings, Prod.mk.injEq] at hs
  simp only [MultiMadness.plan, hf, hs]

@[simp] theorem addKey_settings (r : Routes) (b : KeyBinding) : (r.addKey b).settings = r.settings := by
  unfold addKey
  split
  · rfl
  · split <;> rfl

/-- A call does the same to tables that answer alike. -/
theorem Agree.addKey {r r' : Routes} (h : Agree r r') (b : KeyBinding) : Agree (r.addKey b) (r'.addKey b) := by
  refine ⟨?_, by rw [addKey_settings, addKey_settings, h.settings]⟩
  intro vk
  have hl : ∀ k, lookup (·.vk) k r.keys = lookup (·.vk) k r'.keys := fun k => by
    rw [← find_eq_lookup, ← find_eq_lookup, h.find]
  rw [find_eq_lookup, find_eq_lookup, addKey_keys, addKey_keys]
  split
  · rw [lookup_put, lookup_put, hl]
  · exact hl vk

theorem Agree.addKeys {r r' : Routes} (h : Agree r r') (bs : List KeyBinding) : Agree (r.addKeys bs) (r'.addKeys bs) := by
  induction bs generalizing r r' with
  | nil => exact h
  | cons b bs ih => exact ih (h.addKey b)

/-- Calls for different keys commute. -/
theorem agree_swap (r : Routes) {b c : KeyBinding} (h : b.vk ≠ c.vk) :
    Agree ((r.addKey b).addKey c) ((r.addKey c).addKey b) := by
  refine ⟨?_, by simp only [addKey_settings]⟩
  intro vk
  rw [find_eq_lookup, find_eq_lookup]
  simp only [addKey_keys]
  split
  · split
    · exact lookup_swap h vk r.keys
    · rfl
  · split <;> rfl

theorem agree_swap_within (r : Routes) (pre post : List KeyBinding) {b c : KeyBinding} (h : b.vk ≠ c.vk) :
    Agree (r.addKeys (pre ++ b :: c :: post)) (r.addKeys (pre ++ c :: b :: post)) := by
  simp only [addKeys, List.foldl_append, List.foldl_cons]
  exact (agree_swap (pre.foldl Routes.addKey r) h).addKeys post

/-! ## Any calls on fresh routes -/

/-- The table after the calls `bs` on fresh routes. -/
structure FiniteMap (bs : List KeyBinding) (r : Routes) : Prop where
  find : ∀ vk, r.find vk = if vk < 256 then bs.reverse.find? (fun b => b.vk = vk) else none
  keys : r.keys.map (·.vk) = ((bs.map (·.vk)).filter (· < 256)).eraseDups
  index : ∀ i, 0 ≤ r.index i → ∃ b, r.keys[(r.index i).toNat]? = some b ∧ b.vk = code i
  size : r.keys.length ≤ 256
  -- The position `add_key` would store next.
  exact : toInt16 r.keys.length = r.keys.length

theorem finiteMap_addKeys {fresh : Routes} (hf : fresh.keys = []) (bs : List KeyBinding) :
    FiniteMap bs (fresh.addKeys bs) := by
  have hkeys := addKeys_keys fresh bs
  have hsize := (fresh.addKeys bs).index_ok.length_le
  rw [hf] at hkeys
  refine ⟨?_, ?_, (fresh.addKeys bs).index_ok.stored, hsize, toInt16_of_le hsize⟩
  · intro vk
    rw [find_eq_lookup, hkeys, lookup_puts, List.append_nil, lookup, ← List.filter_reverse, List.find?_filter]
    split
    · next h =>
      refine congrArg (List.find? · bs.reverse) (funext fun b => ?_)
      by_cases hb : b.vk = vk <;> simp [isSome_slot, hb, h]
    · next h =>
      rw [List.find?_eq_none]
      rintro b - hb
      simp only [isSome_slot, decide_eq_true_eq] at hb
      exact h (hb.2 ▸ hb.1)
  · rw [hkeys, keys_puts, List.filter_map]
    simp only [isSome_slot]
    rfl

/-- Fresh routes with any settings: the calls make a finite map in which the last
binding for a key wins, and calls for different keys commute. -/
theorem finite_map (mouseTargets : TargetMask) (mouseModifierVk : UInt16) (mouseStrategy : Strategy)
    (swapHotkeyVk : UInt16) :
    let fresh : Routes := { mouseTargets, mouseModifierVk, mouseStrategy, swapHotkeyVk }
    (∀ bs, FiniteMap bs (fresh.addKeys bs)) ∧
      ∀ pre b c post, b.vk ≠ c.vk →
        (∀ vk, (fresh.addKeys (pre ++ b :: c :: post)).find vk = (fresh.addKeys (pre ++ c :: b :: post)).find vk) ∧
        ∀ ev alive master ks, plan ev (fresh.addKeys (pre ++ b :: c :: post)) alive master ks =
          plan ev (fresh.addKeys (pre ++ c :: b :: post)) alive master ks := by
  intro fresh
  refine ⟨finiteMap_addKeys rfl, ?_⟩
  intro pre b c post h
  have hagree := agree_swap_within fresh pre post h
  exact ⟨hagree.find, hagree.plan⟩

/-- The last of two bindings for one key stays in the place of the first. -/
example : (addKeys {} [{ vk := 0x41 }, { vk := 0x100 }, { vk := 0x42 }, { vk := 0x41, swallow := true }]).keys =
    [{ vk := 0x41, swallow := true }, { vk := 0x42 }] := by decide

end Routes

end MultiMadness
