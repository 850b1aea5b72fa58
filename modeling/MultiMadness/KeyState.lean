import MultiMadness.InputEvent
import Mathlib.Data.Fintype.Card
/-!
# Which keys are held

`KeyState` of `key_state.hpp`: a table of 256 keys and a running count of the
ones that are down. The count is a field of the source that must agree with
the table, so the structure carries that agreement, and `apply` proves it.
-/

namespace MultiMadness

/-- `KeyState::Key`. -/
structure Key where
  down : Bool := false
  scan : UInt16 := 0
  flags : UInt16 := 0
deriving DecidableEq, Repr

/-- How many keys of the table are down. -/
def downCount (keys : Fin 256 → Key) : Nat := (Finset.univ.filter fun i => (keys i).down = true).card

theorem downCount_press {keys : Fin 256 → Key} {i : Fin 256} {k : Key} (h : (keys i).down = false)
    (hk : k.down = true) : downCount (Function.update keys i k) = downCount keys + 1 := by
  have e : (Finset.univ.filter fun j => (Function.update keys i k j).down = true) =
      insert i (Finset.univ.filter fun j => (keys j).down = true) := by
    ext j
    by_cases hj : j = i
    · subst hj; simp [hk]
    · simp [hj]
  rw [downCount, e, Finset.card_insert_of_notMem (by simp [h])]
  rfl

theorem downCount_release {keys : Fin 256 → Key} {i : Fin 256} {k : Key} (h : (keys i).down = true)
    (hk : k.down = false) : downCount (Function.update keys i k) = downCount keys - 1 := by
  have e : (Finset.univ.filter fun j => (Function.update keys i k j).down = true) =
      (Finset.univ.filter fun j => (keys j).down = true).erase i := by
    ext j
    by_cases hj : j = i
    · subst hj; simp [hk]
    · simp [hj]
  rw [downCount, e, Finset.card_erase_of_mem (by simp [h])]
  rfl

structure KeyState where
  keys : Fin 256 → Key
  held : Nat
  held_eq : held = downCount keys

namespace KeyState

theorem ext {s t : KeyState} (h : s.keys = t.keys) : s = t := by
  obtain ⟨k, n, hn⟩ := s
  obtain ⟨k', n', hn'⟩ := t
  cases h
  cases hn.trans hn'.symm
  rfl

def init : KeyState := ⟨fun _ => {}, 0, by simp [downCount]⟩

/-- The table index of a key code, for codes the table has (`vk < keys_.size()`). -/
def slot (vk : UInt16) : Option (Fin 256) := if h : vk.toNat < 256 then some ⟨vk.toNat, h⟩ else none

/-- Applies a key event; the answer is whether it changed the state. -/
def apply (s : KeyState) (kind : EventKind) (vk scan flags : UInt16) : KeyState × Bool :=
  match slot vk with
  | none => (s, false)
  | some i =>
    match kind with
    | .keyDown =>
      if h : (s.keys i).down = true then (s, false)
      else
        (⟨Function.update s.keys i ⟨true, scan, flags⟩, s.held + 1, by
          rw [downCount_press (by simpa using h) rfl, s.held_eq]⟩, true)
    | .keyUp =>
      if h : (s.keys i).down = true then
        (⟨Function.update s.keys i { s.keys i with down := false }, s.held - 1, by
          rw [downCount_release h rfl, s.held_eq]⟩, true)
      else (s, false)
    | _ => (s, false)

def applyEvent (s : KeyState) (ev : InputEvent) : KeyState × Bool := s.apply ev.kind ev.vk ev.scan ev.flags

def isDown (s : KeyState) (vk : UInt16) : Bool :=
  match slot vk with
  | none => false
  | some i => (s.keys i).down

def heldCount (s : KeyState) : Nat := s.held

/-- What `for_each_down` visits, in its order. -/
def downKeys (s : KeyState) : List (Fin 256 × Key) :=
  ((List.finRange 256).filter fun i => (s.keys i).down).map fun i => (i, s.keys i)

def clear (_s : KeyState) : KeyState := init

/-- A table index as a key code. -/
def code (i : Fin 256) : UInt16 := UInt16.ofNat i.val

@[simp] theorem slot_code (i : Fin 256) : slot (code i) = some i := by
  have h : (code i).toNat = i.val := by
    simp only [code, UInt16.toNat_ofNat']
    omega
  simp [slot, h]

theorem slot_eq_some {vk : UInt16} {i : Fin 256} : slot vk = some i ↔ vk = code i := by
  constructor
  · intro h
    unfold slot at h
    split at h
    · cases h; apply UInt16.toNat_inj.1; simp [code]
    · cases h
  · rintro rfl; exact slot_code i

theorem isSome_slot (vk : UInt16) : (slot vk).isSome = decide (vk < 256) := by
  have h : vk < 256 ↔ vk.toNat < 256 := UInt16.lt_iff_toNat_lt
  unfold slot
  split
  · next hlt => exact (decide_eq_true (h.2 hlt)).symm
  · next hge => exact (decide_eq_false fun hlt => hge (h.1 hlt)).symm

@[simp] theorem isDown_code (s : KeyState) (i : Fin 256) : s.isDown (code i) = (s.keys i).down := by
  simp [isDown]

/-- Only key codes of the table are ever down. -/
theorem isDown_iff {s : KeyState} {vk : UInt16} :
    s.isDown vk = true ↔ ∃ i, vk = code i ∧ (s.keys i).down = true := by
  unfold isDown
  split
  · next h => simp only [Bool.false_eq_true, false_iff, not_exists, not_and]
              rintro i rfl; simp at h
  · next i h =>
    obtain rfl := slot_eq_some.1 h
    constructor
    · exact fun hd => ⟨i, rfl, hd⟩
    · rintro ⟨j, hj, hd⟩
      have : some i = some j := by rw [← slot_code i, hj, slot_code]
      cases this; exact hd

theorem heldCount_pos {s : KeyState} : 0 < s.heldCount ↔ ∃ i, (s.keys i).down = true := by
  rw [heldCount, s.held_eq, downCount, Finset.card_pos]
  simp [Finset.Nonempty]

theorem mem_downKeys {s : KeyState} {i : Fin 256} {k : Key} :
    (i, k) ∈ s.downKeys ↔ (s.keys i).down = true ∧ k = s.keys i := by
  simp only [downKeys, List.mem_map, List.mem_filter, List.mem_finRange, true_and, Prod.mk.injEq]
  constructor
  · rintro ⟨j, hj, rfl, rfl⟩; exact ⟨hj, rfl⟩
  · rintro ⟨h, rfl⟩; exact ⟨i, h, rfl, rfl⟩

/-! ## One event -/

/-- The table after a key event, whatever the answer was: a press keeps the
scan code and flags of the first one, a release keeps the last ones. -/
theorem apply_cases (s : KeyState) (kind : EventKind) (vk scan flags : UInt16) :
    (s.apply kind vk scan flags = (s, false)) ∨
    (∃ i, vk = code i ∧ kind = .keyDown ∧ (s.keys i).down = false ∧
      (s.apply kind vk scan flags).2 = true ∧
      (s.apply kind vk scan flags).1.keys = Function.update s.keys i ⟨true, scan, flags⟩) ∨
    (∃ i, vk = code i ∧ kind = .keyUp ∧ (s.keys i).down = true ∧
      (s.apply kind vk scan flags).2 = true ∧
      (s.apply kind vk scan flags).1.keys = Function.update s.keys i { s.keys i with down := false }) := by
  unfold apply
  split
  · exact .inl rfl
  · next i hi =>
    have hvk := slot_eq_some.1 hi
    cases kind with
    | keyDown =>
      by_cases h : (s.keys i).down = true
      · exact .inl (by simp [h])
      · exact .inr (.inl ⟨i, hvk, rfl, by simpa using h, by simp [h], by simp [h]⟩)
    | keyUp =>
      by_cases h : (s.keys i).down = true
      · exact .inr (.inr ⟨i, hvk, rfl, h, by simp [h], by simp [h]⟩)
      · exact .inl (by simp [h])
    | _ => exact .inl rfl

/-- Applying an event that is not a key event changes nothing. -/
theorem apply_of_not_key (s : KeyState) {kind : EventKind} (h : isKey kind = false) (vk scan flags : UInt16) :
    s.apply kind vk scan flags = (s, false) := by
  rcases apply_cases s kind vk scan flags with h' | ⟨i, -, rfl, -⟩ | ⟨i, -, rfl, -⟩
  · exact h'
  · cases h
  · cases h

/-- A rejected event changes nothing. -/
theorem apply_of_false {s : KeyState} {kind : EventKind} {vk scan flags : UInt16}
    (h : (s.apply kind vk scan flags).2 = false) : (s.apply kind vk scan flags).1 = s := by
  rcases apply_cases s kind vk scan flags with h' | ⟨i, -, -, -, h', -⟩ | ⟨i, -, -, -, h', -⟩
  · rw [h']
  · rw [h] at h'; cases h'
  · rw [h] at h'; cases h'

/-- Which keys are down after an event that changed the state. -/
theorem isDown_apply {s : KeyState} {kind : EventKind} {vk scan flags : UInt16}
    (h : (s.apply kind vk scan flags).2 = true) (v : UInt16) :
    (s.apply kind vk scan flags).1.isDown v = if v = vk then decide (kind = .keyDown) else s.isDown v := by
  have key : ∀ (i : Fin 256) (k : Key) (t : KeyState), t.keys = Function.update s.keys i k →
      t.isDown v = if v = code i then k.down else s.isDown v := by
    intro i k t ht
    by_cases hv : v = code i
    · subst hv; simp [ht]
    · simp only [hv, if_false]
      unfold isDown
      split
      · rfl
      · next j hj =>
        have hne : j ≠ i := by rintro rfl; exact hv (slot_eq_some.1 hj)
        simp [ht, hne]
  rcases apply_cases s kind vk scan flags with h' | ⟨i, rfl, rfl, -, -, hk⟩ | ⟨i, rfl, rfl, -, -, hk⟩
  · rw [h'] at h; cases h
  · simpa using key i _ _ hk
  · simpa using key i _ _ hk

/-- A key event changes something exactly when its key was not so before. -/
theorem changes_iff (s : KeyState) {kind : EventKind} (h : isKey kind = true) (i : Fin 256) (scan flags : UInt16) :
    (s.apply kind (code i) scan flags).2 = (s.isDown (code i) != decide (kind = .keyDown)) := by
  rw [isDown_code]
  cases kind with
  | keyDown => cases hd : (s.keys i).down <;> simp [apply, hd]
  | keyUp => cases hd : (s.keys i).down <;> simp [apply, hd]
  | _ => cases h

/-- After a key event its key is down or up as the event says, also when that
was so before. -/
theorem isDown_apply_key (s : KeyState) {kind : EventKind} (h : isKey kind = true) (i : Fin 256)
    (scan flags v : UInt16) :
    (s.apply kind (code i) scan flags).1.isDown v = if v = code i then decide (kind = .keyDown) else s.isDown v := by
  by_cases hc : (s.apply kind (code i) scan flags).2 = true
  · exact isDown_apply hc v
  · have hd := changes_iff s h i scan flags
    rw [Bool.not_eq_true] at hc
    rw [hc, eq_comm, bne_eq_false_iff_eq] at hd
    rw [apply_of_false hc]
    split
    · next hv => rw [hv, hd]
    · rfl

/-- An event that changed the state flips its key. -/
theorem isDown_before {s : KeyState} {kind : EventKind} {vk scan flags : UInt16}
    (h : (s.apply kind vk scan flags).2 = true) : s.isDown vk = !decide (kind = .keyDown) := by
  rcases apply_cases s kind vk scan flags with h' | ⟨i, rfl, rfl, hd, -⟩ | ⟨i, rfl, rfl, hd, -⟩
  · rw [h'] at h; cases h
  · simpa using hd
  · simpa using hd

/-- Only keys of the table change it. -/
theorem code_of_apply {s : KeyState} {kind : EventKind} {vk scan flags : UInt16}
    (h : (s.apply kind vk scan flags).2 = true) : ∃ i, vk = code i := by
  rcases apply_cases s kind vk scan flags with h' | ⟨i, hi, -⟩ | ⟨i, hi, -⟩
  · rw [h'] at h; cases h
  · exact ⟨i, hi⟩
  · exact ⟨i, hi⟩

end KeyState

end MultiMadness
