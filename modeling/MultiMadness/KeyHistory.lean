import Mathlib.Data.List.Induction
import MultiMadness.KeyState
import MultiMadness.LatchLib.Latch
/-!
# The key table as a summary of its history

Each entry of `KeyState` is a latch over the events of its key since the last
`clear`: the first `KeyDown` after the key was up sets it, and a `KeyUp` resets
it.

- `view_apply`: one call of `apply`.
- `key_history`: the table after any calls on a fresh one, and what a further
  `apply` does to the count.
-/

namespace MultiMadness.KeyState

open LatchLib

/-- A call that changes the table. -/
inductive Call where
  | apply (kind : EventKind) (vk scan flags : UInt16)
  | clear
deriving DecidableEq

def exec (s : KeyState) : Call → KeyState
  | .apply kind vk scan flags => (s.apply kind vk scan flags).1
  | .clear => s.clear

/-- The table after the calls on a fresh one. -/
def after (cs : List Call) : KeyState := cs.foldl exec init

/-- An event of a key. -/
structure KeyEvent where
  kind : EventKind
  scan : UInt16
  flags : UInt16

def KeyEvent.isPress (e : KeyEvent) : Bool := e.kind = .keyDown

/-- The key event of `vk` a call is, if it is one. -/
def Call.keyEvent (vk : UInt16) : Call → Option KeyEvent
  | .apply kind vk' scan flags => if vk' = vk ∧ isKey kind then some ⟨kind, scan, flags⟩ else none
  | .clear => none

/-- The key events of `vk` since the last `clear`, the newest first. -/
def keyEvents (vk : UInt16) (cs : List Call) : List KeyEvent :=
  (cs.reverse.takeWhile (· ≠ .clear)).filterMap (Call.keyEvent vk)

def lastEvent (vk : UInt16) (cs : List Call) : Option KeyEvent := (keyEvents vk cs).head?

/-- The first `KeyDown` of `vk` since it was last up. -/
def firstPress (vk : UInt16) (cs : List Call) : Option KeyEvent := latched KeyEvent.isPress (keyEvents vk cs)

/-! ## One call -/

/-- What the table holds of a key. -/
def view (s : KeyState) (i : Fin 256) : Option KeyEvent :=
  if (s.keys i).down then some ⟨.keyDown, (s.keys i).scan, (s.keys i).flags⟩ else none

theorem keyEvents_clear (vk : UInt16) (cs : List Call) : keyEvents vk (cs ++ [.clear]) = [] := by
  simp [keyEvents]

theorem keyEvents_apply (vk : UInt16) (cs : List Call) (kind : EventKind) (vk' scan flags : UInt16) :
    keyEvents vk (cs ++ [.apply kind vk' scan flags]) =
      ((Call.apply kind vk' scan flags).keyEvent vk).toList ++ keyEvents vk cs := by
  have hne : decide (Call.apply kind vk' scan flags ≠ .clear) = true := rfl
  rw [keyEvents, List.reverse_concat, List.takeWhile_cons, if_pos hne, List.filterMap_cons]
  cases (Call.apply kind vk' scan flags).keyEvent vk <;> rfl

/-- A key event of another key leaves the entry alone. -/
theorem view_update {s t : KeyState} {i j : Fin 256} {k : Key} (ht : t.keys = Function.update s.keys j k) (h : i ≠ j) :
    t.view i = s.view i := by
  rw [view, view, ht, Function.update_of_ne h]

/-- An event of the entry's own key. -/
theorem view_own (s : KeyState) (i : Fin 256) {kind : EventKind} (hk : isKey kind = true) (scan flags : UInt16) :
    (s.apply kind (code i) scan flags).1.view i = latch KeyEvent.isPress (s.view i) ⟨kind, scan, flags⟩ := by
  unfold KeyState.apply
  rw [slot_code]
  cases kind with
  | keyDown => cases hd : (s.keys i).down <;> simp [view, latch, KeyEvent.isPress, hd]
  | keyUp => cases hd : (s.keys i).down <;> simp [view, latch, KeyEvent.isPress, hd]
  | _ => cases hk

/-- A call is a signal to the latch of its key and to no other. -/
theorem view_apply (s : KeyState) (i : Fin 256) (kind : EventKind) (vk scan flags : UInt16) :
    (s.apply kind vk scan flags).1.view i =
      match (Call.apply kind vk scan flags).keyEvent (code i) with
      | none => s.view i
      | some e => latch KeyEvent.isPress (s.view i) e := by
  simp only [Call.keyEvent]
  by_cases hown : vk = code i ∧ isKey kind = true
  · rw [if_pos hown, hown.1]
    exact view_own s i hown.2 scan flags
  · rw [if_neg hown]
    rcases apply_cases s kind vk scan flags with h | ⟨j, rfl, rfl, -, -, hk⟩ | ⟨j, rfl, rfl, -, -, hk⟩
    · rw [h]
    · exact view_update hk fun hij => hown ⟨by rw [hij], rfl⟩
    · exact view_update hk fun hij => hown ⟨by rw [hij], rfl⟩

/-! ## Any calls -/

theorem view_after (cs : List Call) (i : Fin 256) : (after cs).view i = firstPress (code i) cs := by
  induction cs using List.reverseRecOn with
  | nil => rfl
  | append_singleton cs c ih =>
    have hafter : after (cs ++ [c]) = (after cs).exec c := by rw [after, List.foldl_append]; rfl
    rw [hafter]
    cases c with
    | clear => rw [firstPress, keyEvents_clear]; rfl
    | apply kind vk scan flags =>
      rw [exec, view_apply, firstPress, keyEvents_apply, ih]
      cases (Call.apply kind vk scan flags).keyEvent (code i) with
      | none => rfl
      | some e => exact (latched_cons KeyEvent.isPress e (keyEvents (code i) cs)).symm

theorem isDown_view (s : KeyState) (i : Fin 256) : s.isDown (code i) = (s.view i).isSome := by
  rw [isDown_code, view]
  split
  · next h => exact h
  · next h => exact Bool.eq_false_iff.2 h

theorem isDown_after (cs : List Call) (vk : UInt16) :
    (after cs).isDown vk = true ↔ vk < 256 ∧ ∃ e, lastEvent vk cs = some e ∧ e.kind = .keyDown := by
  cases hs : slot vk with
  | none =>
    have hge : ¬ vk < 256 := by
      have h := isSome_slot vk
      rw [hs] at h
      exact of_decide_eq_false h.symm
    rw [isDown, hs]
    exact iff_of_false Bool.false_ne_true fun h => hge h.1
  | some i =>
    have hlt : vk < 256 := by
      have h := isSome_slot vk
      rw [hs] at h
      exact of_decide_eq_true h.symm
    obtain rfl := slot_eq_some.1 hs
    rw [isDown_view, view_after, firstPress, isSome_latched, Option.any_eq_true]
    simp only [KeyEvent.isPress, decide_eq_true_eq, hlt, true_and, lastEvent]

/-- The entry of a key that is down. -/
theorem entry_after {cs : List Call} {i : Fin 256} (h : (after cs).isDown (code i) = true) :
    ∃ e, firstPress (code i) cs = some e ∧ ((after cs).keys i).scan = e.scan ∧ ((after cs).keys i).flags = e.flags := by
  rw [isDown_code] at h
  exact ⟨⟨.keyDown, _, _⟩, (view_after cs i).symm.trans (if_pos h), rfl, rfl⟩

/-! ## A further call -/

/-- The answer of `apply` is whether some key went down or up. -/
theorem apply_true_iff (s : KeyState) (kind : EventKind) (vk scan flags : UInt16) :
    (s.apply kind vk scan flags).2 = true ↔ ∃ v, (s.apply kind vk scan flags).1.isDown v ≠ s.isDown v := by
  constructor
  · intro h
    refine ⟨vk, ?_⟩
    rw [isDown_apply h, if_pos rfl, isDown_before h]
    cases decide (kind = .keyDown) <;> nofun
  · rintro ⟨v, hv⟩
    by_contra h
    rw [apply_of_false (Bool.eq_false_iff.2 h)] at hv
    exact hv rfl

/-- What `apply` adds to the count. -/
def delta (kind : EventKind) (changed : Bool) : Int :=
  if changed then if kind = .keyDown then 1 else -1 else 0

/-- The count moves by whole keys: where it goes down it was positive. -/
theorem heldCount_apply (s : KeyState) (kind : EventKind) (vk scan flags : UInt16) :
    ((s.apply kind vk scan flags).1.heldCount : Int) = s.heldCount + delta kind (s.apply kind vk scan flags).2 := by
  have hs : s.heldCount = downCount s.keys := s.held_eq
  have ht : (s.apply kind vk scan flags).1.heldCount = downCount (s.apply kind vk scan flags).1.keys :=
    (s.apply kind vk scan flags).1.held_eq
  rcases apply_cases s kind vk scan flags with h | ⟨i, -, rfl, hd, hans, hk⟩ | ⟨i, -, rfl, hd, hans, hk⟩
  · rw [h]
    exact (Int.add_zero _).symm
  · have hc := downCount_press hd (show (⟨true, scan, flags⟩ : Key).down = true from rfl)
    rw [ht, hk, hc, hs, hans]
    rfl
  · have hpos : 0 < s.heldCount := heldCount_pos.2 ⟨i, hd⟩
    have hc := downCount_release hd (show ({ s.keys i with down := false } : Key).down = false from rfl)
    rw [ht, hk, hc, ← hs, hans]
    have hdelta : delta .keyUp true = -1 := rfl
    rw [hdelta]
    omega

theorem code_lt {i j : Fin 256} : code i < code j ↔ i < j := by
  have htoNat : ∀ k : Fin 256, (code k).toNat = k.val := by
    intro k
    simp only [code, UInt16.toNat_ofNat']
    omega
  rw [UInt16.lt_iff_toNat_lt, htoNat, htoNat, Fin.lt_def]

/-- `for_each_down` visits the keys that are down in ascending order. -/
theorem downKeys_codes (s : KeyState) :
    (s.downKeys.map fun p => code p.1).Pairwise (· < ·) ∧
      ∀ vk, vk ∈ s.downKeys.map (fun p => code p.1) ↔ s.isDown vk = true := by
  have hmap : s.downKeys.map (fun p => code p.1) = ((List.finRange 256).filter fun i => (s.keys i).down).map code := by
    rw [downKeys, List.map_map]
    rfl
  rw [hmap]
  constructor
  · rw [List.pairwise_map]
    exact ((List.pairwise_lt_finRange 256).filter _).imp code_lt.2
  · intro vk
    rw [isDown_iff]
    simp only [List.mem_map, List.mem_filter, List.mem_finRange, true_and]
    constructor
    · rintro ⟨i, hd, rfl⟩
      exact ⟨i, rfl, hd⟩
    · rintro ⟨i, rfl, hd⟩
      exact ⟨i, hd, rfl⟩

/-- What the table says after the calls `cs`. -/
structure Summary (cs : List Call) (s : KeyState) : Prop where
  down : ∀ vk, s.isDown vk = true ↔ vk < 256 ∧ ∃ e, lastEvent vk cs = some e ∧ e.kind = .keyDown
  entry : ∀ i, s.isDown (code i) = true →
    ∃ e, firstPress (code i) cs = some e ∧ (s.keys i).scan = e.scan ∧ (s.keys i).flags = e.flags
  held : s.heldCount = (Finset.univ.filter fun i => s.isDown (code i) = true).card
  answer : ∀ kind vk scan flags, (s.apply kind vk scan flags).2 = true ↔
    ∃ v, (s.apply kind vk scan flags).1.isDown v ≠ s.isDown v
  count : ∀ kind vk scan flags,
    ((s.apply kind vk scan flags).1.heldCount : Int) = s.heldCount + delta kind (s.apply kind vk scan flags).2
  ascending : (s.downKeys.map fun p => code p.1).Pairwise (· < ·)
  visited : ∀ vk, vk ∈ s.downKeys.map (fun p => code p.1) ↔ s.isDown vk = true
  entries : ∀ p ∈ s.downKeys, p.2 = s.keys p.1

/-- For every history of `apply` and `clear`, key events or not, of any codes. -/
theorem key_history (cs : List Call) : Summary cs (after cs) := by
  obtain ⟨hasc, hmem⟩ := downKeys_codes (after cs)
  refine ⟨isDown_after cs, fun i hd => entry_after hd, ?_, apply_true_iff _, heldCount_apply _, hasc, hmem, ?_⟩
  · simp only [isDown_code]
    exact (after cs).held_eq
  · rintro ⟨i, k⟩ hp
    exact (mem_downKeys.1 hp).2

end MultiMadness.KeyState
