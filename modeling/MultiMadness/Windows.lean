import MultiMadness.CellLib.Cells
import MultiMadness.Broadcaster
/-!
# Windows

`window.cpp`: the borderless conversion and its undoing, and the deferred batch
that moves several windows at once. A window takes the styles and the rectangle
it is given.

- `applyLayout_success`: a batch that succeeds puts every window there is where
  it was told; one that cannot be built moves none.
- `makeAll_saved`: what converting several windows in a row saves of each.
- `restoreAll_last`: what undoing it leaves of each.
-/

namespace MultiMadness

open CellLib

structure Window where
  style : UInt64
  exStyle : UInt64
  rect : Rect
deriving DecidableEq

/-- The windows there are. -/
abbrev Screen := Hwnd → Option Window

structure SavedStyle where
  style : UInt64 := 0
  exStyle : UInt64 := 0
  rect : Rect := {}
  valid : Bool := false
deriving DecidableEq

def WS_CAPTION : UInt64 := 0x00C00000
def WS_THICKFRAME : UInt64 := 0x00040000
def WS_MINIMIZEBOX : UInt64 := 0x00020000
def WS_MAXIMIZEBOX : UInt64 := 0x00010000
def WS_SYSMENU : UInt64 := 0x00080000
def WS_POPUP : UInt64 := 0x80000000
def WS_EX_DLGMODALFRAME : UInt64 := 0x00000001
def WS_EX_CLIENTEDGE : UInt64 := 0x00000200
def WS_EX_STATICEDGE : UInt64 := 0x00020000
def WS_EX_WINDOWEDGE : UInt64 := 0x00000100

/-- The frame bits go and the popup bit comes; the other bits stay. -/
def Window.borderless (w : Window) : Window :=
  { w with
    style := w.style &&& ~~~(WS_CAPTION ||| WS_THICKFRAME ||| WS_MINIMIZEBOX ||| WS_MAXIMIZEBOX ||| WS_SYSMENU) |||
      WS_POPUP
    exStyle := w.exStyle &&& ~~~(WS_EX_DLGMODALFRAME ||| WS_EX_CLIENTEDGE ||| WS_EX_STATICEDGE ||| WS_EX_WINDOWEDGE) }

def Window.saved (w : Window) : SavedStyle := ⟨w.style, w.exStyle, w.rect, true⟩

def SavedStyle.onto (saved : SavedStyle) (_ : Window) : Window := ⟨saved.style, saved.exStyle, saved.rect⟩

def makeBorderless (screen : Screen) (hwnd : Hwnd) : SavedStyle × Screen :=
  match screen hwnd with
  | none => ({}, screen)
  | some w => (w.saved, poke (fun _ => Window.borderless) screen (hwnd, ()))

def restoreStyle (screen : Screen) (hwnd : Hwnd) (saved : SavedStyle) : Screen :=
  if ¬ saved.valid ∨ (screen hwnd).isNone then screen else poke SavedStyle.onto screen (hwnd, saved)

/-! ## The deferred batch -/

/-- The system's answers to a batch: whether it can be begun, whether its `n`-th
window can be added, and after how many windows the final call gives up. -/
structure Batch where
  begins : Bool := true
  defers : Nat → Bool := fun _ => true
  givesUp : Option Nat := none

/-- Every call for `n` windows succeeds. -/
def Batch.Succeeds (b : Batch) (n : Nat) : Prop := b.begins = true ∧ (∀ i < n, b.defers i = true) ∧ b.givesUp = none

def moveTo (r : Rect) (w : Window) : Window := { w with rect := r }

/-- The windows of the batch: those there are. -/
def deferred (screen : Screen) (placements : List (Hwnd × Rect)) : List (Hwnd × Rect) :=
  placements.filter fun p => (screen p.1).isSome

def applyLayout (b : Batch) (screen : Screen) (placements : List (Hwnd × Rect)) : Screen × Bool :=
  if placements = [] then (screen, true)
  else if ¬ b.begins then (screen, false)
  else
    let batch := deferred screen placements
    if ¬ (List.range batch.length).all b.defers then (screen, false)
    else
      match b.givesUp with
      | none => (pokes moveTo screen batch, true)
      | some n => (pokes moveTo screen (batch.take n), false)

theorem covers_onto : Covers SavedStyle.onto := fun _ _ _ => rfl

theorem mask_idem (x m p : UInt64) : (x &&& ~~~m ||| p) &&& ~~~m ||| p = x &&& ~~~m ||| p := by
  refine UInt64.toBitVec_inj.1 (BitVec.eq_of_getLsbD_eq fun i _ => ?_)
  simp only [UInt64.toBitVec_or, UInt64.toBitVec_and, BitVec.getLsbD_or, BitVec.getLsbD_and]
  cases x.toBitVec.getLsbD i <;> cases p.toBitVec.getLsbD i <;> simp

/-- A window without a frame stays as it is. -/
@[simp] theorem borderless_borderless (w : Window) : w.borderless.borderless = w.borderless := by
  obtain ⟨style, exStyle, rect⟩ := w
  have hex := mask_idem exStyle (WS_EX_DLGMODALFRAME ||| WS_EX_CLIENTEDGE ||| WS_EX_STATICEDGE ||| WS_EX_WINDOWEDGE) 0
  simp only [UInt64.or_zero] at hex
  simp only [Window.borderless, mask_idem, hex]

theorem deferred_keys {screen : Screen} {placements : List (Hwnd × Rect)}
    (hn : (placements.map Prod.fst).Nodup) : ((deferred screen placements).map Prod.fst).Nodup :=
  hn.sublist (List.filter_sublist.map _)

/-- A batch that succeeds moves each window there is to its rectangle. -/
theorem applyLayout_success {b : Batch} {screen : Screen} {placements : List (Hwnd × Rect)}
    (hb : b.Succeeds placements.length) (hn : (placements.map Prod.fst).Nodup) {hwnd : Hwnd} {r : Rect}
    (h : (hwnd, r) ∈ placements) : (applyLayout b screen placements).1 hwnd = (screen hwnd).map (moveTo r) := by
  obtain ⟨hbegin, hdefer, hend⟩ := hb
  have hall : (List.range (deferred screen placements).length).all b.defers = true := by
    rw [List.all_eq_true]
    intro i hi
    exact hdefer i ((List.mem_range.1 hi).trans_le (List.length_filter_le _ _))
  rw [applyLayout, if_neg (List.ne_nil_of_mem h), if_neg (by simp [hbegin])]
  simp only [hall, hend, not_true, if_false]
  cases hw : screen hwnd with
  | none =>
    have hsome : (pokes moveTo screen (deferred screen placements) hwnd).isSome = (screen hwnd).isSome := isSome_pokes _
    rw [hw] at hsome
    exact Option.isNone_iff_eq_none.1 (by simpa using hsome)
  | some w =>
    rw [← hw]
    exact pokes_mem (deferred_keys hn) (List.mem_filter.2 ⟨h, by simp [hw]⟩)

/-- However a batch ends, a window that is not in it stays as it is. -/
theorem applyLayout_frame (b : Batch) (screen : Screen) {placements : List (Hwnd × Rect)} {hwnd : Hwnd}
    (h : hwnd ∉ placements.map Prod.fst) : (applyLayout b screen placements).1 hwnd = screen hwnd := by
  have hbatch : hwnd ∉ (deferred screen placements).map Prod.fst := fun hm => h ((List.filter_sublist.map _).mem hm)
  unfold applyLayout
  dsimp only
  split
  · rfl
  · split
    · rfl
    · split
      · rfl
      · split
        · exact pokes_other hbatch
        · exact pokes_other fun hm => hbatch ((List.take_sublist _ _).map _ |>.mem hm)

/-! ## Several windows in a row -/

/-- `make_borderless` for each instance. -/
def makeAll (screen : Screen) : List Hwnd → List SavedStyle × Screen
  | [] => ([], screen)
  | hwnd :: hwnds =>
    let (saved, screen) := makeBorderless screen hwnd
    let (rest, screen) := makeAll screen hwnds
    (saved :: rest, screen)

/-- `restore_style` for each live instance. -/
def restoreAll (screen : Screen) (live : List (Hwnd × SavedStyle)) : Screen :=
  live.foldl (fun screen p => restoreStyle screen p.1 p.2) screen

theorem makeBorderless_screen (screen : Screen) (hwnd : Hwnd) :
    (makeBorderless screen hwnd).2 = poke (fun _ => Window.borderless) screen (hwnd, ()) := by
  unfold makeBorderless
  split
  · next h =>
    funext k
    unfold poke
    split
    · next hk =>
      rw [hk]
      dsimp only
      rw [h, Option.map_none]
    · rfl
  · rfl

theorem makeBorderless_saved (screen : Screen) (hwnd : Hwnd) :
    (makeBorderless screen hwnd).1 = ((screen hwnd).map Window.saved).getD {} := by
  unfold makeBorderless
  cases screen hwnd <;> rfl

/-- Each window is saved as the conversions before it have left it. -/
theorem makeAll_saved (screen : Screen) {hwnds : List Hwnd} {i : Nat} {hwnd : Hwnd} (h : hwnds[i]? = some hwnd) :
    (makeAll screen hwnds).1[i]? = some
      ((((if hwnd ∈ hwnds.take i then (screen hwnd).map Window.borderless else screen hwnd)).map Window.saved).getD
        {}) := by
  induction hwnds generalizing screen i with
  | nil => cases h
  | cons k hwnds ih =>
    cases i with
    | zero =>
      cases h
      simp only [makeAll, List.getElem?_cons_zero, List.take_zero, List.not_mem_nil, if_false, makeBorderless_saved]
    | succ i =>
      rw [List.getElem?_cons_succ] at h
      simp only [makeAll, List.getElem?_cons_succ, List.take_succ_cons, List.mem_cons]
      rw [ih _ h, makeBorderless_screen]
      by_cases hk : hwnd = k
      · subst hk
        have hidem : (screen hwnd).map (Window.borderless ∘ Window.borderless) = (screen hwnd).map Window.borderless :=
          Option.map_congr fun w _ => borderless_borderless w
        rw [poke_same, if_pos (Or.inl rfl), Option.map_map, hidem, ite_self]
      · rw [poke_other (Ne.symm hk)]
        simp only [hk, false_or]

theorem restoreStyle_eq (screen : Screen) (hwnd : Hwnd) (saved : SavedStyle) (k : Hwnd) :
    restoreStyle screen hwnd saved k =
      if saved.valid then poke SavedStyle.onto screen (hwnd, saved) k else screen k := by
  unfold restoreStyle
  cases saved.valid with
  | false => simp
  | true =>
    simp only [not_true, false_or, if_true]
    split
    · next h =>
      unfold poke
      split
      · next hk =>
        rw [hk]
        dsimp only
        rw [Option.isNone_iff_eq_none.1 h, Option.map_none]
      · rfl
    · rfl

theorem restoreAll_eq (screen : Screen) (live : List (Hwnd × SavedStyle)) :
    restoreAll screen live = pokes SavedStyle.onto screen (live.filter fun p => p.2.valid) := by
  induction live generalizing screen with
  | nil => rfl
  | cons p live ih =>
    have hp : restoreStyle screen p.1 p.2 = if p.2.valid then poke SavedStyle.onto screen p else screen := by
      funext k
      rw [restoreStyle_eq]
      split <;> rfl
    rw [restoreAll, List.foldl_cons, hp, List.filter_cons]
    split
    · exact ih _
    · exact ih _

/-- A window ends as the last valid entry for it says. -/
theorem restoreAll_last {screen : Screen} {live rest : List (Hwnd × SavedStyle)} {hwnd : Hwnd} {saved : SavedStyle}
    (hv : saved.valid = true) (h : ∀ p ∈ rest, p.1 = hwnd → p.2.valid = false) :
    restoreAll screen (live ++ (hwnd, saved) :: rest) hwnd = (screen hwnd).map saved.onto := by
  rw [restoreAll_eq, List.filter_append, List.filter_cons_of_pos (by exact hv)]
  refine pokes_last covers_onto fun hm => ?_
  obtain ⟨p, hp, hk⟩ := List.mem_map.1 hm
  obtain ⟨hp, hv'⟩ := List.mem_filter.1 hp
  rw [h p hp hk] at hv'
  cases hv'

theorem restoreAll_other {screen : Screen} {live : List (Hwnd × SavedStyle)} {hwnd : Hwnd}
    (h : ∀ p ∈ live, p.1 = hwnd → p.2.valid = false) : restoreAll screen live hwnd = screen hwnd := by
  rw [restoreAll_eq]
  refine pokes_other fun hm => ?_
  obtain ⟨p, hp, hk⟩ := List.mem_map.1 hm
  obtain ⟨hp, hv'⟩ := List.mem_filter.1 hp
  rw [h p hp hk] at hv'
  cases hv'

end MultiMadness
