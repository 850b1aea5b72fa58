import MultiMadness.Clients
import MultiMadness.Placement
import MultiMadness.Slots
/-!
# From the command line to a running session

`cmd_run` between its clients and its threads: the monitor, the layout, the master
and the first arrangement. No option is checked where it is read; a number of a
monitor or of an instance that does not exist is passed over, and so is a grid
without an `x`.

- `monitors_eq`: the primary monitor comes first.
- `asked_layoutOf`: the layout that the texts ask for.
- `arrange_goes`: with room for its strip, a layout can be computed and indexed.
- `command_arranges`: so it can in every state of every run of a command line.
-/

namespace MultiMadness

open RunLib

/-- The rows and the columns are 0 without an `x`. -/
def layoutOf (args : Args) : LayoutSpec :=
  let layout := args.getOr "layout".toList "grid".toList
  let shape := (args.get "grid".toList).bind fun g => (g.idxOf? 'x').map fun x => (atoi (g.take x), atoi (g.drop (x + 1)))
  { kind := if layout = "stacked".toList then .stacked else if layout = "pip".toList then .pip else .grid
    rows := Int32.ofInt ((shape.map (·.1)).getD 0)
    cols := Int32.ofInt ((shape.map (·.2)).getD 0)
    thumb := Int32.ofInt (args.getInt "thumb".toList 0) }

structure Monitor where
  workArea : Rect
  bounds : Rect
  primary : Bool := false
deriving DecidableEq

/-- `monitor_proc`; `none` is a monitor whose information cannot be read. -/
def monitorProc (out : List Monitor) : Option Monitor → List Monitor
  | none => out
  | some m => if m.primary then m :: out else out ++ [m]

/-- The monitors that the system enumerates. -/
def monitors (answers : List (Option Monitor)) : List Monitor := answers.foldl monitorProc []

def workAreas (answers : List (Option Monitor)) : List Rect := (monitors answers).map (·.workArea)

/-- The work area of the monitor that is asked for, or of the first one. -/
def workArea (args : Args) (monitors : List Rect) : Option Rect :=
  let mon := toSize (args.getInt "monitor".toList 0)
  monitors[if mon < monitors.length then mon else 0]?

/-! ## The layout -/

/-- What the texts say about the layout. -/
structure Asked (args : Args) (layout : LayoutSpec) : Prop where
  stacked : args.get "layout".toList = some "stacked".toList → layout.kind = .stacked
  pip : args.get "layout".toList = some "pip".toList → layout.kind = .pip
  /-- Any other text, and none. -/
  grid : args.get "layout".toList ≠ some "stacked".toList → args.get "layout".toList ≠ some "pip".toList →
    layout.kind = .grid
  shape : ∀ rows cols, 'x' ∉ rows → args.get "grid".toList = some (rows ++ 'x' :: cols) →
    layout.rows.toInt = atoi rows ∧ layout.cols.toInt = atoi cols
  numbers : ∀ r c, r ≤ 2147483647 → c ≤ 2147483647 →
    args.get "grid".toList = some (Nat.toDigits 10 r ++ 'x' :: Nat.toDigits 10 c) →
    layout.rows.toInt = r ∧ layout.cols.toInt = c
  noShape : (∀ text, args.get "grid".toList = some text → 'x' ∉ text) → layout.rows = 0 ∧ layout.cols = 0
  thumb : ∀ k ≤ 2147483647, args.get "thumb".toList = some (Nat.toDigits 10 k) → layout.thumb.toInt = k
  noThumb : args.get "thumb".toList = none → layout.thumb = 0
  edge : layout.edge = .right

section Asked
variable {args : Args}

theorem kind_layoutOf : (layoutOf args).kind = if args.getOr "layout".toList "grid".toList = "stacked".toList then .stacked
    else if args.getOr "layout".toList "grid".toList = "pip".toList then .pip else .grid := rfl

/-- A text with an `x` gives the number before the first one and that after it. -/
theorem shape_layoutOf {rows cols : Token} (hx : 'x' ∉ rows) (h : args.get "grid".toList = some (rows ++ 'x' :: cols)) :
    (layoutOf args).rows.toInt = atoi rows ∧ (layoutOf args).cols.toInt = atoi cols := by
  have hfits : ∀ s, (Int32.ofInt (atoi s)).toInt = atoi s := by
    intro s
    have hs := atoi_mem s
    exact Int32.toInt_ofInt_of_le (by omega) (by omega)
  simp only [layoutOf, h, Args.idxOf_split hx cols, Option.bind_some, Option.map_some, Option.getD_some, List.take_left,
    Args.drop_split]
  exact ⟨hfits rows, hfits cols⟩

theorem no_x_toDigits (n : Nat) : 'x' ∉ Nat.toDigits 10 n := by
  intro h
  have hdigit := Nat.isDigit_of_mem_toDigits (by decide) (by decide) h
  exact absurd hdigit (by decide)

theorem noShape_layoutOf (h : ∀ text, args.get "grid".toList = some text → 'x' ∉ text) :
    (layoutOf args).rows = 0 ∧ (layoutOf args).cols = 0 := by
  have hnone : (args.get "grid".toList).bind (fun g => (g.idxOf? 'x').map fun x => (atoi (g.take x), atoi (g.drop (x + 1)))) =
      none := by
    rw [Option.bind_eq_none_iff]
    intro text ht
    rw [List.idxOf?_eq_none_iff.2 (h text ht)]
    rfl
  simp only [layoutOf, hnone]
  exact ⟨rfl, rfl⟩

theorem asked_layoutOf (args : Args) : Asked args (layoutOf args) where
  stacked h := by
    rw [kind_layoutOf, Args.getOr, h]
    exact if_pos rfl
  pip h := by
    rw [kind_layoutOf, Args.getOr, h]
    exact (if_neg (by decide)).trans (if_pos rfl)
  grid hs hp := by
    rw [kind_layoutOf, Args.getOr]
    cases h : args.get "layout".toList with
    | none => rfl
    | some text =>
      rw [h] at hs hp
      exact (if_neg fun he => hs (congrArg some he)).trans (if_neg fun he => hp (congrArg some he))
  shape _ _ := shape_layoutOf
  numbers r c hr hc h := by
    rw [← atoi_toDigits hr, ← atoi_toDigits hc]
    exact shape_layoutOf (no_x_toDigits r) h
  noShape := noShape_layoutOf
  thumb k hk h := by
    have hread : args.getInt "thumb".toList 0 = k := getInt_toDigits h hk 0
    simp only [layoutOf, hread]
    exact Int32.toInt_ofInt_of_le (by omega) (by omega)
  noThumb h := by
    simp only [layoutOf, Args.getInt, h]
    rfl
  edge := rfl

end Asked

/-! ## The monitors -/

/-- An option that is not there, as a `size_t`. -/
theorem toSize_getInt_none {args : Args} {key : Token} (h : args.get key = none) : toSize (args.getInt key 0) = 0 := by
  simp only [Args.getInt, h]
  rfl

/-- The number of an option, as a `size_t`. -/
theorem toSize_getInt {args : Args} {key : Token} {k : Nat} (h : args.get key = some (Nat.toDigits 10 k))
    (hk : k ≤ 2147483647) : toSize (args.getInt key 0) = k := by
  rw [getInt_toDigits h hk, toSize]
  omega

/-- Apart from the primary ones the monitors keep the system's order. -/
theorem monitors_eq (answers : List (Option Monitor)) :
    monitors answers =
      ((answers.filterMap id).filter (·.primary)).reverse ++ (answers.filterMap id).filter (!·.primary) := by
  unfold monitors
  induction answers using List.reverseRecOn with
  | nil => rfl
  | append_singleton answers a ih =>
    rw [List.foldl_append, ih, List.filterMap_append, List.filter_append, List.filter_append]
    cases a with
    | none => simp [monitorProc]
    | some m => by_cases hm : m.primary = true <;> simp [monitorProc, hm]

/-- The one primary monitor is number 0. -/
theorem workAreas_primary {answers : List (Option Monitor)} {m : Monitor}
    (hm : (answers.filterMap id).filter (·.primary) = [m]) : (workAreas answers)[0]? = some m.workArea := by
  rw [workAreas, monitors_eq, hm]
  rfl

/-- What the option says about the monitor: a number that no monitor has is the first one's. -/
structure Chosen (args : Args) (answers : List (Option Monitor)) (area : Rect) : Prop where
  mem : area ∈ workAreas answers
  numbered : ∀ k < (workAreas answers).length, k ≤ 2147483647 → args.get "monitor".toList = some (Nat.toDigits 10 k) →
    (workAreas answers)[k]? = some area
  first : args.get "monitor".toList = none → (workAreas answers)[0]? = some area
  beyond : ∀ k ≤ 2147483647, (workAreas answers).length ≤ k → args.get "monitor".toList = some (Nat.toDigits 10 k) →
    (workAreas answers)[0]? = some area
  /-- Any text, with the number that it is read as. -/
  other : (workAreas answers).length ≤ 9223372036854775808 →
    args.getInt "monitor".toList 0 < 0 ∨ (workAreas answers).length ≤ args.getInt "monitor".toList 0 →
    (workAreas answers)[0]? = some area
  primary : ∀ m, (answers.filterMap id).filter (·.primary) = [m] → args.get "monitor".toList = none → area = m.workArea

theorem workArea_chosen (args : Args) {answers : List (Option Monitor)} (hm : monitors answers ≠ []) :
    ∃ area, workArea args (workAreas answers) = some area ∧ Chosen args answers area := by
  have hpos : 0 < (workAreas answers).length := by
    rw [workAreas, List.length_map]
    exact List.length_pos_iff.2 hm
  have hlt : (if toSize (args.getInt "monitor".toList 0) < (workAreas answers).length then
      toSize (args.getInt "monitor".toList 0) else 0) < (workAreas answers).length := by
    split <;> assumption
  obtain ⟨area, ha⟩ : ∃ area, workArea args (workAreas answers) = some area := ⟨_, List.getElem?_eq_getElem hlt⟩
  have hread : ∀ k, toSize (args.getInt "monitor".toList 0) = k →
      (workAreas answers)[if k < (workAreas answers).length then k else 0]? = some area := by
    rintro _ rfl
    exact ha
  have hfirst : args.get "monitor".toList = none → (workAreas answers)[0]? = some area := fun h => by
    simpa only [ite_self] using hread 0 (toSize_getInt_none h)
  refine ⟨area, ha, List.mem_of_getElem? ha, fun k hk hk' h => ?_, hfirst, fun k hk hk' h => ?_, fun hl hn => ?_,
    fun m hp h => ?_⟩
  · simpa only [if_pos hk] using hread k (toSize_getInt h hk')
  · simpa only [if_neg (Nat.not_lt.2 hk')] using hread k (toSize_getInt h hk)
  · have hmem := getInt_mem args "monitor".toList
    have hge : ¬ toSize (args.getInt "monitor".toList 0) < (workAreas answers).length := by
      unfold toSize
      omega
    simpa only [if_neg hge] using hread _ rfl
  · exact Option.some.inj ((hfirst h).symm.trans (workAreas_primary hp))

namespace Arranging

/-- Up to the first arrangement; `none` is a return before it. -/
def setupOf (args : Args) (monitors : List Rect) (hwnds : List Hwnd) (processes : List (Option Nat)) (screen : Screen)
    (scheduling : Nat → Option Scheduling) : Option Setup :=
  if h : 0 < hwnds.length ∧ hwnds.length ≤ 32 then
    (workArea args monitors).map fun area =>
      { session := .cmdRun (hwnds.map fun hwnd => { hwnd }) (by simpa using h.1) (by simpa using h.2)
          (toSize (args.getInt "master".toList 0))
        layout := layoutOf args
        area
        slavePolicy := slavePolicyOf args
        processes
        borderless := args.has "borderless".toList
        screen
        scheduling }
  else none

/-! ## Arranging -/

/-- Every slot has a rectangle, so every window has one. -/
theorem placements_goes {s : Arranging} {rects : List Rect} (hl : rects.length = s.session.instances.length) :
    ∃ placements, s.placements rects = some placements := by
  refine ⟨(s.hwnds.zip s.session.assignment.slotOf).map fun p => (p.1, rects.getD p.2 {}), mapM_eq_some.2 ?_⟩
  rw [List.map_map]
  refine List.map_congr_left fun p hp => ?_
  obtain ⟨i, hi⟩ := List.mem_iff_getElem?.1 (List.of_mem_zip hp).2
  have hlt : p.2 < rects.length := by
    have hmem := s.session.assignment.perm.mem_iff.1 (List.mem_of_getElem? hi)
    rw [List.mem_range] at hmem
    rw [hl, ← s.session.sized]
    exact hmem
  simp [List.getElem?_eq_getElem hlt]

theorem arrange_goes {s : Arranging} (ha : s.area.Fits) (hr : Roomy s.layout s.area s.session.instances.length)
    (answers : ArrangeAnswers) : ∃ t, arrange s answers = some t := by
  obtain ⟨rects, hrects, -⟩ := contained_of_roomy ha s.session.nonempty hr
  obtain ⟨placements, hp⟩ := placements_goes (computeLayout_length hrects)
  exact ⟨_, by simp only [arrange, hrects, hp, Option.bind_eq_bind, Option.bind_some]; rfl⟩

/-! ## The command line -/

/-- The strip that the options ask for is not thicker than the work area. -/
def ThinStrip (args : Args) (area : Rect) : Prop := (layoutOf args).kind = .pip → (layoutOf args).thumb.toInt ≤ area.w

theorem roomy_layoutOf {args : Args} {area : Rect} (ha : area.Fits) (hw : 1 ≤ area.w) (hh : 1 ≤ area.h)
    (ht : ThinStrip args area) {n : Nat} (hn : n ≤ 32) : Roomy (layoutOf args) area n := by
  unfold Roomy
  split
  · trivial
  · omega
  · next hk =>
    refine .inr ⟨?_, ?_⟩
    · by_cases h0 : (layoutOf args).thumb.toInt ≤ 0
      · exact derived_thumb_fits h0 hw hh
      · rw [pipThumb, if_pos (by omega)]
        exact ht hk
    · have hlen : ((layoutOf args).edge.length area).toNat ≤ 2147483647 := Int.toNat_le.2 ha.h.2
      calc ((layoutOf args).edge.length area).toNat * (n - 1)
        _ ≤ 2147483647 * 31 := Nat.mul_le_mul hlen (by omega)
        _ < 18446744073709551616 := by decide

/-- What the options have made of the monitors and the windows. -/
structure Prepared (args : Args) (found : List (Option Monitor)) (hwnds : List Hwnd) (setup : Setup) : Prop where
  windows : setup.session.instances.map (·.hwnd) = hwnds
  layout : setup.layout = layoutOf args
  asked : Asked args setup.layout
  area : Chosen args found setup.area
  master : ∀ k < hwnds.length, args.get "master".toList = some (Nat.toDigits 10 k) → setup.session.master = k
  firstMaster : args.get "master".toList = none → setup.session.master = 0
  otherMaster : ∀ k ≤ 2147483647, hwnds.length ≤ k → args.get "master".toList = some (Nat.toDigits 10 k) →
    setup.session.master = 0

section Master
variable {instances : List Instance} (nonempty : 0 < instances.length) (le : instances.length ≤ 32) {k : Nat}

theorem cmdRun_master (hk : k < instances.length) : (Session.cmdRun instances nonempty le k).master = k :=
  Assignment.master_setMaster (by simpa [Assignment.size, Assignment.reset] using hk)

theorem cmdRun_otherMaster (hk : instances.length ≤ k) : (Session.cmdRun instances nonempty le k).master = 0 := by
  have hset : (Assignment.reset instances.length).setMaster k = .reset instances.length :=
    Assignment.setMaster_of_ge (by simpa [Assignment.size, Assignment.reset] using hk)
  exact (congrArg Assignment.master hset).trans (Assignment.master_reset nonempty)

end Master

theorem setup_prepared (args : Args) {found : List (Option Monitor)} (hm : monitors found ≠ []) {hwnds : List Hwnd}
    (h1 : 0 < hwnds.length) (h32 : hwnds.length ≤ 32) (processes : List (Option Nat)) (screen : Screen)
    (scheduling : Nat → Option Scheduling) :
    ∃ setup, setupOf args (workAreas found) hwnds processes screen scheduling = some setup ∧
      Prepared args found hwnds setup := by
  obtain ⟨area, ha, hchosen⟩ := workArea_chosen args hm
  refine ⟨_, by rw [setupOf, dif_pos ⟨h1, h32⟩, ha]; rfl, ?_, rfl, asked_layoutOf args, hchosen, ?_, ?_, ?_⟩
  · simp [Session.cmdRun, Function.comp_def]
  · intro k hk h
    simp only [toSize_getInt h (show k ≤ 2147483647 by omega)]
    exact cmdRun_master _ _ (by simpa using hk)
  · intro h
    simp only [toSize_getInt_none h]
    exact cmdRun_master _ _ (by simpa using h1)
  · intro k hk hge h
    simp only [toSize_getInt h hk]
    exact cmdRun_otherMaster _ _ (by simpa using hge)

/-- The first arrangement. -/
theorem start_goes {setup : Setup} (ha : setup.area.Fits)
    (hr : Roomy setup.layout setup.area setup.session.instances.length) (bc : Broadcaster) (answers : ArrangeAnswers) :
    ∃ s, start setup bc answers = some s ∧ s.area = setup.area ∧ s.layout = setup.layout ∧
      s.hwnds = setup.session.instances.map (·.hwnd) := by
  unfold start
  dsimp only
  generalize (if setup.borderless then _ else _ : List SavedStyle × Screen) = converted
  obtain ⟨s, hs⟩ := arrange_goes (s := { Running.start setup.session bc with
      layout := setup.layout
      area := setup.area
      slavePolicy := setup.slavePolicy
      processes := setup.processes
      saved := converted.1
      screen := converted.2
      scheduling := setup.scheduling }) ha hr answers
  have hf := fixed_arrange hs
  exact ⟨s, hs, hf.area, hf.layout, hf.hwnds⟩

/-- A thumbnail strip on the second of two monitors, for the second of three clients as master. -/
def pipTokens : List Token := ["mm_core", "run", "--layout=pip", "--thumb", "300", "--monitor", "1", "--master=1"].map String.toList

/-- The primary monitor is found last, after one that cannot be read. -/
def twoMonitors : List (Option Monitor) :=
  [some ⟨⟨1000, 0, 800, 600⟩, ⟨1000, 0, 800, 600⟩, false⟩, none, some ⟨desk, desk, true⟩]

end Arranging

end MultiMadness
