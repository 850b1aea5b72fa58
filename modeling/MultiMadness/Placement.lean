import MultiMadness.Containment
import MultiMadness.Launcher
import MultiMadness.Session
import MultiMadness.Windows
/-!
# A session and its windows

The two threads of `cmd_run` again, with the windows and the processes of the
instances: the swap callback rearranges them, the watchdog asks which are gone,
and anything else on the desktop may change them between any two steps.

- `Effect`: what a step does to what an arrangement depends on.
- `run_running`: the threads' part of a run is a run of `Session`.
- `windows_in_slots`: from an arrangement whose batch succeeds on, every window
  is where its instance's slot is, except between a choice and the next batch.
- `policies_in_force`: the same for the processes and the policies.
-/

namespace MultiMadness

open RunLib CellLib

/-- The answers to a call of `apply_layout_and_policy`. -/
structure ArrangeAnswers where
  batch : Batch := {}
  /-- For the process of the `i`-th instance. -/
  policy : Nat → PolicyAnswers := fun _ => {}

/-- A running session with its windows. -/
structure Arranging extends Running where
  layout : LayoutSpec
  area : Rect
  slavePolicy : ProcessPolicy
  /-- The processes of the handles the instances hold; opening one may have failed. -/
  processes : List (Option Nat)
  saved : List SavedStyle
  screen : Screen
  scheduling : Nat → Option Scheduling

namespace Arranging

def hwnds (s : Arranging) : List Hwnd := s.session.instances.map (·.hwnd)

/-- Each instance's window with its slot's rectangle; a slot beyond the layout
is undefined. -/
def placements (s : Arranging) (rects : List Rect) : Option (List (Hwnd × Rect)) :=
  (s.hwnds.zip s.session.assignment.slotOf).mapM fun p => rects[p.2]?.map fun r => (p.1, r)

/-- The master has the default policy. -/
def policyOf (s : Arranging) (i : Nat) : ProcessPolicy := if i = s.session.master then {} else s.slavePolicy

/-- The policies in the order they are applied. -/
def policyWrites (s : Arranging) (answers : Nat → PolicyAnswers) : List (Nat × (PolicyAnswers × ProcessPolicy)) :=
  (s.processes.zipIdx).filterMap fun p => p.1.map fun process => (process, answers p.2, s.policyOf p.2)

def underPolicy (w : PolicyAnswers × ProcessPolicy) (sched : Scheduling) : Scheduling := sched.under w.1 w.2

/-- `Session::apply_layout_and_policy`. -/
def arrange (s : Arranging) (answers : ArrangeAnswers) : Option Arranging := do
  let rects ← computeLayout s.layout s.area s.session.instances.length
  let placements ← s.placements rects
  return { s with
    screen := (applyLayout answers.batch s.screen placements).1
    scheduling := pokes underPolicy s.scheduling (s.policyWrites answers.policy) }

inductive Label where
  /-- The steps that touch no window. -/
  | session (l : Running.Label)
  | arrange (answers : ArrangeAnswers)
  /-- `hasExited i` is the answer for the process of instance `i`. -/
  | watch (hasExited : Nat → Bool)
  /-- Whatever else happens on the desktop. -/
  | outside (screen : Screen) (scheduling : Nat → Option Scheduling)

/-- The instances the watchdog finds gone. -/
def dead (s : Arranging) (hasExited : Nat → Bool) (i : Nat) : Bool :=
  ((s.processes[i]?).join.isSome && hasExited i) || ((s.hwnds[i]?).map fun hwnd => (s.screen hwnd).isNone).getD false

def step (s : Arranging) : Label → Option Arranging
  | .session .applyLayout | .session (.markExited _) => none
  | .session l => (Running.step s.toRunning l).map fun r => { s with toRunning := r }
  | .arrange answers => do
    let r ← Running.step s.toRunning .applyLayout
    arrange { s with toRunning := r } answers
  | .watch hasExited =>
    (Running.step s.toRunning (.markExited (s.dead hasExited))).map fun r => { s with toRunning := r }
  | .outside screen scheduling => some { s with screen := screen, scheduling := scheduling }

/-- What `cmd_run` has found when it comes to the layout. -/
structure Setup where
  session : Session
  layout : LayoutSpec
  area : Rect
  slavePolicy : ProcessPolicy
  processes : List (Option Nat)
  borderless : Bool
  screen : Screen
  scheduling : Nat → Option Scheduling

/-- The first arrangement; both threads start after it. -/
def start (setup : Setup) (bc : Broadcaster) (answers : ArrangeAnswers) : Option Arranging :=
  let hwnds := setup.session.instances.map (·.hwnd)
  let converted := if setup.borderless then makeAll setup.screen hwnds else (hwnds.map fun _ => {}, setup.screen)
  arrange
    { Running.start setup.session bc with
      layout := setup.layout
      area := setup.area
      slavePolicy := setup.slavePolicy
      processes := setup.processes
      saved := converted.1
      screen := converted.2
      scheduling := setup.scheduling } answers

/-! ## What a step does -/

/-- What no step changes. -/
structure Fixed (s t : Arranging) : Prop where
  hwnds : t.hwnds = s.hwnds
  layout : t.layout = s.layout
  area : t.area = s.area
  slavePolicy : t.slavePolicy = s.slavePolicy
  processes : t.processes = s.processes
  saved : t.saved = s.saved

def Choosing (s : Arranging) : Prop := ∃ next, s.swap = .chosen next

/-- A step chooses, arranges, comes from outside, or leaves the assignment, the
windows and the processes alone. -/
inductive Effect (s : Arranging) : Label → Arranging → Prop where
  | chooses (t : Arranging) (hf : Fixed s t) (hc : Choosing t) : Effect s (.session .chooseNext) t
  | arranges (answers : ArrangeAnswers) (r : Running) (t : Arranging) (hr : r.session = s.session)
      (ht : arrange { s with toRunning := r } answers = some t) : Effect s (.arrange answers) t
  | outside (screen : Screen) (scheduling : Nat → Option Scheduling) :
      Effect s (.outside screen scheduling) { s with screen := screen, scheduling := scheduling }
  | quiet (l : Label) (t : Arranging) (hf : Fixed s t) (ha : t.session.assignment = s.session.assignment)
      (hs : t.screen = s.screen) (hsch : t.scheduling = s.scheduling) (hc : Choosing s → Choosing t) : Effect s l t

theorem hwnds_markExited (s : Session) (dead : Nat → Bool) :
    (s.markExited dead).instances.map (·.hwnd) = s.instances.map (·.hwnd) := by
  unfold Session.markExited
  refine List.ext_getElem (by simp) fun i h1 h2 => ?_
  simp

/-- A step of the two threads that touches no window and does not choose. -/
theorem quiet_session {s : Arranging} {r : Running} {l : Label} (hi : r.session.instances.map (·.hwnd) = s.hwnds)
    (ha : r.session.assignment = s.session.assignment) (hc : Choosing s → Choosing { s with toRunning := r }) :
    Effect s l { s with toRunning := r } :=
  .quiet l _ ⟨hi, rfl, rfl, rfl, rfl, rfl⟩ ha rfl rfl hc

theorem effect {s t : Arranging} {l : Label} (h : step s l = some t) : Effect s l t := by
  have hother : ∀ {l : Running.Label} {r : Running}, Running.step s.toRunning l = some r →
      l ≠ .chooseNext → l ≠ .applyLayout → (∀ dead, l ≠ .markExited dead) → ∀ m, Effect s m { s with toRunning := r } := by
    intro l r hr h1 h2 h3 m
    cases Running.change hr with
    | chooseNext => exact absurd rfl h1
    | applyLayout => exact absurd rfl h2
    | markExited dead => exact absurd rfl (h3 dead)
    | swapReadTargets next hp | swapPublish next targets hp =>
      refine quiet_session rfl rfl ?_
      rintro ⟨m, hm⟩
      cases hp.symm.trans hm
    | readTargetsFirst | readTargetsLast | readMasterFirst | readMasterLast | watchPublish =>
      exact quiet_session rfl rfl fun hc => hc
  cases l with
  | session l =>
    cases l with
    | applyLayout | markExited dead => cases h
    | chooseNext =>
      obtain ⟨r, hr, rfl⟩ := Option.map_eq_some_iff.1 h
      cases Running.change hr
      exact .chooses _ ⟨rfl, rfl, rfl, rfl, rfl, rfl⟩ ⟨_, rfl⟩
    | swapReadTargets | swapPublish | watchReadTargets | watchReadMaster | watchPublish =>
      obtain ⟨r, hr, rfl⟩ := Option.map_eq_some_iff.1 h
      exact hother hr nofun nofun nofun _
  | arrange answers =>
    obtain ⟨r, hr, ht⟩ := Option.bind_eq_some_iff.1 h
    cases Running.change hr
    refine .arranges answers _ t ?_ ht
    rfl
  | watch hasExited =>
    obtain ⟨r, hr, rfl⟩ := Option.map_eq_some_iff.1 h
    cases Running.change hr
    exact quiet_session (hwnds_markExited _ _) rfl fun hc => hc
  | outside screen scheduling =>
    cases h
    exact .outside screen scheduling

/-! ## What an arrangement does -/

theorem arrange_eq {s t : Arranging} {answers : ArrangeAnswers} (h : arrange s answers = some t) :
    ∃ rects placements, computeLayout s.layout s.area s.session.instances.length = some rects ∧
      s.placements rects = some placements ∧
      t = { s with
        screen := (applyLayout answers.batch s.screen placements).1
        scheduling := pokes underPolicy s.scheduling (s.policyWrites answers.policy) } := by
  obtain ⟨rects, hr, h⟩ := Option.bind_eq_some_iff.1 h
  obtain ⟨placements, hp, h⟩ := Option.bind_eq_some_iff.1 h
  cases h
  exact ⟨rects, placements, hr, hp, rfl⟩

theorem placement_at {s : Arranging} {rects : List Rect} {placements : List (Hwnd × Rect)}
    (h : s.placements rects = some placements) {i : Nat} {hwnd : Hwnd} (hi : s.hwnds[i]? = some hwnd) :
    ∃ slot r, s.session.assignment.slotOf[i]? = some slot ∧ rects[slot]? = some r ∧ placements[i]? = some (hwnd, r) := by
  have hlen : i < s.session.assignment.slotOf.length := by
    have hlt := (List.getElem?_eq_some_iff.1 hi).1
    have hsized : s.session.assignment.slotOf.length = s.session.instances.length := s.session.sized
    rw [hwnds, List.length_map] at hlt
    omega
  have hat := congrArg (·[i]?) (mapM_eq_some.1 h)
  have hslot := List.getElem?_eq_getElem hlen
  generalize s.session.assignment.slotOf[i] = slot at hslot
  have hzip : (s.hwnds.zip s.session.assignment.slotOf)[i]? = some (hwnd, slot) :=
    List.getElem?_zip_eq_some.2 ⟨hi, hslot⟩
  simp only [List.getElem?_map, hzip, Option.map_some] at hat
  obtain ⟨p, hp, he⟩ := Option.map_eq_some_iff.1 hat.symm
  obtain ⟨r, hr, rfl⟩ := Option.map_eq_some_iff.1 he.symm
  exact ⟨slot, r, hslot, hr, hp⟩

theorem placements_keys {s : Arranging} {rects : List Rect} {placements : List (Hwnd × Rect)}
    (h : s.placements rects = some placements) : placements.map Prod.fst = s.hwnds := by
  have hlen : placements.length = s.hwnds.length := by
    have hl := congrArg List.length (mapM_eq_some.1 h)
    have hsized : s.session.assignment.slotOf.length = s.session.instances.length := s.session.sized
    simp only [List.length_map, List.length_zip, hwnds, hsized, Nat.min_self] at hl ⊢
    exact hl.symm
  refine List.ext_getElem (by rw [List.length_map, hlen]) fun i h1 h2 => ?_
  obtain ⟨slot, r, -, -, hp⟩ := placement_at h (List.getElem?_eq_getElem h2)
  obtain ⟨h', hp⟩ := List.getElem?_eq_some_iff.1 hp
  rw [List.getElem_map, hp]

/-- Every instance has its own window. -/
def Distinct (s : Arranging) : Prop := s.hwnds.Nodup

/-- Every window there is has its slot's rectangle. -/
def Placed (s : Arranging) : Prop :=
  ∃ rects, computeLayout s.layout s.area s.hwnds.length = some rects ∧
    ∀ (i : Nat) (hwnd : Hwnd) (slot : Nat) (w : Window), s.hwnds[i]? = some hwnd →
      s.session.assignment.slotOf[i]? = some slot → s.screen hwnd = some w → rects[slot]? = some w.rect

theorem arrange_placed {s t : Arranging} {answers : ArrangeAnswers} (hd : Distinct s)
    (hb : answers.batch.Succeeds s.hwnds.length) (h : arrange s answers = some t) : Placed t := by
  obtain ⟨rects, placements, hr, hp, rfl⟩ := arrange_eq h
  have hkeys := placements_keys hp
  have hlen : placements.length = s.hwnds.length := by rw [← hkeys, List.length_map]
  refine ⟨rects, by rw [hwnds, List.length_map]; exact hr, ?_⟩
  intro i hwnd slot w hi hslot hw
  obtain ⟨slot', r, hslot', hr', hpi⟩ := placement_at hp hi
  cases hslot.symm.trans hslot'
  dsimp only at hw
  rw [applyLayout_success (by rw [hlen]; exact hb) (by rw [hkeys]; exact hd) (List.mem_of_getElem? hpi)] at hw
  obtain ⟨v, -, rfl⟩ := Option.map_eq_some_iff.1 hw
  exact hr'

/-- The master's process, if there is one, runs at normal priority and at full
speed, and every other one under the slaves' policy. -/
def InForce (s : Arranging) : Prop :=
  ∀ (i process : Nat) (sched : Scheduling), s.processes[i]? = some (some process) → s.scheduling process = some sched →
    (i = s.session.master → sched.priorityClass = 0x00000020 ∧ sched.throttled = false) ∧
      (i ≠ s.session.master →
        sched.priorityClass = priorityClass s.slavePolicy.priority ∧ sched.throttled = s.slavePolicy.ecoQos)

/-- Every instance has a process of its own. -/
def OwnProcesses (s : Arranging) : Prop := (s.processes.filterMap id).Nodup

theorem policyWrites_keys (s : Arranging) (answers : Nat → PolicyAnswers) :
    (s.policyWrites answers).map Prod.fst = s.processes.filterMap id := by
  unfold policyWrites
  rw [List.map_filterMap]
  conv_rhs => rw [← List.zipIdx_map_fst 0 s.processes, List.filterMap_map]
  refine List.filterMap_congr fun p _ => ?_
  obtain ⟨process, i⟩ := p
  cases process <;> rfl

theorem arrange_inForce {s t : Arranging} {answers : ArrangeAnswers} (hd : OwnProcesses s)
    (hp : ∀ i < s.processes.length, (answers.policy i).priority = none ∧ (answers.policy i).throttling = none)
    (h : arrange s answers = some t) : InForce t := by
  obtain ⟨rects, placements, -, -, rfl⟩ := arrange_eq h
  intro i process sched hi hs
  have hmem : (process, answers.policy i, s.policyOf i) ∈ s.policyWrites answers.policy :=
    List.mem_filterMap.2 ⟨(some process, i), List.mk_mem_zipIdx_iff_getElem?.2 hi, rfl⟩
  dsimp only at hs
  rw [pokes_mem (by rw [policyWrites_keys]; exact hd) hmem] at hs
  obtain ⟨before, -, rfl⟩ := Option.map_eq_some_iff.1 hs
  obtain ⟨hprio, hthrot⟩ := hp i (List.getElem?_eq_some_iff.1 hi).1
  simp only [underPolicy, Scheduling.under, hprio, hthrot, Option.isNone_none, if_true]
  refine ⟨fun hm => ?_, fun hm => ?_⟩
  · rw [policyOf, if_pos hm]
    exact ⟨rfl, rfl⟩
  · rw [policyOf, if_neg hm]
    exact ⟨rfl, rfl⟩

/-! ## Runs -/

theorem Fixed.trans {s t u : Arranging} (h : Fixed s t) (h' : Fixed t u) : Fixed s u :=
  ⟨h'.hwnds.trans h.hwnds, h'.layout.trans h.layout, h'.area.trans h.area, h'.slavePolicy.trans h.slavePolicy,
    h'.processes.trans h.processes, h'.saved.trans h.saved⟩

theorem fixed_running {s : Arranging} {r : Running} (h : r.session = s.session) : Fixed s { s with toRunning := r } :=
  ⟨by rw [hwnds, hwnds, h], rfl, rfl, rfl, rfl, rfl⟩

theorem fixed_arrange {s t : Arranging} {answers : ArrangeAnswers} (h : arrange s answers = some t) : Fixed s t := by
  obtain ⟨rects, placements, -, -, rfl⟩ := arrange_eq h
  exact ⟨rfl, rfl, rfl, rfl, rfl, rfl⟩

theorem fixed_step {s t : Arranging} {l : Label} (h : step s l = some t) : Fixed s t := by
  cases effect h with
  | chooses t hf hc => exact hf
  | arranges answers r t hr ht => exact (fixed_running hr).trans (fixed_arrange ht)
  | outside screen scheduling => exact ⟨rfl, rfl, rfl, rfl, rfl, rfl⟩
  | quiet l t hf ha hs hsch hc => exact hf

theorem fixed_run {s t : Arranging} {ls : List Label} (h : run step s ls = some t) : Fixed s t :=
  run_inv (Fixed s) (fun _ _ _ hi hs => hi.trans (fixed_step hs)) ⟨rfl, rfl, rfl, rfl, rfl, rfl⟩ h

/-- The steps of the two threads that a step consists of. -/
def sessionSteps (s : Arranging) : Label → List Running.Label
  | .session l => [l]
  | .arrange _ => [.applyLayout]
  | .watch hasExited => [.markExited (s.dead hasExited)]
  | .outside .. => []

/-- What the threads do to the session and the broadcaster is a run of `Session`. -/
theorem run_running {s t : Arranging} {ls : List Label} (h : run step s ls = some t) :
    ∃ ms, run Running.step s.toRunning ms = some t.toRunning := by
  refine run_simulates (fun _ => True) toRunning sessionSteps (fun _ _ _ _ _ => trivial) ?_ trivial h
  intro s l t _ h
  have hone : ∀ {l : Running.Label} {r : Running}, Running.step s.toRunning l = some r →
      run Running.step s.toRunning [l] = some r := fun hr => by rw [run_cons, hr]; rfl
  cases l with
  | session l =>
    cases l with
    | applyLayout | markExited dead => cases h
    | chooseNext | swapReadTargets | swapPublish | watchReadTargets | watchReadMaster | watchPublish =>
      obtain ⟨r, hr, rfl⟩ := Option.map_eq_some_iff.1 h
      exact hone hr
  | arrange answers =>
    obtain ⟨r, hr, ht⟩ := Option.bind_eq_some_iff.1 h
    obtain ⟨rects, placements, -, -, rfl⟩ := arrange_eq ht
    exact hone hr
  | watch hasExited =>
    obtain ⟨r, hr, rfl⟩ := Option.map_eq_some_iff.1 h
    exact hone hr
  | outside screen scheduling =>
    cases h
    rfl

/-- What an arrangement establishes, what quiet steps keep, and what the outside
keeps under a condition, holds from an arrangement on, unless a choice waits to
be laid out. -/
theorem since_arrange {P D : Arranging → Prop} {C : Arranging → Label → Prop}
    (hD : ∀ s t, Fixed s t → D s → D t)
    (harr : ∀ s r t answers, Fixed s r → D r → C s (.arrange answers) → arrange r answers = some t → P t)
    (hquiet : ∀ s t, Fixed s t → t.session.assignment = s.session.assignment → t.screen = s.screen →
      t.scheduling = s.scheduling → P s → P t)
    (hout : ∀ s screen scheduling, C s (.outside screen scheduling) → P s →
      P { s with screen := screen, scheduling := scheduling })
    {t u : Arranging} {ls : List Label} (hd : D t) (hp : P t) (hc : AllSteps step C t ls)
    (h : run step t ls = some u) : Choosing u ∨ P u := by
  refine (run_inv_of (fun s => D s ∧ (Choosing s ∨ P s)) ?_ ⟨hd, .inr hp⟩ hc h).2
  rintro s l t ⟨hds, hi⟩ hcs hst
  refine ⟨hD s t (fixed_step hst) hds, ?_⟩
  cases effect hst with
  | chooses t hf hch => exact .inl hch
  | arranges answers r t hr ht =>
    have hf := fixed_running (s := s) hr
    exact .inr (harr s _ t answers hf (hD s _ hf hds) hcs ht)
  | outside screen scheduling => exact hi.imp id (hout s screen scheduling hcs)
  | quiet l t hf ha hs hsch hch => exact hi.imp hch (hquiet s t hf ha hs hsch)

/-- Every batch succeeds, and no window of the session appears or is moved from
outside. -/
def Undisturbed (s : Arranging) : Label → Prop
  | .arrange answers => answers.batch.Succeeds s.hwnds.length
  | .outside screen _ => ∀ hwnd ∈ s.hwnds, ∀ w, screen hwnd = some w → ∃ v, s.screen hwnd = some v ∧ v.rect = w.rect
  | _ => True

/-- The same for the policies and the processes. -/
def Unmeddled (s : Arranging) : Label → Prop
  | .arrange answers =>
    ∀ i < s.processes.length, (answers.policy i).priority = none ∧ (answers.policy i).throttling = none
  | .outside _ scheduling =>
    ∀ process, some process ∈ s.processes → ∀ sched, scheduling process = some sched →
      s.scheduling process = some sched
  | _ => True

theorem placed_since {t u : Arranging} {ls : List Label} (hd : Distinct t) (hp : Placed t)
    (hc : AllSteps step Undisturbed t ls) (h : run step t ls = some u) : Choosing u ∨ Placed u := by
  refine since_arrange (D := Distinct) ?_ ?_ ?_ ?_ hd hp hc h
  · intro s t hf hd
    rw [Distinct, hf.hwnds]
    exact hd
  · intro s r t answers hf hd hb ht
    refine arrange_placed hd ?_ ht
    rw [hf.hwnds]
    exact hb
  · rintro s t hf ha hs - ⟨rects, hr, hall⟩
    refine ⟨rects, by rw [hf.layout, hf.area, hf.hwnds]; exact hr, ?_⟩
    intro i hwnd slot w hi hslot hw
    rw [hf.hwnds] at hi
    rw [ha] at hslot
    rw [hs] at hw
    exact hall i hwnd slot w hi hslot hw
  · rintro s screen scheduling hb ⟨rects, hr, hall⟩
    refine ⟨rects, hr, ?_⟩
    intro i hwnd slot w hi hslot hw
    obtain ⟨v, hv, hrect⟩ := hb hwnd (List.mem_of_getElem? hi) w hw
    rw [← hrect]
    exact hall i hwnd slot v hi hslot hv

/-! ## What the slots mean on the screen -/

theorem contained_of_roomy {spec : LayoutSpec} {area : Rect} {n : Nat} (ha : area.Fits) (h1 : 1 ≤ n)
    (h : Roomy spec area n) : Contained spec area n := by
  unfold Roomy at h
  split at h
  · next hk => exact contained_stacked hk ha (by omega)
  · next hk => exact contained_grid hk ha h1 h
  · next hk =>
    obtain ⟨ht, hmul⟩ := h.resolve_left (by omega)
    exact contained_pip hk ha h1 ht hmul

theorem empty_pixels : ({} : Rect).pixels = ∅ := by
  simp [Rect.pixels, Rect.right, Rect.bottom]

/-- Two slots do not overlap, unless every slot is the whole area. -/
theorem slots_apart {spec : LayoutSpec} {area : Rect} {n : Nat} (hk : spec.kind ≠ .stacked) (ha : area.Fits)
    (h1 : 1 ≤ n) (h : Roomy spec area n) {rects : List Rect} (hr : computeLayout spec area n = some rects) {i j : Nat}
    (hij : i ≠ j) {r r' : Rect} (hi : rects[i]? = some r) (hj : rects[j]? = some r') : Disjoint r.pixels r'.pixels := by
  unfold Roomy at h
  split at h
  · next hs => exact absurd hs hk
  · next hg =>
    obtain ⟨rows, cols, hs, hrows, hcols, hrows', hcols', -⟩ := gridShape_spec spec h1 h
    obtain ⟨rects', hr', hlen, hcells⟩ := grid_slots hg ha h1 hs hrows' hcols hcols' h
    cases hr.symm.trans hr'
    have ht := gridTiling_of ha hrows hcols hlen hcells
    by_cases hir : i < rows * cols
    · by_cases hjr : j < rows * cols
      · exact ht.disjoint i j r r' hir hjr hij hi hj
      · rw [ht.parked j r' (Nat.not_lt.1 hjr) hj, empty_pixels]
        exact Set.disjoint_empty _
    · rw [ht.parked i r (Nat.not_lt.1 hir) hi, empty_pixels]
      exact Set.empty_disjoint _
  · next hp =>
    obtain ⟨ht, hmul⟩ := h.resolve_left (by omega)
    cases hr.symm.trans (pip_slots hp ha h1 ht hmul)
    simp only [List.getElem?_map, Option.map_eq_some_iff] at hi hj
    obtain ⟨i', hi, rfl⟩ := hi
    obtain ⟨j', hj, rfl⟩ := hj
    have hrange : ∀ {k m : Nat}, (List.range n)[k]? = some m → k < n ∧ m = k := by
      intro k m hk
      obtain ⟨hlt, he⟩ := List.getElem?_eq_some_iff.1 hk
      rw [List.getElem_range] at he
      exact ⟨by simpa using hlt, he.symm⟩
    obtain ⟨hin, rfl⟩ := hrange hi
    obtain ⟨hjn, rfl⟩ := hrange hj
    exact (pipRect_tiles ha (pipThumb_pos spec area).le ht (by omega)).disjoint hin hjn hij

/-- Where the windows of a session are. -/
structure InSlots (s : Arranging) : Prop where
  placed : Placed s
  master : ∀ hwnd w, s.hwnds[s.session.master]? = some hwnd → s.screen hwnd = some w →
    ∃ rects, computeLayout s.layout s.area s.hwnds.length = some rects ∧ rects[0]? = some w.rect
  /-- In the work area, unless there are more slots than cells. -/
  inside : s.area.Fits → Roomy s.layout s.area s.hwnds.length → ∀ hwnd ∈ s.hwnds, ∀ w, s.screen hwnd = some w →
    w.rect = {} ∨ w.rect.Within s.area
  apart : s.layout.kind ≠ .stacked → s.area.Fits → Roomy s.layout s.area s.hwnds.length →
    ∀ (i j : Nat) (hwnd hwnd' : Hwnd) (w w' : Window), i ≠ j → s.hwnds[i]? = some hwnd → s.hwnds[j]? = some hwnd' →
      s.screen hwnd = some w → s.screen hwnd' = some w' → Disjoint w.rect.pixels w'.rect.pixels

theorem hwnds_length (s : Arranging) : s.hwnds.length = s.session.instances.length := List.length_map _

theorem slot_of (s : Arranging) {i : Nat} {hwnd : Hwnd} (hi : s.hwnds[i]? = some hwnd) :
    ∃ slot, s.session.assignment.slotOf[i]? = some slot := by
  have hlt := (List.getElem?_eq_some_iff.1 hi).1
  have hsized : s.session.assignment.slotOf.length = s.session.instances.length := s.session.sized
  rw [hwnds_length, ← hsized] at hlt
  exact ⟨_, List.getElem?_eq_getElem hlt⟩

theorem inSlots_of_placed {s : Arranging} (h : Placed s) : InSlots s := by
  obtain ⟨rects, hr, hall⟩ := h
  have hpos : 1 ≤ s.hwnds.length := by rw [hwnds_length]; exact s.session.nonempty
  have hat : ∀ {i : Nat} {hwnd : Hwnd} {w : Window}, s.hwnds[i]? = some hwnd → s.screen hwnd = some w →
      ∃ slot, s.session.assignment.slotOf[i]? = some slot ∧ rects[slot]? = some w.rect := by
    intro i hwnd w hi hw
    obtain ⟨slot, hslot⟩ := s.slot_of hi
    exact ⟨slot, hslot, hall i hwnd slot w hi hslot hw⟩
  refine ⟨⟨rects, hr, hall⟩, ?_, ?_, ?_⟩
  · intro hwnd w hi hw
    have hsize : 0 < s.session.assignment.size := by rw [s.session.sized]; exact s.session.nonempty
    exact ⟨rects, hr, hall _ hwnd 0 w hi (Assignment.slotOf_master hsize) hw⟩
  · intro ha hroom hwnd hmem w hw
    obtain ⟨i, hi⟩ := List.mem_iff_getElem?.1 hmem
    obtain ⟨slot, -, hslot⟩ := hat hi hw
    obtain ⟨rects', hr', hin⟩ := contained_of_roomy ha hpos hroom
    cases hr.symm.trans hr'
    by_cases hparked : Parked s.layout s.hwnds.length slot
    · exact .inl ((hin slot w.rect hslot).1 hparked)
    · exact .inr ((hin slot w.rect hslot).2 hparked)
  · intro hk ha hroom i j hwnd hwnd' w w' hij hi hj hw hw'
    obtain ⟨slot, hs, hslot⟩ := hat hi hw
    obtain ⟨slot', hs', hslot'⟩ := hat hj hw'
    refine slots_apart hk ha hpos hroom hr (fun he => hij ?_) hslot hslot'
    subst he
    -- Slots are a permutation, so two instances never share one.
    exact (Assignment.instanceAt_of hs).symm.trans (Assignment.instanceAt_of hs')

/-- From an arrangement whose batch succeeds on, however the threads interleave,
every window of the session is where its slot is, except between a choice of the
next master and the batch that follows it. -/
theorem windows_in_slots {s t u : Arranging} {answers : ArrangeAnswers} {ls : List Label} (hd : Distinct s)
    (hb : answers.batch.Succeeds s.hwnds.length) (ha : arrange s answers = some t)
    (hc : AllSteps step Undisturbed t ls) (h : run step t ls = some u) : Choosing u ∨ InSlots u := by
  have hdt : Distinct t := by
    rw [Distinct, (fixed_arrange ha).hwnds]
    exact hd
  exact (placed_since hdt (arrange_placed hd hb ha) hc h).imp id inSlots_of_placed

/-- Three clients on a desk of 1000 by 700 pixels, side by side at first. -/
def threeWindows : Arranging where
  toRunning := Running.start Running.threeClients {}
  layout := { kind := .pip }
  area := desk
  slavePolicy := { priority := .belowNormal }
  processes := [some 10, some 20, some 30]
  saved := [{}, {}, {}]
  screen := fun hwnd => if hwnd ∈ [100, 200, 300] then some ⟨WS_CAPTION, 0, ⟨hwnd, 0, 100, 100⟩⟩ else none
  scheduling := fun process => if process ∈ [10, 20, 30] then some {} else none

/-- The user presses the hotkey, and the first and the third client close their windows. -/
def pressAndClose : List Label :=
  [.session .chooseNext, .arrange {},
    .outside (fun hwnd => if hwnd = 200 then some ⟨WS_CAPTION, 0, ⟨0, 0, 860, 700⟩⟩ else none) fun _ => none]

def arranged : Arranging := (arrange threeWindows {}).get rfl

theorem arranged_eq : arrange threeWindows {} = some arranged := rfl

theorem pressAndClose_run : ∃ u, run step arranged pressAndClose = some u := ⟨_, rfl⟩

theorem windows_in_slots_press :
    ∃ u, run step arranged pressAndClose = some u ∧ (Choosing u ∨ InSlots u) := by
  obtain ⟨u, hu⟩ := pressAndClose_run
  refine ⟨u, hu, windows_in_slots ?_ ⟨rfl, fun _ _ => rfl, rfl⟩ arranged_eq ?_ hu⟩
  · exact (by decide : [100, 200, 300].Nodup)
  · refine ⟨trivial, fun t ht => ?_⟩
    cases ht
    refine ⟨⟨rfl, fun _ _ => rfl, rfl⟩, fun t ht => ?_⟩
    cases ht
    refine ⟨fun hwnd _ w hw => ?_, fun _ _ => trivial⟩
    dsimp only at hw
    split at hw
    · next h =>
      subst h
      cases hw
      exact ⟨_, rfl, rfl⟩
    · cases hw

/-- From an arrangement whose policies could be applied on, the master's process has
the default policy and every other one the slaves', except between a choice and the
next arrangement. -/
theorem policies_in_force {s t u : Arranging} {answers : ArrangeAnswers} {ls : List Label} (hd : OwnProcesses s)
    (hp : ∀ i < s.processes.length, (answers.policy i).priority = none ∧ (answers.policy i).throttling = none)
    (ha : arrange s answers = some t) (hc : AllSteps step Unmeddled t ls) (h : run step t ls = some u) :
    Choosing u ∨ InForce u := by
  refine since_arrange (D := OwnProcesses) ?_ ?_ ?_ ?_ ?_ (arrange_inForce hd hp ha) hc h
  · intro s t hf hd
    rw [OwnProcesses, hf.processes]
    exact hd
  · intro s r t answers hf hd hb ht
    refine arrange_inForce hd ?_ ht
    rw [hf.processes]
    exact hb
  · intro s t hf ha _ hsch hi i process sched hpi hs
    have hmaster : t.session.master = s.session.master := by rw [Session.master, Session.master, ha]
    rw [hf.processes] at hpi
    rw [hsch] at hs
    rw [hmaster, hf.slavePolicy]
    exact hi i process sched hpi hs
  · intro s screen scheduling hb hi i process sched hpi hs
    exact hi i process sched hpi (hb process (List.mem_of_getElem? hpi) sched hs)
  · rw [OwnProcesses, (fixed_arrange ha).processes]
    exact hd

theorem policies_in_force_press :
    ∃ u, run step arranged pressAndClose = some u ∧ (Choosing u ∨ InForce u) := by
  obtain ⟨u, hu⟩ := pressAndClose_run
  refine ⟨u, hu, policies_in_force ?_ (fun _ _ => ⟨rfl, rfl⟩) arranged_eq ?_ hu⟩
  · exact (by decide : [10, 20, 30].Nodup)
  · refine ⟨trivial, fun t ht => ?_⟩
    cases ht
    refine ⟨fun _ _ => ⟨rfl, rfl⟩, fun t ht => ?_⟩
    cases ht
    exact ⟨fun _ _ _ h => (by cases h), fun _ _ => trivial⟩

end Arranging

end MultiMadness
