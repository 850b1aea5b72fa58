import Mathlib.Data.List.Basic
import Mathlib.Data.List.Forall2
import Mathlib.Data.Option.Basic
/-!
# Runs of a step function

A system is a partial step function: `step s l` is the state after the step
labelled `l`, or `none` when that step is not enabled in `s`. A schedule is a
list of labels, so "for every interleaving" is "for every list of labels", and
a schedule on concrete values can be evaluated.

- `run_inv`: an invariant kept by every step holds after every run.
- `run_inv_of`: the same when the steps of the run meet a condition.
- `run_spends`: a measure that counts the steps of one kind down.
- `Always` and `AllSteps` speak about all states and all steps of one run;
  `always_iff_allSteps` relates the two.
- `trace`: what the steps of a run put out, in order.
- `run_refines`: a relation between two systems' states that every step of the
  one keeps, by steps of the other, carries runs to runs.
- `run_simulates`: the same for a map of states and labels.
- `run_unwinds`: two runs of which the second lacks the steps that leave no
  trace in what the two states have in common.
- `observed`: a system with an observer beside it; `always_observed` takes the
  observer away again.
-/

namespace RunLib

variable {S L A M : Type}

/-- Take the steps `ls` from `s`; `none` when one of them is not enabled. -/
def run (step : S → L → Option S) : S → List L → Option S
  | s, [] => some s
  | s, l :: ls => (step s l).bind (run step · ls)

/-- `P` holds in every state of the run from `s` along `ls`. -/
def Always (step : S → L → Option S) (P : S → Prop) : S → List L → Prop
  | s, [] => P s
  | s, l :: ls => P s ∧ ∀ t, step s l = some t → Always step P t ls

/-- Every step of the run from `s` along `ls` meets `C`, which looks at the
state before the step and at its label. -/
def AllSteps (step : S → L → Option S) (C : S → L → Prop) : S → List L → Prop
  | _, [] => True
  | s, l :: ls => C s l ∧ ∀ t, step s l = some t → AllSteps step C t ls

instance decAllSteps (step : S → L → Option S) (C : S → L → Prop) [∀ s l, Decidable (C s l)] :
    (s : S) → (ls : List L) → Decidable (AllSteps step C s ls)
  | _, [] => isTrue trivial
  | s, l :: ls =>
    match hst : step s l with
    | none => decidable_of_iff (C s l) ⟨fun h => ⟨h, fun t ht => by rw [hst] at ht; cases ht⟩, fun h => h.1⟩
    | some t =>
      have := decAllSteps step C t ls
      decidable_of_iff (C s l ∧ AllSteps step C t ls)
        ⟨fun h => ⟨h.1, fun u hu => by rw [hst] at hu; cases hu; exact h.2⟩, fun h => ⟨h.1, h.2 t hst⟩⟩

section Rules
variable {step : S → L → Option S}

@[simp] theorem run_nil (s : S) : run step s [] = some s := rfl

theorem run_cons (s : S) (l : L) (ls : List L) : run step s (l :: ls) = (step s l).bind (run step · ls) := rfl

theorem run_cons_some {s u : S} {l : L} {ls : List L} :
    run step s (l :: ls) = some u ↔ ∃ t, step s l = some t ∧ run step t ls = some u := by
  simp [run_cons, Option.bind_eq_some_iff]

theorem run_append (s : S) (ls ms : List L) : run step s (ls ++ ms) = (run step s ls).bind (run step · ms) := by
  induction ls generalizing s with
  | nil => rfl
  | cons l ls ih =>
    simp only [List.cons_append, run_cons]
    cases step s l with
    | none => rfl
    | some t => exact ih t

theorem run_append_some {s u : S} {ls ms : List L} :
    run step s (ls ++ ms) = some u ↔ ∃ t, run step s ls = some t ∧ run step t ms = some u := by
  simp [run_append, Option.bind_eq_some_iff]

/-- Part after part, each of which goes through from `P` to `P`. -/
theorem run_parts {A : Type} (P : S → Prop) {part : A → List L} {as : List A}
    (h : ∀ a ∈ as, ∀ s, P s → ∃ t, run step s (part a) = some t ∧ P t) {s : S} (hs : P s) :
    ∃ t, run step s (as.flatMap part) = some t ∧ P t := by
  induction as generalizing s with
  | nil => exact ⟨s, rfl, hs⟩
  | cons a as ih =>
    obtain ⟨t, ht, hp⟩ := h a List.mem_cons_self s hs
    obtain ⟨u, hu, hq⟩ := ih (fun b hb => h b (List.mem_cons_of_mem _ hb)) hp
    exact ⟨u, run_append_some.2 ⟨t, ht, hu⟩, hq⟩

/-- Where the steps that meet `C` are all enabled and keep an invariant, a run of such steps goes through. -/
theorem run_goes {C : S → L → Prop} (I : S → Prop) (hs : ∀ s l, I s → C s l → ∃ t, step s l = some t ∧ I t) {s : S}
    {ls : List L} (h0 : I s) (hc : AllSteps step C s ls) : ∃ t, run step s ls = some t ∧ I t := by
  induction ls generalizing s with
  | nil => exact ⟨s, rfl, h0⟩
  | cons l ls ih =>
    obtain ⟨t, ht, hi⟩ := hs s l h0 hc.1
    obtain ⟨u, hu, hiu⟩ := ih hi (hc.2 t ht)
    exact ⟨u, run_cons_some.2 ⟨t, ht, hu⟩, hiu⟩

/-- An invariant kept by every step of a run whose steps meet `C`. -/
theorem run_inv_of {C : S → L → Prop} (I : S → Prop)
    (hs : ∀ s l t, I s → C s l → step s l = some t → I t) {s t : S} {ls : List L}
    (h0 : I s) (hc : AllSteps step C s ls) (h : run step s ls = some t) : I t := by
  induction ls generalizing s with
  | nil => cases h; exact h0
  | cons l ls ih =>
    obtain ⟨u, hu, hrun⟩ := run_cons_some.1 h
    exact ih (hs _ _ _ h0 hc.1 hu) (hc.2 u hu) hrun

theorem allSteps_true (s : S) (ls : List L) : AllSteps step (fun _ _ => True) s ls := by
  induction ls generalizing s with
  | nil => trivial
  | cons l ls ih => exact ⟨trivial, fun t _ => ih t⟩

/-- A condition on labels alone. -/
theorem allSteps_of_forall {C : L → Prop} {ls : List L} (h : ∀ l ∈ ls, C l) (s : S) :
    AllSteps step (fun _ l => C l) s ls := by
  induction ls generalizing s with
  | nil => trivial
  | cons l ls ih =>
    exact ⟨h l List.mem_cons_self, fun t _ => ih (fun m hm => h m (List.mem_cons_of_mem _ hm)) t⟩

/-- An invariant kept by every step holds after every run. -/
theorem run_inv (I : S → Prop) (hs : ∀ s l t, I s → step s l = some t → I t) {s t : S} {ls : List L}
    (h0 : I s) (h : run step s ls = some t) : I t :=
  run_inv_of I (fun s l t hi _ => hs s l t hi) h0 (allSteps_true s ls) h

/-- An invariant kept by the steps that meet `C` holds in every state of a run
of such steps. -/
theorem always_of {C : S → L → Prop} (I : S → Prop)
    (hs : ∀ s l t, I s → C s l → step s l = some t → I t) {s : S} {ls : List L}
    (h0 : I s) (hc : AllSteps step C s ls) : Always step I s ls := by
  induction ls generalizing s with
  | nil => exact h0
  | cons l ls ih => exact ⟨h0, fun t ht => ih (hs _ _ _ h0 hc.1 ht) (hc.2 t ht)⟩

theorem Always.head {P : S → Prop} {s : S} {ls : List L} (h : Always step P s ls) : P s := by
  cases ls with
  | nil => exact h
  | cons l ls => exact h.1

theorem Always.mono {P Q : S → Prop} (hpq : ∀ s, P s → Q s) {s : S} {ls : List L} (h : Always step P s ls) :
    Always step Q s ls := by
  induction ls generalizing s with
  | nil => exact hpq s h
  | cons l ls ih => exact ⟨hpq s h.1, fun t ht => ih (h.2 t ht)⟩

/-- A property of every state of a run, part by part. -/
theorem always_append {P : S → Prop} {s : S} {ls ms : List L} :
    Always step P s (ls ++ ms) ↔ Always step P s ls ∧ ∀ t, run step s ls = some t → Always step P t ms := by
  induction ls generalizing s with
  | nil =>
    constructor
    · intro h
      exact ⟨h.head, fun t ht => by cases ht; exact h⟩
    · exact fun h => h.2 s rfl
  | cons l ls ih =>
    constructor
    · rintro ⟨h0, h⟩
      refine ⟨⟨h0, fun u hu => (ih.1 (h u hu)).1⟩, ?_⟩
      intro t ht
      obtain ⟨u, hu, hrun⟩ := run_cons_some.1 ht
      exact (ih.1 (h u hu)).2 t hrun
    · rintro ⟨⟨h0, h⟩, hms⟩
      exact ⟨h0, fun u hu => ih.2 ⟨h u hu, fun t ht => hms t (run_cons_some.2 ⟨u, hu, ht⟩)⟩⟩

/-- A measure from which every step that counts takes one, and the others nothing. -/
theorem run_spends {C : S → L → Prop} (I : S → Prop) (μ : S → ℕ) (counts : L → Bool)
    (hs : ∀ s l t, I s → C s l → step s l = some t → I t ∧ μ t + (if counts l then 1 else 0) = μ s) {s t : S}
    {ls : List L} (h0 : I s) (hc : AllSteps step C s ls) (h : run step s ls = some t) :
    I t ∧ μ t + ls.countP counts = μ s := by
  induction ls generalizing s with
  | nil => cases h; exact ⟨h0, rfl⟩
  | cons l ls ih =>
    obtain ⟨u, hu, hrun⟩ := run_cons_some.1 h
    obtain ⟨hi, hone⟩ := hs _ _ _ h0 hc.1 hu
    obtain ⟨hit, hrest⟩ := ih hi (hc.2 u hu) hrun
    refine ⟨hit, ?_⟩
    rw [List.countP_cons]
    omega

/-- Where the steps that meet `C` keep an invariant that gives `P`, and a step
that keeps `P` meets `C`, `P` holds in every state of a run exactly when every
step of the run meets `C`. -/
theorem always_iff_allSteps {P : S → Prop} {C : S → L → Prop} (I : S → Prop) (hip : ∀ s, I s → P s)
    (hgood : ∀ s l t, I s → C s l → step s l = some t → I t)
    (hbad : ∀ s l t, I s → step s l = some t → P t → C s l) (hd : ∀ s l, step s l = none → C s l)
    {s : S} {ls : List L} (h0 : I s) : Always step P s ls ↔ AllSteps step C s ls := by
  constructor
  · intro h
    induction ls generalizing s with
    | nil => trivial
    | cons l ls ih =>
      cases hst : step s l with
      | none => exact ⟨hd s l hst, fun t ht => by rw [hst] at ht; cases ht⟩
      | some t =>
        have hc : C s l := hbad s l t h0 hst (h.2 t hst).head
        refine ⟨hc, ?_⟩
        intro u hu
        exact ih (hgood s l u h0 hc hu) (h.2 u hu)
  · exact fun h => (always_of I hgood h0 h).mono hip

/-- Where a step keeps `P` exactly when it meets `C`, and never restores it,
`P` holds after a run exactly when it did before and every step met `C`. -/
theorem run_iff_allSteps {P : S → Prop} {C : S → L → Prop} (I : S → Prop)
    (hI : ∀ s l t, I s → step s l = some t → I t)
    (hs : ∀ s l t, I s → step s l = some t → (P t ↔ P s ∧ C s l)) {s t : S} {ls : List L}
    (h0 : I s) (h : run step s ls = some t) : P t ↔ P s ∧ AllSteps step C s ls := by
  induction ls generalizing s with
  | nil => cases h; exact ⟨fun hp => ⟨hp, trivial⟩, fun hp => hp.1⟩
  | cons l ls ih =>
    obtain ⟨u, hu, hrun⟩ := run_cons_some.1 h
    rw [ih (hI _ _ _ h0 hu) hrun, hs _ _ _ h0 hu, and_assoc]
    have hrest : AllSteps step C u ls ↔ ∀ v, step s l = some v → AllSteps step C v ls :=
      ⟨fun ha v hv => by rw [hu] at hv; cases hv; exact ha, fun ha => ha u hu⟩
    rw [hrest]
    rfl

end Rules

/-! ## Two systems -/

variable {O : Type}

/-- What the steps of the run from `s` along `ls` put out, in order. -/
def trace (step : S → L → Option S) (out : S → L → List O) : S → List L → List O
  | _, [] => []
  | s, l :: ls => out s l ++ ((step s l).map (trace step out · ls)).getD []

section Simulation
variable {step : S → L → Option S} {astep : A → M → Option A}

theorem trace_cons {out : S → L → List O} {s t : S} {l : L} (h : step s l = some t) (ls : List L) :
    trace step out s (l :: ls) = out s l ++ trace step out t ls := by
  simp [trace, h]

/-- What depends on the labels alone. -/
theorem trace_labels {f : L → List O} {s t : S} {ls : List L} (h : run step s ls = some t) :
    trace step (fun _ => f) s ls = ls.flatMap f := by
  induction ls generalizing s with
  | nil => rfl
  | cons l ls ih =>
    obtain ⟨u, hu, hrun⟩ := run_cons_some.1 h
    rw [trace_cons hu, ih hrun, List.flatMap_cons]

/-- A simulation of the steps that meet `C`: each is matched by the abstract
steps `lab s l`, possibly none. What the abstract state has recorded grows by
what the concrete step puts out. -/
theorem run_refines {C : S → L → Prop} {R : S → A → Prop} (lab : S → L → List M) (out : S → L → List O)
    (seen : A → List O)
    (hstep : ∀ s a l t, R s a → C s l → step s l = some t →
      ∃ b, run astep a (lab s l) = some b ∧ R t b ∧ seen b = seen a ++ out s l)
    {s t : S} {a : A} {ls : List L} (h0 : R s a) (hc : AllSteps step C s ls) (h : run step s ls = some t) :
    ∃ b, run astep a (trace step lab s ls) = some b ∧ R t b ∧ seen b = seen a ++ trace step out s ls := by
  induction ls generalizing s a with
  | nil => cases h; exact ⟨a, rfl, h0, (List.append_nil _).symm⟩
  | cons l ls ih =>
    obtain ⟨u, hu, hrun⟩ := run_cons_some.1 h
    obtain ⟨b, hb, hR, hs⟩ := hstep s a l u h0 hc.1 hu
    obtain ⟨c, hc', hR', hs'⟩ := ih hR (hc.2 u hu) hrun
    rw [trace_cons hu, trace_cons hu]
    refine ⟨c, run_append_some.2 ⟨b, hb, hc'⟩, hR', ?_⟩
    rw [hs', hs, List.append_assoc]

/-- A simulation: every concrete step is matched by the abstract steps
`lab s l`, possibly none, between the states' images. -/
theorem run_simulates (I : S → Prop) (abs : S → A)
    (lab : S → L → List M) (hI : ∀ s l t, I s → step s l = some t → I t)
    (hstep : ∀ s l t, I s → step s l = some t → run astep (abs s) (lab s l) = some (abs t))
    {s t : S} {ls : List L} (h0 : I s) (h : run step s ls = some t) :
    ∃ ms, run astep (abs s) ms = some (abs t) := by
  have hr : ∀ s a l t, (I s ∧ a = abs s) → True → step s l = some t →
      ∃ b, run astep a (lab s l) = some b ∧ (I t ∧ b = abs t) ∧ ([] : List Unit) = [] ++ [] := by
    rintro s _ l t ⟨hi, rfl⟩ - ht
    exact ⟨_, hstep s l t hi ht, ⟨hI s l t hi ht, rfl⟩, rfl⟩
  obtain ⟨_, hb, ⟨-, rfl⟩, -⟩ := run_refines lab (fun _ _ => []) (fun _ => []) hr ⟨h0, rfl⟩ (allSteps_true s ls) h
  exact ⟨_, hb⟩

/-- Two runs, the second without the steps that are not kept and with others
like them in place of the kept ones. A step that is not kept must be invisible
to the second state; a kept one must be matched. -/
theorem run_unwinds {keep : L → Bool} {Like : L → M → Prop} {R : S → A → Prop}
    (hskip : ∀ s a l t, R s a → keep l = false → step s l = some t → R t a)
    (hkeep : ∀ s a l m t, R s a → Like l m → step s l = some t → ∃ b, astep a m = some b ∧ R t b)
    {s t : S} {a : A} {ls : List L} {ms : List M} (h0 : R s a) (hl : List.Forall₂ Like (ls.filter keep) ms)
    (h : run step s ls = some t) : ∃ b, run astep a ms = some b ∧ R t b := by
  induction ls generalizing s a ms with
  | nil =>
    cases h
    rw [List.filter_nil, List.forall₂_nil_left_iff] at hl
    exact ⟨a, by rw [hl]; rfl, h0⟩
  | cons l ls ih =>
    obtain ⟨u, hu, hrun⟩ := run_cons_some.1 h
    cases hk : keep l with
    | false =>
      rw [List.filter_cons_of_neg (Bool.eq_false_iff.1 hk)] at hl
      exact ih (hskip s a l u h0 hk hu) hl hrun
    | true =>
      rw [List.filter_cons_of_pos hk, List.forall₂_cons_left_iff] at hl
      obtain ⟨m, ms, hm, hms, rfl⟩ := hl
      obtain ⟨b, hb, hR⟩ := hkeep s a l m u h0 hm hu
      obtain ⟨c, hc, hR'⟩ := ih hR hms hrun
      exact ⟨c, run_cons_some.2 ⟨b, hb, hc⟩, hR'⟩

end Simulation

section Observer
variable {step : S → L → Option S} {note : S → L → O → O}

/-- The system with an observer beside it, who notes every step and disturbs none. -/
def observed (step : S → L → Option S) (note : S → L → O → O) (p : S × O) (l : L) : Option (S × O) :=
  (step p.1 l).map fun t => (t, note p.1 l p.2)

theorem observed_some {p q : S × O} {l : L} :
    observed step note p l = some q ↔ ∃ t, step p.1 l = some t ∧ (t, note p.1 l p.2) = q :=
  Option.map_eq_some_iff

/-- What holds in every state of a run does not depend on the observer. -/
theorem always_observed {P : S → Prop} {s : S} {o : O} {ls : List L} :
    Always (observed step note) (fun p => P p.1) (s, o) ls ↔ Always step P s ls := by
  induction ls generalizing s o with
  | nil => exact Iff.rfl
  | cons l ls ih =>
    constructor
    · rintro ⟨h0, h⟩
      exact ⟨h0, fun t ht => ih.1 (h _ (observed_some.2 ⟨t, ht, rfl⟩))⟩
    · rintro ⟨h0, h⟩
      refine ⟨h0, fun q hq => ?_⟩
      obtain ⟨t, ht, rfl⟩ := observed_some.1 hq
      exact ih.2 (h t ht)

end Observer

end RunLib
