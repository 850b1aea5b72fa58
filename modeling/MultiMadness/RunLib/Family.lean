import Mathlib.Logic.Function.Basic
import MultiMadness.RunLib.Runs
/-!
# A family of systems

Systems of one kind side by side. A step has the index of the system that takes
it and leaves the others alone.

- `run_family`: a run of the family is a run of every member.
-/

namespace RunLib

variable {ι S L : Type} [DecidableEq ι]

def familyStep (step : S → L → Option S) (f : ι → S) (l : ι × L) : Option (ι → S) :=
  (step (f l.1) l.2).map (Function.update f l.1)

/-- The steps of one member. -/
def stepsOf (i : ι) (ls : List (ι × L)) : List L := ls.filterMap fun l => if l.1 = i then some l.2 else none

section Family
variable {step : S → L → Option S}

@[simp] theorem stepsOf_nil (i : ι) : stepsOf i ([] : List (ι × L)) = [] := rfl

theorem stepsOf_cons (i : ι) (l : ι × L) (ls : List (ι × L)) :
    stepsOf i (l :: ls) = (if l.1 = i then [l.2] else []) ++ stepsOf i ls := by
  by_cases h : l.1 = i <;> simp [stepsOf, h]

theorem stepsOf_append (i : ι) (ls ms : List (ι × L)) : stepsOf i (ls ++ ms) = stepsOf i ls ++ stepsOf i ms :=
  List.filterMap_append

/-- Steps of one member are its own, and no other's. -/
theorem stepsOf_map (i j : ι) (ls : List L) : stepsOf i (ls.map (j, ·)) = if j = i then ls else [] := by
  induction ls with
  | nil => simp
  | cons l ls ih =>
    rw [List.map_cons, stepsOf_cons, ih]
    by_cases h : j = i <;> simp [h]

/-- The steps of one member in a list of parts, each of which is some member's. -/
theorem stepsOf_flatMap {A : Type} (i : ι) (key : A → ι) (part : A → List L) (as : List A) :
    stepsOf i (as.flatMap fun a => (part a).map (key a, ·)) = (as.filter fun a => key a = i).flatMap part := by
  induction as with
  | nil => rfl
  | cons a as ih =>
    rw [List.flatMap_cons, stepsOf_append, stepsOf_map, ih, List.filter_cons]
    by_cases h : key a = i <;> simp [h]

/-- In numbered parts, the steps of a member are the part of its number. -/
theorem stepsOf_zipIdx {A : Type} (i : ℕ) (part : A → List L) (as : List A) :
    stepsOf i (as.zipIdx.flatMap fun a => (part a.1).map (a.2, ·)) = (as[i]?.map part).getD [] := by
  -- From any number on.
  have hfrom : ∀ (as : List A) (k : ℕ), stepsOf i ((as.zipIdx k).flatMap fun a => (part a.1).map (a.2, ·)) =
      if k ≤ i then (as[i - k]?.map part).getD [] else [] := by
    intro as
    induction as with
    | nil => intro k; simp
    | cons a as ih =>
      intro k
      rw [List.zipIdx_cons, List.flatMap_cons, stepsOf_append, stepsOf_map, ih]
      rcases Nat.lt_trichotomy k i with hlt | rfl | hgt
      · have hsub : i - k = i - (k + 1) + 1 := by omega
        rw [if_neg (Nat.ne_of_lt hlt), if_pos (Nat.succ_le_of_lt hlt), if_pos (Nat.le_of_lt hlt), hsub]
        rfl
      · simp
      · rw [if_neg (Nat.ne_of_lt hgt).symm, if_neg (by omega), if_neg (Nat.not_le.2 hgt)]
        rfl
  simpa using hfrom as 0

/-- One step, seen from any member. -/
theorem step_family {f g : ι → S} {l : ι × L} (h : familyStep step f l = some g) (i : ι) :
    run step (f i) (if l.1 = i then [l.2] else []) = some (g i) := by
  obtain ⟨s, hs, rfl⟩ := Option.map_eq_some_iff.1 h
  by_cases hi : l.1 = i
  · subst hi
    rw [if_pos rfl, Function.update_self]
    exact run_cons_some.2 ⟨s, hs, rfl⟩
  · rw [if_neg hi, Function.update_of_ne (Ne.symm hi)]
    rfl

/-- A run of the family is a run of every member. -/
theorem run_family {f g : ι → S} {ls : List (ι × L)} :
    run (familyStep step) f ls = some g ↔ ∀ i, run step (f i) (stepsOf i ls) = some (g i) := by
  induction ls generalizing f with
  | nil =>
    rw [run_nil, Option.some.injEq]
    exact ⟨fun h i => by rw [h]; rfl, fun h => funext fun i => Option.some.inj (h i)⟩
  | cons l ls ih =>
    constructor
    · intro h i
      obtain ⟨f', hf, hrun⟩ := run_cons_some.1 h
      rw [stepsOf_cons]
      exact run_append_some.2 ⟨f' i, step_family hf i, ih.1 hrun i⟩
    · intro h
      -- The member whose step it is takes it first.
      have hown := h l.1
      rw [stepsOf_cons, if_pos rfl, List.singleton_append] at hown
      obtain ⟨s, hs, -⟩ := run_cons_some.1 hown
      have hstep : familyStep step f l = some (Function.update f l.1 s) := by rw [familyStep, hs]; rfl
      refine run_cons_some.2 ⟨_, hstep, ih.2 fun i => ?_⟩
      have hi := h i
      rw [stepsOf_cons, run_append, step_family hstep i] at hi
      exact hi

end Family

end RunLib
