import Mathlib.Logic.Function.Basic
import MultiMadness.RunLib.Runs
/-!
# An auto-reset event

A consumer looks whether any of several things is up, and waits on one event
when none is. A producer raises its thing first and signals afterwards; being
woken up takes the signal away. The consumer looks at one thing after the other,
so one it has passed may come up before it waits.

- `covered_run`: what comes up behind the consumer's back is signalled, or its
  producer is about to signal, after every run.
-/

namespace WakeLib

open RunLib

variable {ι : Type}

@[ext] structure Waiter (ι : Type) where
  /-- There is something to do. -/
  up : ι → Bool
  /-- Raised, and not signalled yet. -/
  owed : ι → Bool
  /-- Found down since the consumer was last woken up. -/
  passed : ι → Bool
  signaled : Bool

namespace Waiter

inductive Move (ι : Type) where
  | raise (i : ι)
  | signal (i : ι)
  | lower (i : ι)
  | pass (i : ι)
  | wake
  | timeout

/-- What the consumer has passed is signalled or will be. -/
def Covered (w : Waiter ι) : Prop := ∀ i, w.passed i = true → w.up i = true → w.signaled = true ∨ w.owed i = true

section Steps
variable [DecidableEq ι]

/-- A thing that is up is taken down by the consumer, before it passes it. -/
def step (w : Waiter ι) : Move ι → Option (Waiter ι)
  | .raise i =>
    if w.owed i then none
    else some { w with up := Function.update w.up i true, owed := Function.update w.owed i true }
  | .signal i => if w.owed i then some { w with owed := Function.update w.owed i false, signaled := true } else none
  | .lower i => if w.passed i then none else some { w with up := Function.update w.up i false }
  | .pass i => if w.up i then none else some { w with passed := Function.update w.passed i true }
  | .wake => if w.signaled then some { w with passed := fun _ => false, signaled := false } else none
  | .timeout => if w.signaled then none else some { w with passed := fun _ => false }

theorem covered_step {w v : Waiter ι} {m : Move ι} (hw : w.Covered) (h : w.step m = some v) : v.Covered := by
  intro j hp hu
  cases m with
  | raise i =>
    simp only [step] at h
    split at h
    · cases h
    · cases h
      by_cases hj : j = i
      · subst hj
        exact .inr (Function.update_self ..)
      · dsimp only at hp hu ⊢
        rw [Function.update_of_ne hj] at hu ⊢
        exact hw j hp hu
  | signal i =>
    simp only [step] at h
    split at h
    · cases h; exact .inl rfl
    · cases h
  | lower i =>
    simp only [step] at h
    split at h
    · cases h
    · cases h
      by_cases hj : j = i
      · subst hj
        simp at hu
      · dsimp only at hp hu ⊢
        rw [Function.update_of_ne hj] at hu
        exact hw j hp hu
  | pass i =>
    simp only [step] at h
    split at h
    · cases h
    · next hdown =>
      cases h
      by_cases hj : j = i
      · subst hj
        exact absurd hu hdown
      · dsimp only at hp hu ⊢
        rw [Function.update_of_ne hj] at hp
        exact hw j hp hu
  | wake =>
    simp only [step] at h
    split at h
    · cases h; cases hp
    · cases h
  | timeout =>
    simp only [step] at h
    split at h
    · cases h
    · cases h; cases hp

/-- No wake-up is lost, however the moves interleave. -/
theorem covered_run {w v : Waiter ι} {ms : List (Move ι)} (hw : w.Covered) (h : run step w ms = some v) : v.Covered :=
  run_inv Covered (fun _ _ _ => covered_step) hw h

end Steps

end Waiter

end WakeLib
