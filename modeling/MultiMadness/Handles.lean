import Mathlib.Data.Finset.Basic
import MultiMadness.RunLib.Runs
/-!
# Owned handles

`UniqueHandle` of `win_common.hpp` closes the handle it has when it goes or gets
another one, and moving takes the handle along. `ι` are the program's variables of
this type. The system keeps the handles that are open; closing another one is no
step.

- `Sound`: every open handle has exactly one holder, a variable or the program.
- `handles_owned`: no run closes a handle twice, and none is lost.
-/

namespace MultiMadness

open RunLib

abbrev Handle := UInt64

def kInvalidHandle : Handle := 0xFFFFFFFFFFFFFFFF

def valid (h : Handle) : Bool := h ≠ 0 && h ≠ kInvalidHandle

@[simp] theorem valid_zero : valid 0 = false := rfl

variable {ι : Type} [DecidableEq ι]

structure Handles (ι : Type) where
  /-- `h_` of the variables that exist. -/
  var : ι → Option Handle := fun _ => none
  opened : Finset Handle := ∅
  /-- What the program has in hand, outside of any variable. -/
  loose : Finset Handle := ∅

namespace Handles

/-- The handle goes into the variable, whatever that had. -/
def put (s : Handles ι) (x : ι) (h : Handle) : Handles ι :=
  { s with var := Function.update s.var x (some h), loose := s.loose.erase h }

/-- `CloseHandle`. -/
def closeHandle (s : Handles ι) (h : Handle) : Option (Handles ι) :=
  if h ∈ s.opened then some { s with opened := s.opened.erase h } else none

def release (s : Handles ι) (x : ι) : Option (Handle × Handles ι) :=
  (s.var x).map fun h =>
    (h, { s with var := Function.update s.var x (some 0), loose := if valid h then insert h s.loose else s.loose })

def reset (s : Handles ι) (x : ι) (h : Handle) : Option (Handles ι) := do
  let old ← s.var x
  let s ← if valid old then s.closeHandle old else some s
  return s.put x h

inductive Op (ι : Type) where
  /-- The system gives out a handle. -/
  | opens (h : Handle)
  /-- The constructors of a handle and of none; the latter takes `nullptr`. -/
  | construct (x : ι) (h : Handle)
  | moveConstruct (x y : ι)
  | moveAssign (x y : ι)
  | release (x : ι)
  | reset (x : ι) (h : Handle)
  | destroy (x : ι)

def step (s : Handles ι) : Op ι → Option (Handles ι)
  | .opens h => some { s with opened := insert h s.opened, loose := insert h s.loose }
  | .construct x h => some (s.put x h)
  | .moveConstruct x y => (s.release y).map fun r => r.2.put x r.1
  | .moveAssign x y =>
    if x = y then some s
    else do
      let s ← s.reset x 0
      let r ← s.release y
      return r.2.put x r.1
  | .release x => (s.release x).map (·.2)
  | .reset x h => s.reset x h
  | .destroy x => (s.reset x 0).map fun s => { s with var := Function.update s.var x none }

/-- What the language and the system see to, and that a handle is given to a
variable only out of the program's hands. -/
def Lawful (s : Handles ι) : Op ι → Prop
  | .opens h => valid h = true ∧ h ∉ s.opened
  | .construct x h => s.var x = none ∧ (valid h = true → h ∈ s.loose)
  | .moveConstruct x y => s.var x = none ∧ s.var y ≠ none
  | .moveAssign x y => s.var x ≠ none ∧ s.var y ≠ none
  | .release x | .destroy x => s.var x ≠ none
  | .reset x h => s.var x ≠ none ∧ (valid h = true → h ∈ s.loose)

instance (s : Handles ι) : (op : Op ι) → Decidable (Lawful s op)
  | .opens h => inferInstanceAs (Decidable (valid h = true ∧ h ∉ s.opened))
  | .construct x h => inferInstanceAs (Decidable (s.var x = none ∧ (valid h = true → h ∈ s.loose)))
  | .moveConstruct x y => inferInstanceAs (Decidable (s.var x = none ∧ s.var y ≠ none))
  | .moveAssign x y => inferInstanceAs (Decidable (s.var x ≠ none ∧ s.var y ≠ none))
  | .release x | .destroy x => inferInstanceAs (Decidable (s.var x ≠ none))
  | .reset x h => inferInstanceAs (Decidable (s.var x ≠ none ∧ (valid h = true → h ∈ s.loose)))

/-- Every open handle has one holder. -/
structure Sound (s : Handles ι) : Prop where
  alone : ∀ x y h, valid h = true → s.var x = some h → s.var y = some h → x = y
  owned : ∀ x h, valid h = true → s.var x = some h → h ∈ s.opened ∧ h ∉ s.loose
  loose : ∀ h ∈ s.loose, h ∈ s.opened
  held : ∀ h ∈ s.opened, valid h = true ∧ (h ∈ s.loose ∨ ∃ x, s.var x = some h)

section Steps
variable {s : Handles ι} {x : ι} {h : Handle}

/-- Into a variable without a handle, out of the program's hands. -/
theorem Sound.put (hs : Sound s) (hx : ∀ old, s.var x = some old → valid old = false)
    (hh : valid h = true → h ∈ s.loose) : Sound (s.put x h) := by
  obtain ⟨halone, howned, hloose, hheld⟩ := hs
  refine ⟨?_, ?_, ?_, ?_⟩ <;> simp only [Handles.put, Function.update_apply, Finset.mem_erase] <;> grind

/-- Out of a variable, into the program's hands. -/
theorem Sound.release (hs : Sound s) (hx : s.var x = some h) :
    ∃ t, s.release x = some (h, t) ∧ Sound t ∧ t.var = Function.update s.var x (some 0) ∧
      (valid h = true → h ∈ t.loose) := by
  obtain ⟨halone, howned, hloose, hheld⟩ := hs
  refine ⟨_, by rw [Handles.release, hx]; rfl, ⟨?_, ?_, ?_, ?_⟩, rfl, ?_⟩ <;>
    simp only [Function.update_apply] <;> grind [valid]

/-- The variable's handle is closed, and the other one is in its place. -/
theorem Sound.reset (hs : Sound s) (hx : s.var x ≠ none) (hh : valid h = true → h ∈ s.loose) :
    ∃ t, s.reset x h = some t ∧ Sound t ∧ t.var = Function.update s.var x (some h) ∧ t.loose = s.loose.erase h := by
  obtain ⟨old, hold⟩ := Option.ne_none_iff_exists'.1 hx
  obtain ⟨halone, howned, hloose, hheld⟩ := hs
  cases hv : valid old with
  | false =>
    refine ⟨s.put x h, by simp [Handles.reset, hold, hv], ?_, rfl, rfl⟩
    exact Sound.put ⟨halone, howned, hloose, hheld⟩ (fun o ho => by cases hold.symm.trans ho; exact hv) hh
  | true =>
    have hopen := (howned x old hv hold).1
    refine ⟨_, by simp [Handles.reset, hold, hv, closeHandle, hopen]; rfl, ⟨?_, ?_, ?_, ?_⟩, rfl, rfl⟩ <;>
      simp only [Handles.put, Function.update_apply, Finset.mem_erase] <;> grind

end Steps

theorem sound_step {s : Handles ι} {op : Op ι} (hs : Sound s) (hl : Lawful s op) : ∃ t, step s op = some t ∧ Sound t := by
  cases op with
  | opens h =>
    obtain ⟨hv, hnew⟩ := hl
    obtain ⟨halone, howned, hloose, hheld⟩ := hs
    refine ⟨_, rfl, ⟨halone, ?_, ?_, ?_⟩⟩ <;> simp only [Finset.mem_insert] <;> grind
  | construct x h => exact ⟨_, rfl, hs.put (fun old ho => by cases hl.1.symm.trans ho) hl.2⟩
  | moveConstruct x y =>
    obtain ⟨h, hy⟩ := Option.ne_none_iff_exists'.1 hl.2
    obtain ⟨t, ht, hsound, hvar, hloose⟩ := hs.release hy
    have hxy : x ≠ y := by
      rintro rfl
      exact hl.2 hl.1
    refine ⟨_, by rw [step, ht]; rfl, hsound.put (fun old ho => ?_) hloose⟩
    rw [hvar, Function.update_of_ne hxy, hl.1] at ho
    cases ho
  | moveAssign x y =>
    by_cases hxy : x = y
    · exact ⟨s, if_pos hxy, hs⟩
    · obtain ⟨t, ht, hsound, hvar, -⟩ := hs.reset (h := 0) hl.1 (by simp)
      obtain ⟨h, hy⟩ := Option.ne_none_iff_exists'.1 hl.2
      have hty : t.var y = some h := by rw [hvar, Function.update_of_ne (Ne.symm hxy), hy]
      obtain ⟨u, hu, hsound', hvar', hloose⟩ := hsound.release hty
      refine ⟨u.put x h, by rw [step, if_neg hxy, ht]; simp [hu], hsound'.put (fun old ho => ?_) hloose⟩
      rw [hvar', Function.update_of_ne hxy, hvar, Function.update_self] at ho
      cases ho
      rfl
  | release x =>
    obtain ⟨h, hx⟩ := Option.ne_none_iff_exists'.1 hl
    obtain ⟨t, ht, hsound, -, -⟩ := hs.release hx
    exact ⟨t, by rw [step, ht]; rfl, hsound⟩
  | reset x h =>
    obtain ⟨t, ht, hsound, -, -⟩ := hs.reset hl.1 hl.2
    exact ⟨t, ht, hsound⟩
  | destroy x =>
    obtain ⟨t, ht, hsound, hvar, -⟩ := hs.reset (h := 0) hl (by simp)
    refine ⟨_, by rw [step, ht]; rfl, ?_⟩
    obtain ⟨halone, howned, hloose, hheld⟩ := hsound
    have hx : t.var x = some 0 := by rw [hvar, Function.update_self]
    refine ⟨?_, ?_, hloose, ?_⟩ <;> simp only [Function.update_apply] <;> grind [valid_zero]

/-- Whatever the variables are and in whichever order they are used, every close is
of an open handle, and once the variables have gone only what the program has taken
out of them is open. -/
theorem handles_owned (ops : List (Op ι)) (hl : AllSteps step Lawful ({} : Handles ι) ops) :
    ∃ s, run step {} ops = some s ∧ Sound s ∧ ((∀ x, s.var x = none) → s.opened = s.loose) := by
  have h0 : Sound ({} : Handles ι) := ⟨nofun, nofun, nofun, nofun⟩
  obtain ⟨s, hrun, hsound⟩ := run_goes Sound (fun _ _ => sound_step) h0 hl
  refine ⟨s, hrun, hsound, fun hgone => Finset.ext fun h => ⟨fun ho => ?_, hsound.loose h⟩⟩
  obtain hloose | ⟨x, hx⟩ := (hsound.held h ho).2
  · exact hloose
  · rw [hgone x] at hx
    cases hx

/-- The process, the thread and the job of a client, as `launch` and `cmd_run` pass
them on: into a `Launched`, out of it into an instance and with that into a vector. -/
def launching : List (Op String) :=
  [.construct "out.process" 0, .construct "out.job" 0, .opens 4, .opens 8, .reset "out.process" 4,
    .construct "thread" 8, .opens 12, .reset "out.job" 12, .moveConstruct "l.process" "out.process",
    .moveConstruct "l.job" "out.job", .destroy "thread", .destroy "out.job", .destroy "out.process",
    .construct "inst.process" 0, .construct "inst.job" 0, .moveAssign "inst.process" "l.process",
    .moveAssign "inst.job" "l.job", .moveConstruct "instances.process" "inst.process",
    .moveConstruct "instances.job" "inst.job", .destroy "inst.job", .destroy "inst.process", .destroy "l.job",
    .destroy "l.process"]

/-- Until the session goes, the client's two handles are open. -/
theorem handles_owned_launching : ∃ s, run step {} launching = some s ∧ Sound s ∧
    ((∀ x, s.var x = none) → s.opened = s.loose) :=
  handles_owned launching (by decide)

end Handles

end MultiMadness
