import MultiMadness.CycleLib.Scan
import MultiMadness.Session
/-!
# The rotation of the master

The section of `on_swap` under the session's mutex: the master passes to the
next live instance in instance order, while the assignment it is read from is a
permutation of slots.

- `pressed`: what one press does.
- `round`: as many presses as there are live instances make each of them the
  master once.
- `rotation_fair`: both, and the way back.
-/

namespace MultiMadness

open CycleLib

/-- Instances the list has no record of count as exited. -/
def exitedIn (instances : List Instance) (i : Nat) : Bool := ((instances[i]?).map (·.exited)).getD true

/-- The next live instance after the current master, the master itself when
there is none. -/
def nextMaster (instances : List Instance) (a : Assignment) : Nat :=
  let n := instances.length
  (((List.range' 1 n).map fun i => (a.master + i) % n).find? fun c => !exitedIn instances c).getD a.master

def onSwap (instances : List Instance) (a : Assignment) : Assignment := a.setMaster (nextMaster instances a)

/-- The number of instances that have not exited. -/
def liveCount (instances : List Instance) : Nat := instances.countP fun inst => !inst.exited

/-- One press of the hotkey. -/
structure Pressed (instances : List Instance) (a : Assignment) : Prop where
  next : (∃ i < instances.length, exitedIn instances i = false) →
    ∃ d, IsLeast {d | 0 < d ∧ exitedIn instances ((a.master + d) % instances.length) = false} d ∧
      (onSwap instances a).master = (a.master + d) % instances.length
  alone : (∀ i < instances.length, exitedIn instances i = false ↔ i = a.master) → (onSwap instances a).master = a.master
  allExited : (∀ i < instances.length, exitedIn instances i = true) → (onSwap instances a).master = a.master
  perm : (onSwap instances a).slotOf.Perm (List.range instances.length)
  slots : ∀ i : Nat, i ≠ a.master → i ≠ (onSwap instances a).master → (onSwap instances a).slotOf[i]? = a.slotOf[i]?

/-- As many presses as there are live instances. -/
structure Round (instances : List Instance) (a : Assignment) : Prop where
  once : ∀ i < instances.length, exitedIn instances i = false →
    ∃! j, j < liveCount instances ∧ ((onSwap instances)^[j + 1] a).master = i
  live : ∀ j, exitedIn instances ((onSwap instances)^[j] a).master = false
  returns : ((onSwap instances)^[liveCount instances] a).master = a.master

/-- The callback of a running session makes this choice. -/
theorem chooseNext_eq (s : Session) :
    (s.setMaster s.chooseNext).assignment = onSwap s.instances s.assignment := rfl

section Rotation
variable {instances : List Instance} {a : Assignment}

@[simp] theorem size_onSwap (instances : List Instance) (a : Assignment) : (onSwap instances a).size = a.size :=
  Assignment.size_setMaster a _

theorem nextMaster_eq (instances : List Instance) (a : Assignment) :
    nextMaster instances a = scan instances.length (fun i => !exitedIn instances i) a.master := rfl

theorem master_lt_length (hn : 0 < instances.length) (ha : a.size = instances.length) : a.master < instances.length := by
  rw [← ha] at hn ⊢
  exact Assignment.master_lt hn

/-- The new master is where the scan stops. -/
theorem master_onSwap (hn : 0 < instances.length) (ha : a.size = instances.length) :
    (onSwap instances a).master = scan instances.length (fun i => !exitedIn instances i) a.master := by
  rw [onSwap, Assignment.master_setMaster, nextMaster_eq]
  rw [ha, nextMaster_eq]
  exact scan_lt (master_lt_length hn ha)

theorem pressed (hn : 0 < instances.length) (ha : a.size = instances.length) : Pressed instances a := by
  have hm := master_lt_length hn ha
  have hmaster := master_onSwap hn ha
  refine ⟨?_, ?_, ?_, ?_, ?_⟩
  · rintro ⟨i, hi, hl⟩
    have hex : ∃ i < instances.length, (!exitedIn instances i) = true := ⟨i, hi, by simp [hl]⟩
    obtain ⟨d, hleast, -, hscan⟩ := scan_spec hm hex
    refine ⟨d, ?_, hmaster.trans hscan⟩
    simpa only [LiveAt, Bool.not_eq_true'] using hleast
  · intro halone
    rw [hmaster]
    exact scan_alone hm fun i hi => by rw [Bool.not_eq_true', halone i hi]
  · intro hall
    rw [hmaster]
    exact scan_none hn fun i hi => by rw [hall i hi]; rfl
  · have hp := (onSwap instances a).perm
    rwa [show (onSwap instances a).slotOf.length = instances.length from (size_onSwap instances a).trans ha] at hp
  · intro i hi hnew
    apply Assignment.slotOf_setMaster hi
    rw [hmaster] at hnew
    exact hnew

/-! ## A round -/

/-- Presses follow the scans. -/
theorem master_iterate (hn : 0 < instances.length) (ha : a.size = instances.length) (j : Nat) :
    ((onSwap instances)^[j] a).size = instances.length ∧
      ((onSwap instances)^[j] a).master =
        (scan instances.length fun i => !exitedIn instances i)^[j] a.master := by
  induction j with
  | zero => exact ⟨ha, rfl⟩
  | succ j ih =>
    obtain ⟨hsize, hmaster⟩ := ih
    rw [Function.iterate_succ_apply', Function.iterate_succ_apply', ← hmaster]
    exact ⟨(size_onSwap instances _).trans hsize, master_onSwap hn hsize⟩

theorem liveCount_eq (instances : List Instance) :
    liveCount instances = Nat.count (fun i => (!exitedIn instances i) = true) instances.length := by
  induction instances using List.reverseRecOn with
  | nil => rfl
  | append_singleton l inst ih =>
    have hsame : Nat.count (fun i => (!exitedIn (l ++ [inst]) i) = true) l.length =
        Nat.count (fun i => (!exitedIn l i) = true) l.length := by
      refine count_congr fun i hi => ?_
      rw [exitedIn, exitedIn, List.getElem?_append_left hi]
    rw [List.length_append, List.length_singleton, Nat.count_succ, hsame, ← ih, liveCount, List.countP_append]
    simp [exitedIn, liveCount, List.countP_cons]

theorem round (hn : 0 < instances.length) (ha : a.size = instances.length)
    (hl : exitedIn instances a.master = false) : Round instances a := by
  have hl' : (!exitedIn instances a.master) = true := by simp [hl]
  obtain ⟨hret, hlive, honce⟩ := scan_round (master_lt_length hn ha) hl' (liveCount_eq instances)
  have hmaster := fun j => (master_iterate hn ha j).2
  refine ⟨?_, ?_, ?_⟩
  · intro i hi hi'
    simp only [hmaster]
    exact honce i hi (by simp [hi'])
  · intro j
    rw [hmaster]
    simpa using hlive j
  · rw [hmaster, hret]

end Rotation

/-- However many instances there are and whichever have exited, a press passes
the master on to the next live one, presses go round the live ones, and a
master that is set again takes everything back. -/
theorem rotation_fair (instances : List Instance) (hn : 0 < instances.length) (a : Assignment)
    (ha : a.size = instances.length) :
    Pressed instances a ∧ (exitedIn instances a.master = false → Round instances a) ∧
      ∀ inst, (a.setMaster inst).setMaster a.master = a :=
  ⟨pressed hn ha, round hn ha, Assignment.setMaster_setMaster a⟩

/-- Three of four clients are alive. -/
def oneExited : List Instance := [⟨100, false⟩, ⟨200, true⟩, ⟨300, false⟩, ⟨400, false⟩]

/-- Instance 2 is the master and passes on to instance 3; three presses go round. -/
theorem rotation_fair_exited :
    (onSwap oneExited ((Assignment.reset 4).setMaster 2)).master = 3 ∧
      Round oneExited ((Assignment.reset 4).setMaster 2) :=
  ⟨by decide, (rotation_fair oneExited (by decide) ((Assignment.reset 4).setMaster 2) (by decide)).2.1 (by decide)⟩

end MultiMadness
