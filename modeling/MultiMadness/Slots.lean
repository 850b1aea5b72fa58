import MultiMadness.Session
import MultiMadness.Layout
/-!
# Indexing with the assignment

`apply_layout_and_policy` reads `rects[assignment.slot_of(i)]`, and the
broadcaster shifts by the master it is given. Both are in bounds because an
assignment is a permutation whatever was done to it.

- `session_inBounds`: what holds of a session in every run of its two threads.
- `slots_safe`: the assignment under all its operations, and the session.
-/

namespace MultiMadness

open RunLib
open Assignment (closeGap)

/-! ## The operations -/

/-- The operations of `Assignment`, with any arguments. -/
inductive AssignmentOp where
  | reset (instances : Nat)
  | swap (i j : Nat)
  | setMaster (inst : Nat)
  | erase (inst : Nat)

def Assignment.apply (a : Assignment) : AssignmentOp → Assignment
  | .reset instances => .reset instances
  | .swap i j => a.swap i j
  | .setMaster inst => a.setMaster inst
  | .erase inst => a.erase inst

/-- What erasing an instance does: later instances move up by one, in the same
order of slots, and instance 1 of the order follows a master. -/
structure Erased (a : Assignment) (inst : Nat) : Prop where
  outOfRange : a.size ≤ inst → a.erase inst = a
  size : inst < a.size → (a.erase inst).size = a.size - 1
  order : inst < a.size → ∀ j k s t : Nat, j ≠ inst → k ≠ inst → a.slotOf[j]? = some s → a.slotOf[k]? = some t →
    ∃ s' t', (a.erase inst).slotOf[closeGap inst j]? = some s' ∧ (a.erase inst).slotOf[closeGap inst k]? = some t' ∧
      (s' < t' ↔ s < t)
  promotes : inst < a.size → a.master = inst → ∀ k : Nat, a.slotOf[k]? = some 1 → (a.erase inst).master = closeGap inst k

theorem erased (a : Assignment) (inst : Nat) : Erased a inst := by
  refine ⟨?_, Assignment.size_erase, ?_, ?_⟩
  · intro h
    have hout : ¬ inst < a.slotOf.length := Nat.not_lt.2 h
    rw [Assignment.erase, dif_neg hout]
  · intro h j k s t hj hk hs ht
    obtain ⟨slot, -, hi, -⟩ := a.consistent.slot inst h
    exact Assignment.order_erase hi hj hk hs ht
  · rintro h rfl k hk
    exact Assignment.master_erase (Assignment.slotOf_master (by omega)) hk

/-! ## The session -/

theorem cmdRun_sized (instances : List Instance) (master : Nat) :
    ((Assignment.reset instances.length).setMaster master).size = instances.length := by
  rw [Assignment.size_setMaster]
  exact List.length_range

/-- The session as `cmd_run` sets it up; `master` is the value of `--master`. -/
def Session.cmdRun (instances : List Instance) (nonempty : 0 < instances.length) (le : instances.length ≤ 32)
    (master : Nat) : Session :=
  ⟨instances, (Assignment.reset instances.length).setMaster master, cmdRun_sized instances master, nonempty, le⟩

/-- The accesses and the shifts that depend on the assignment are defined. -/
structure InBounds (s : Running) : Prop where
  rects : ∀ spec area rects, computeLayout spec area s.session.instances.length = some rects →
    ∀ i : Nat, i < s.session.instances.length → ∃ slot, s.session.assignment.slotOf[i]? = some slot ∧ slot < rects.length
  distinct : ∀ i j slot : Nat, s.session.assignment.slotOf[i]? = some slot → s.session.assignment.slotOf[j]? = some slot → i = j
  master : s.bc.pendingMaster < s.session.instances.length
  le : s.session.instances.length ≤ 32

namespace Running

/-- Every master that a thread has read or published is an instance. -/
structure MastersReal (s : Running) : Prop where
  pending : s.bc.pendingMaster < s.session.instances.length
  swap : match s.swap with
    | .idle => True
    | .chosen next | .laidOut next | .readTargets next _ => next < s.session.instances.length
  watch : match s.watch with
    | .readMaster master | .readBoth _ master => master < s.session.instances.length
    | _ => True

theorem mastersReal_start (session : Session) (bc : Broadcaster) : MastersReal (start session bc) := by
  refine ⟨?_, trivial, trivial⟩
  change session.master % 2 ^ 32 < session.instances.length
  rw [mod_of_lt (master_lt session)]
  exact master_lt session

theorem mastersReal_step {s t : Running} {l : Label} (hi : MastersReal s) (h : step s l = some t) : MastersReal t := by
  obtain ⟨hp, hs, hw⟩ := hi
  cases change h with
  | chooseNext _ => exact ⟨hp, chooseNext_lt s.session, hw⟩
  | applyLayout next hat => rw [hat] at hs; exact ⟨hp, hs, hw⟩
  | swapReadTargets next hat => rw [hat] at hs; exact ⟨hp, hs, hw⟩
  | swapPublish next targets hat =>
    rw [hat] at hs
    refine ⟨?_, trivial, hw⟩
    -- The cast to `uint32_t` keeps the number of an instance.
    change next % 2 ^ 32 < s.session.instances.length
    rw [mod_of_lt hs]
    exact hs
  | markExited dead hat =>
    have hlen : (s.session.markExited dead).instances.length = s.session.instances.length := by
      simp [Session.markExited]
    refine ⟨by rw [hlen]; exact hp, ?_, ?_⟩
    · simp only [hlen]; exact hs
    · cases s.session.changed dead <;> trivial
  | readTargetsFirst hat => exact ⟨hp, hs, trivial⟩
  | readTargetsLast master hat => rw [hat] at hw; exact ⟨hp, hs, hw⟩
  | readMasterFirst hat => exact ⟨hp, hs, master_lt s.session⟩
  | readMasterLast targets hat => exact ⟨hp, hs, master_lt s.session⟩
  | watchPublish targets master hat =>
    rw [hat] at hw
    refine ⟨?_, hs, trivial⟩
    change master % 2 ^ 32 < s.session.instances.length
    rw [mod_of_lt hw]
    exact hw

theorem session_inBounds {session : Session} {bc : Broadcaster} {ls : List Label} {s : Running}
    (h : run step (start session bc) ls = some s) : InBounds s := by
  have hm := run_inv MastersReal (fun _ _ _ hi hs => mastersReal_step hi hs) (mastersReal_start session bc) h
  refine ⟨?_, ?_, hm.pending, s.session.le⟩
  · intro spec area rects hr i hi
    rw [← s.session.sized] at hi
    obtain ⟨slot, hs, hget, -⟩ := s.session.assignment.consistent.slot i hi
    exact ⟨slot, hget, by rw [computeLayout_length hr, ← s.session.sized]; exact hs⟩
  · intro i j slot hi hj
    exact (Assignment.instanceAt_of hi).symm.trans (Assignment.instanceAt_of hj)

end Running

/-- After any operations an assignment is a permutation and erases in order; and
in any run of a session that `cmd_run` has set up it is indexed safely. -/
theorem slots_safe :
    (∀ (n : Nat) (ops : List AssignmentOp), (ops.foldl Assignment.apply (.reset n)).Consistent ∧
      ∀ inst, Erased (ops.foldl Assignment.apply (.reset n)) inst) ∧
    ∀ (instances : List Instance) (nonempty : 0 < instances.length) (le : instances.length ≤ 32) (master : Nat)
      (bc : Broadcaster) (ls : List Running.Label) (s : Running),
      run Running.step (Running.start (.cmdRun instances nonempty le master) bc) ls = some s → InBounds s := by
  refine ⟨?_, ?_⟩
  · intro n ops
    exact ⟨Assignment.consistent _, erased _⟩
  · intro instances nonempty le master bc ls s h
    exact Running.session_inBounds h

/-- The last of three clients is the master; a swap moves to the first one while the second exits. -/
theorem slots_safe_swap : ∃ s, run Running.step
    (Running.start (.cmdRun [⟨100, false⟩, ⟨200, false⟩, ⟨300, false⟩] (by decide) (by decide) 2) {})
      [.chooseNext, .markExited (· = 1), .applyLayout, .swapReadTargets, .swapPublish] = some s ∧
    s.session.master = 0 ∧ InBounds s :=
  ⟨_, rfl, rfl, slots_safe.2 [⟨100, false⟩, ⟨200, false⟩, ⟨300, false⟩] (by decide) (by decide) 2 {}
    [.chooseNext, .markExited (· = 1), .applyLayout, .swapReadTargets, .swapPublish] _ rfl⟩

/-- Two of four instances change places, an out-of-range one is made master, and
the first is erased. -/
example : (([.swap 0 2, .setMaster 9, .erase 0] : List AssignmentOp).foldl Assignment.apply (.reset 4)).slotOf = [1, 0, 2] := by
  decide

end MultiMadness
