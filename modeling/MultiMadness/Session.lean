import MultiMadness.RunLib.Runs
import MultiMadness.Assignment
import MultiMadness.Broadcaster
/-!
# The swap hotkey and the exit watchdog

Both threads of `cmd_run` read the session and publish what they read with
`set_targets`. A section under the session's mutex, an evaluation of
`s.targets()` or `s.master()`, and a call of `set_targets` are one step each.

- `change`: what every step does.
- `session_published`: what is published agrees with the session whenever
  neither thread is at work, in every run in which a thread that the other one
  has overtaken between its read and its publication does not publish last.
-/

namespace MultiMadness

open RunLib

/-- `cmd_run` keeps only instances whose window it found. -/
structure Instance where
  hwnd : Hwnd
  exited : Bool := false
deriving DecidableEq

/-- `cmd_run` accepts between 1 and 32 instances. -/
structure Session where
  instances : List Instance
  assignment : Assignment
  sized : assignment.size = instances.length
  nonempty : 0 < instances.length
  le : instances.length ≤ 32

namespace Session

def master (s : Session) : Nat := s.assignment.master

def targets (s : Session) : List Target := s.instances.map fun inst => ⟨if inst.exited then none else some inst.hwnd⟩

/-- Instances the session has no record of count as exited. -/
def exitedAt (s : Session) (i : Nat) : Bool := ((s.instances[i]?).map (·.exited)).getD true

/-- The next live instance after the current master, the master itself when
there is none. -/
def chooseNext (s : Session) : Nat :=
  let n := s.instances.length
  (((List.range' 1 n).map fun i => (s.master + i) % n).find? fun c => !s.exitedAt c).getD s.master

def setMaster (s : Session) (next : Nat) : Session :=
  { s with assignment := s.assignment.setMaster next, sized := by rw [Assignment.size_setMaster, s.sized] }

/-- The watchdog's section: `dead i` says that instance `i`'s process or window
is gone. -/
def markExited (s : Session) (dead : Nat → Bool) : Session :=
  { s with
    instances := s.instances.mapIdx fun i inst => { inst with exited := inst.exited || dead i }
    sized := by simpa using s.sized
    nonempty := by simpa using s.nonempty
    le := by simpa using s.le }

/-- Whether that section found an instance that had not exited before. -/
def changed (s : Session) (dead : Nat → Bool) : Bool :=
  (s.instances.mapIdx fun i inst => !inst.exited && dead i).any id

end Session

/-- Where the swap callback is. -/
inductive Swapping where
  | idle
  | chosen (next : Nat)
  | laidOut (next : Nat)
  | readTargets (next : Nat) (targets : List Target)
deriving DecidableEq

/-- Where the watchdog is; the order of its two reads is unspecified. -/
inductive Watching where
  | idle
  | marked
  | readTargets (targets : List Target)
  | readMaster (master : Nat)
  | readBoth (targets : List Target) (master : Nat)
deriving DecidableEq

structure Running where
  session : Session
  bc : Broadcaster
  swap : Swapping
  watch : Watching

namespace Running

inductive Label where
  | chooseNext
  | applyLayout
  | swapReadTargets
  | swapPublish
  | markExited (dead : Nat → Bool)
  | watchReadTargets
  | watchReadMaster
  | watchPublish

/-- `set_targets`; the master is passed as a `uint32_t`. -/
def publish (s : Running) (targets : List Target) (master : Nat) : Running :=
  { s with bc := s.bc.setTargets targets (master % 2 ^ 32) }

/-- Both threads start after `cmd_run` has published the session. -/
def start (session : Session) (bc : Broadcaster) : Running :=
  publish ⟨session, bc, .idle, .idle⟩ session.targets session.master

def step (s : Running) : Label → Option Running
  | .chooseNext =>
    match s.swap with
    | .idle =>
      let next := s.session.chooseNext
      some { s with session := s.session.setMaster next, swap := .chosen next }
    | _ => none
  | .applyLayout =>
    -- It moves windows and sets policies, and writes nothing the threads share.
    match s.swap with
    | .chosen next => some { s with swap := .laidOut next }
    | _ => none
  | .swapReadTargets =>
    match s.swap with
    | .laidOut next => some { s with swap := .readTargets next s.session.targets }
    | _ => none
  | .swapPublish =>
    match s.swap with
    | .readTargets next targets => some { s.publish targets next with swap := .idle }
    | _ => none
  | .markExited dead =>
    match s.watch with
    | .idle =>
      some { s with
        session := s.session.markExited dead
        watch := if s.session.changed dead then .marked else .idle }
    | _ => none
  | .watchReadTargets =>
    match s.watch with
    | .marked => some { s with watch := .readTargets s.session.targets }
    | .readMaster master => some { s with watch := .readBoth s.session.targets master }
    | _ => none
  | .watchReadMaster =>
    match s.watch with
    | .marked => some { s with watch := .readMaster s.session.master }
    | .readTargets targets => some { s with watch := .readBoth targets s.session.master }
    | _ => none
  | .watchPublish =>
    match s.watch with
    | .readBoth targets master => some { s.publish targets master with watch := .idle }
    | _ => none

/-- Neither thread is at work. -/
def Quiet (s : Running) : Prop := s.swap = .idle ∧ s.watch = .idle

/-- The targets are null exactly for the instances that have exited. -/
def Current (session : Session) (targets : List Target) : Prop :=
  ∀ (i : Nat) (inst : Instance), session.instances[i]? = some inst → ((targets[i]?).bind (·.hwnd) = none ↔ inst.exited = true)

/-- What is published is the session's master and its exited instances. -/
structure Agrees (s : Running) : Prop where
  master : s.bc.pendingMaster = s.session.master
  targets : Current s.session s.bc.pendingTargets

/-! ## The session -/

theorem current_targets (s : Session) : Current s s.targets := by
  intro i inst hi
  cases he : inst.exited <;> simp [Session.targets, hi, he]

/-- A watchdog section that finds nothing changes nothing. -/
theorem markExited_unchanged {s : Session} {dead : Nat → Bool} (h : s.changed dead = false) :
    s.markExited dead = s := by
  have hi : (s.instances.mapIdx fun i inst => { inst with exited := inst.exited || dead i }) = s.instances := by
    refine List.ext_getElem (by simp) fun i h1 h2 => ?_
    have hany := List.any_eq_false.1 h (!s.instances[i].exited && dead i)
      (List.mem_mapIdx.2 ⟨i, h2, rfl⟩)
    rw [List.getElem_mapIdx]
    generalize s.instances[i] = inst at hany ⊢
    obtain ⟨hwnd, exited⟩ := inst
    cases exited <;> simp_all
  cases s
  simp only [Session.markExited] at hi ⊢
  simp only [hi]

theorem master_lt (s : Session) : s.master < s.instances.length := by
  have h := s.nonempty
  rw [← s.sized] at h ⊢
  exact Assignment.master_lt h

theorem chooseNext_lt (s : Session) : s.chooseNext < s.instances.length := by
  unfold Session.chooseNext
  dsimp only
  cases hf : ((List.range' 1 s.instances.length).map fun i => (s.master + i) % s.instances.length).find?
      fun c => !s.exitedAt c with
  | none => exact master_lt s
  | some c =>
    obtain ⟨i, -, rfl⟩ := List.mem_map.1 (List.mem_of_find?_eq_some hf)
    exact Nat.mod_lt _ s.nonempty

theorem master_setMaster {s : Session} {next : Nat} (h : next < s.instances.length) :
    (s.setMaster next).master = next := Assignment.master_setMaster (by rw [s.sized]; exact h)

theorem mod_of_lt {s : Session} {i : Nat} (h : i < s.instances.length) : i % 2 ^ 32 = i :=
  Nat.mod_eq_of_lt (by have := s.le; omega)

/-! ## The condition -/

/-- What the other thread has done since a thread read the session. -/
structure Overtaken where
  /-- A swap has moved the master since the watchdog read it. -/
  master : Bool := false
  /-- The watchdog has marked an instance since the callback read the targets. -/
  targets : Bool := false
deriving DecidableEq

def Overtaken.note (s : Running) : Label → Overtaken → Overtaken
  | .watchReadMaster, o => { o with master := false }
  | .chooseNext, o => { o with master := o.master || s.session.chooseNext != s.session.master }
  | .swapReadTargets, o => { o with targets := false }
  | .markExited dead, o => { o with targets := o.targets || s.session.changed dead }
  | _, o => o

/-- A thread that was overtaken publishes only while the other one still has a
publication to come. -/
def Superseded (p : Running × Overtaken) : Label → Prop
  | .watchPublish => p.2.master = true → p.1.swap ≠ .idle
  | .swapPublish => p.2.targets = true → p.1.watch ≠ .idle
  | _ => True

instance (p : Running × Overtaken) : (l : Label) → Decidable (Superseded p l)
  | .watchPublish => inferInstanceAs (Decidable (p.2.master = true → p.1.swap ≠ .idle))
  | .swapPublish => inferInstanceAs (Decidable (p.2.targets = true → p.1.watch ≠ .idle))
  | .chooseNext | .applyLayout | .swapReadTargets | .markExited _ | .watchReadTargets | .watchReadMaster => isTrue trivial

/-- What a thread has read is right until the other one overtakes it. -/
structure Inv (p : Running × Overtaken) : Prop where
  master : p.1.swap = .idle → p.1.bc.pendingMaster = p.1.session.master
  targets : p.1.watch = .idle → Current p.1.session p.1.bc.pendingTargets
  swap : match p.1.swap with
    | .idle => True
    | .chosen next | .laidOut next => next = p.1.session.master
    | .readTargets next targets => next = p.1.session.master ∧ (p.2.targets = false → Current p.1.session targets)
  watch : match p.1.watch with
    | .idle | .marked => True
    | .readTargets targets => Current p.1.session targets
    | .readMaster master => p.2.master = false → master = p.1.session.master
    | .readBoth targets master => Current p.1.session targets ∧ (p.2.master = false → master = p.1.session.master)

theorem inv_start (session : Session) (bc : Broadcaster) : Inv (start session bc, {}) where
  master _ := mod_of_lt (master_lt session)
  targets _ := current_targets session
  swap := trivial
  watch := trivial

/-- A step, with where its thread was and what it leaves. -/
inductive Change (s : Running) : Label → Running → Prop where
  | chooseNext (hp : s.swap = .idle) :
      Change s .chooseNext
        { s with session := s.session.setMaster s.session.chooseNext, swap := .chosen s.session.chooseNext }
  | applyLayout (next : Nat) (hp : s.swap = .chosen next) : Change s .applyLayout { s with swap := .laidOut next }
  | swapReadTargets (next : Nat) (hp : s.swap = .laidOut next) :
      Change s .swapReadTargets { s with swap := .readTargets next s.session.targets }
  | swapPublish (next : Nat) (targets : List Target) (hp : s.swap = .readTargets next targets) :
      Change s .swapPublish { s.publish targets next with swap := .idle }
  | markExited (dead : Nat → Bool) (hp : s.watch = .idle) :
      Change s (.markExited dead)
        { s with
          session := s.session.markExited dead
          watch := if s.session.changed dead then .marked else .idle }
  | readTargetsFirst (hp : s.watch = .marked) :
      Change s .watchReadTargets { s with watch := .readTargets s.session.targets }
  | readTargetsLast (master : Nat) (hp : s.watch = .readMaster master) :
      Change s .watchReadTargets { s with watch := .readBoth s.session.targets master }
  | readMasterFirst (hp : s.watch = .marked) :
      Change s .watchReadMaster { s with watch := .readMaster s.session.master }
  | readMasterLast (targets : List Target) (hp : s.watch = .readTargets targets) :
      Change s .watchReadMaster { s with watch := .readBoth targets s.session.master }
  | watchPublish (targets : List Target) (master : Nat) (hp : s.watch = .readBoth targets master) :
      Change s .watchPublish { s.publish targets master with watch := .idle }

theorem change {s t : Running} {l : Label} (h : step s l = some t) : Change s l t := by
  cases l with
  | chooseNext =>
    simp only [step] at h
    split at h
    · next hp => cases h; exact .chooseNext hp
    · cases h
  | applyLayout =>
    simp only [step] at h
    split at h
    · next next hp => cases h; exact .applyLayout next hp
    · cases h
  | swapReadTargets =>
    simp only [step] at h
    split at h
    · next next hp => cases h; exact .swapReadTargets next hp
    · cases h
  | swapPublish =>
    simp only [step] at h
    split at h
    · next next targets hp => cases h; exact .swapPublish next targets hp
    · cases h
  | markExited dead =>
    simp only [step] at h
    split at h
    · next hp => cases h; exact .markExited dead hp
    · cases h
  | watchReadTargets =>
    simp only [step] at h
    split at h
    · next hp => cases h; exact .readTargetsFirst hp
    · next master hp => cases h; exact .readTargetsLast master hp
    · cases h
  | watchReadMaster =>
    simp only [step] at h
    split at h
    · next hp => cases h; exact .readMasterFirst hp
    · next targets hp => cases h; exact .readMasterLast targets hp
    · cases h
  | watchPublish =>
    simp only [step] at h
    split at h
    · next targets master hp => cases h; exact .watchPublish targets master hp
    · cases h

variable {s t : Running} {o : Overtaken} {l : Label}

/-- What the watchdog has read stays right under a swap, up to the master the swap moves. -/
theorem inv_chooseNext (hi : Inv (s, o)) :
    Inv ({ s with session := s.session.setMaster s.session.chooseNext, swap := .chosen s.session.chooseNext },
      o.note s .chooseNext) where
  master h := by cases h
  targets := hi.targets
  swap := (master_setMaster (chooseNext_lt s.session)).symm
  watch := by
    have hkept : (o.note s .chooseNext).master = false →
        o.master = false ∧ (s.session.setMaster s.session.chooseNext).master = s.session.master := by
      intro h
      obtain ⟨ho, hn⟩ : o.master = false ∧ s.session.chooseNext = s.session.master := by
        simpa [Overtaken.note] using h
      exact ⟨ho, (master_setMaster (chooseNext_lt s.session)).trans hn⟩
    have hw := hi.watch
    dsimp only at hw ⊢
    cases hp : s.watch with
    | idle => trivial
    | marked => trivial
    | readTargets targets => rw [hp] at hw; exact hw
    | readMaster master =>
      rw [hp] at hw
      exact fun h => (hw (hkept h).1).trans (hkept h).2.symm
    | readBoth targets master =>
      rw [hp] at hw
      exact ⟨hw.1, fun h => (hw.2 (hkept h).1).trans (hkept h).2.symm⟩

theorem inv_markExited {dead : Nat → Bool} (hi : Inv (s, o)) (hp : s.watch = .idle) :
    Inv ({ s with
      session := s.session.markExited dead
      watch := if s.session.changed dead then .marked else .idle }, o.note s (.markExited dead)) := by
  obtain ⟨hm, ht, hs, -⟩ := hi
  cases hch : s.session.changed dead with
  | false =>
    rw [markExited_unchanged hch, Overtaken.note, hch, Bool.or_false]
    exact ⟨hm, fun _ => ht hp, hs, trivial⟩
  | true =>
    -- The published targets are out of date, and so are those the callback has read.
    refine ⟨hm, fun h => (by cases h), ?_, trivial⟩
    dsimp only at hs ⊢
    cases hq : s.swap with
    | readTargets next targets =>
      rw [hq] at hs
      exact ⟨hs.1, fun h => (by simp [Overtaken.note, hch] at h)⟩
    | _ => rw [hq] at hs; exact hs

/-- Every step that meets the condition keeps the invariant. -/
theorem inv_step (hi : Inv (s, o)) (hc : Superseded (s, o) l) (h : step s l = some t) : Inv (t, o.note s l) := by
  have ⟨hm, ht, hs, hw⟩ := hi
  cases change h with
  | chooseNext hp => exact inv_chooseNext hi
  | applyLayout next hp =>
    rw [hp] at hs
    exact ⟨fun h => (by cases h), ht, hs, hw⟩
  | swapReadTargets next hp =>
    rw [hp] at hs
    exact ⟨fun h => (by cases h), ht, ⟨hs, fun _ => current_targets s.session⟩, hw⟩
  | swapPublish next targets hp =>
    rw [hp] at hs
    obtain ⟨rfl, hcur⟩ := hs
    refine ⟨fun _ => mod_of_lt (master_lt s.session), fun hq => hcur ?_, trivial, hw⟩
    exact Bool.eq_false_iff.2 fun ho => hc ho hq
  | markExited dead hp => exact inv_markExited hi hp
  | readTargetsFirst hp => exact ⟨hm, fun h => (by cases h), hs, current_targets s.session⟩
  | readTargetsLast master hp =>
    rw [hp] at hw
    exact ⟨hm, fun h => (by cases h), hs, current_targets s.session, hw⟩
  | readMasterFirst hp => exact ⟨hm, fun h => (by cases h), hs, fun _ => rfl⟩
  | readMasterLast targets hp =>
    rw [hp] at hw
    exact ⟨hm, fun h => (by cases h), hs, hw, fun _ => rfl⟩
  | watchPublish targets master hp =>
    rw [hp] at hw
    obtain ⟨hcur, hmaster⟩ := hw
    refine ⟨fun hq => ?_, fun _ => hcur, hs, trivial⟩
    have ho : o.master = false := Bool.eq_false_iff.2 fun ho => hc ho hq
    rw [hmaster ho]
    exact mod_of_lt (master_lt s.session)

/-- In a run of the two threads in which no publication that the other thread
has overtaken is the last one to come, what the broadcaster has been told agrees
with the session whenever neither thread is at work. -/
theorem session_published (session : Session) (bc : Broadcaster) (ls : List Label)
    (h : AllSteps (observed step Overtaken.note) Superseded (start session bc, {}) ls) :
    Always step (fun s => Quiet s → Agrees s) (start session bc) ls := by
  have hstep : ∀ p l q, Inv p → Superseded p l → observed step Overtaken.note p l = some q → Inv q := by
    intro p l q hi hc hq
    obtain ⟨t, ht, rfl⟩ := observed_some.1 hq
    exact inv_step hi hc ht
  have hinv := always_of Inv hstep (inv_start session bc) h
  exact always_observed.1 (hinv.mono fun p hi hq => ⟨hi.master hq.1, hi.targets hq.2⟩)

/-- Three clients, the first one the master. -/
def threeClients : Session where
  instances := [⟨100, false⟩, ⟨200, false⟩, ⟨300, false⟩]
  assignment := .reset 3
  sized := rfl
  nonempty := by decide
  le := by decide

/-- The last client exits; a swap moves the master after the watchdog has read
it, and the callback publishes last. -/
def overlapping : List Label :=
  [.markExited (· = 2), .watchReadTargets, .watchReadMaster, .chooseNext, .applyLayout, .watchPublish,
    .swapReadTargets, .swapPublish]

theorem swap_kept : Always step (fun s => Quiet s → Agrees s) (start threeClients {}) overlapping ∧
    ∃ s, run step (start threeClients {}) overlapping = some s ∧ Quiet s ∧ s.session.master = 1 ∧
      s.bc.pendingMaster = 1 ∧ s.bc.pendingTargets = [⟨some 100⟩, ⟨some 200⟩, ⟨none⟩] :=
  ⟨session_published threeClients {} overlapping (by decide), _, rfl, ⟨rfl, rfl⟩, rfl, rfl, rfl⟩

/-- The last client exits and the watchdog reads the master; then the swap
callback runs; then the watchdog publishes what it read. -/
theorem swap_lost : ∃ s, run step (start threeClients {}) [.markExited (· = 2), .watchReadTargets, .watchReadMaster,
      .chooseNext, .applyLayout, .swapReadTargets, .swapPublish, .watchPublish] = some s ∧
    Quiet s ∧ s.session.master = 1 ∧ s.bc.pendingMaster = 0 ∧ ¬ Agrees s :=
  ⟨_, rfl, ⟨rfl, rfl⟩, rfl, rfl, fun h => absurd h.master (by decide)⟩

end Running

end MultiMadness
