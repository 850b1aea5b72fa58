import MultiMadness.PollLib.Poll
import MultiMadness.RunLib.Runs
import MultiMadness.Handling
/-!
# Bringing a window to the foreground

`focus.cpp`. The broadcaster's model knows of a focus call only which window was
in the foreground when it returned. Here it is the code: the window is asked for
again and again until the clock has passed the deadline, and once more by
`SwitchToThisWindow`. Every answer of the system is free.

- `wait_spec`: one wait.
- `focus_outcome`: a call comes to an end, and what its answer means then.
-/

namespace MultiMadness

open PollLib RunLib

/-- The end of a wait that starts at a reading of the performance counter. -/
def deadlineAt (now frequency : UInt64) (waitMs : UInt32) : UInt64 := now + frequency * waitMs.toUInt64 / 1000

/-- Where nothing wraps around, that is the asked number of milliseconds later. -/
theorem deadlineAt_toNat {now frequency : UInt64} {waitMs : UInt32} (hm : frequency.toNat * waitMs.toNat < 2 ^ 64)
    (hs : now.toNat + frequency.toNat * waitMs.toNat / 1000 < 2 ^ 64) :
    (deadlineAt now frequency waitMs).toNat = now.toNat + frequency.toNat * waitMs.toNat / 1000 := by
  have hticks : (frequency * waitMs.toUInt64 / 1000).toNat = frequency.toNat * waitMs.toNat / 1000 := by
    rw [UInt64.toNat_div, UInt64.toNat_mul, UInt32.toNat_toUInt64, Nat.mod_eq_of_lt hm]
    rfl
  rw [deadlineAt, UInt64.toNat_add, hticks, Nat.mod_eq_of_lt hs]

namespace Focus

/-- The answers of the system to one call. -/
structure Answers where
  isWindow : Bool := true
  /-- Of the `n`-th `GetForegroundWindow`. -/
  foreground : Nat → Option Hwnd
  iconic : Bool := false
  /-- The calling thread. -/
  me : UInt32 := 1
  /-- The thread of the window found in the foreground. -/
  foregroundThread : UInt32 := 2
  hung : Bool := false
  attaches : Bool := true
  /-- The `n`-th reading. -/
  clock : Nat → UInt64
  frequency : UInt64

/-- The calls that change something. -/
inductive FocusCall where
  | showRestored (hwnd : Hwnd)
  | attach (thread other : UInt32) (ok : Bool)
  | detach (thread other : UInt32)
  | setForeground (hwnd : Hwnd)
  | switchTo (hwnd : Hwnd)
deriving DecidableEq

/-- One of them, with how often the foreground window had been asked for and the
clock read before it. -/
structure Made where
  call : FocusCall
  asked : Nat
  read : Nat
deriving DecidableEq

/-- What a call returns, how often it has asked for the foreground window and
read the clock, and its other calls. -/
structure Focused where
  ok : Bool
  asked : Nat
  read : Nat
  calls : List Made

/-- `wait_until_foreground`, with the number of windows and of readings seen before and after. -/
def waitUntilForeground (ans : Answers) (target : Hwnd) (waitMs : UInt32) (fuel asked read : Nat) :
    Option (Bool × Nat × Nat) :=
  let deadline := deadlineAt (ans.clock read) ans.frequency waitMs
  let look (i : Nat) : Option Unit := if ans.foreground (asked + i) = some target then some () else none
  let late (i : Nat) : Bool := !decide (ans.clock (read + 1 + i) < deadline)
  match poll look late fuel 0 with
  | none => none
  | some (i, some ()) => some (true, asked + i + 1, read + 1 + i)
  | some (i, none) => some (ans.foreground (asked + i + 1) = some target, asked + i + 2, read + i + 2)

/-- Asking the system for the focus, attached to the thread that has it where that is wanted. -/
def requestCalls (ans : Answers) (useAttach : Bool) (target : Hwnd) : List Made :=
  let thread := if (ans.foreground 1).isSome then ans.foregroundThread else 0
  let tries := useAttach && thread ≠ 0 && thread ≠ ans.me && !ans.hung
  (if ans.iconic then [⟨.showRestored target, 1, 0⟩] else []) ++
    (if tries then [⟨.attach ans.me thread ans.attaches, 2, 0⟩] else []) ++ [⟨.setForeground target, 2, 0⟩] ++
    (if tries && ans.attaches then [⟨.detach ans.me thread, 2, 0⟩] else [])

/-- `bring_to_foreground`. -/
def bringToForeground (ans : Answers) (useAttach : Bool) (target : Option Hwnd) (waitMs : UInt32) (fuel : Nat) :
    Option Focused :=
  match target with
  | none => some ⟨false, 0, 0, []⟩
  | some hwnd =>
    if ¬ ans.isWindow then some ⟨false, 0, 0, []⟩
    else if ans.foreground 0 = some hwnd then some ⟨true, 1, 0, []⟩
    else
      let calls := requestCalls ans useAttach hwnd
      match waitUntilForeground ans hwnd waitMs fuel 2 0 with
      | none => none
      | some (true, asked, read) => some ⟨true, asked, read, calls⟩
      | some (false, asked, read) =>
        -- Last resort: bypasses the foreground lock outright.
        match waitUntilForeground ans hwnd waitMs fuel asked read with
        | none => none
        | some (ok, asked', read') => some ⟨ok, asked', read', calls ++ [⟨.switchTo hwnd, asked, read⟩]⟩

/-! ## One wait -/

section Wait
variable {ans : Answers} {target : Hwnd} {waitMs : UInt32} {fuel asked read : Nat}

/-- What a wait has seen: its answer is the last one about the foreground, and
without success the clock has passed the deadline. -/
structure Waited (ans : Answers) (target : Hwnd) (waitMs : UInt32) (asked read : Nat) (r : Bool × Nat × Nat) : Prop where
  asks : asked < r.2.1
  reads : read < r.2.2
  last : r.1 = decide (ans.foreground (r.2.1 - 1) = some target)
  late : r.1 = false → read + 1 < r.2.2 ∧ ¬ ans.clock (r.2.2 - 1) < deadlineAt (ans.clock read) ans.frequency waitMs

theorem wait_spec {r : Bool × Nat × Nat} (h : waitUntilForeground ans target waitMs fuel asked read = some r) :
    Waited ans target waitMs asked read r := by
  unfold waitUntilForeground at h
  dsimp only at h
  split at h
  · cases h
  · next i hp =>
    cases h
    obtain ⟨-, -, -, hlook⟩ := poll_eq_some.1 hp
    have hfg : ans.foreground (asked + i) = some target := by
      by_contra hne
      rw [if_neg hne] at hlook
      cases hlook
    exact ⟨by dsimp only; omega, by dsimp only; omega, by simp [hfg], nofun⟩
  · next i hp =>
    cases h
    obtain ⟨-, -, hstop, hlook⟩ := poll_eq_some.1 hp
    have hover : ¬ ans.clock (read + 1 + i) < deadlineAt (ans.clock read) ans.frequency waitMs := fun hlt =>
      hstop ⟨hlook.symm, by simpa using hlt⟩
    refine ⟨by dsimp only; omega, by dsimp only; omega, rfl, fun _ => ⟨by dsimp only; omega, ?_⟩⟩
    rwa [show read + i + 2 - 1 = read + 1 + i by omega]

/-- A clock that passes the deadline ends the wait, one reading later at most. -/
theorem wait_total (target : Hwnd) (asked : Nat) {n : Nat} (hn : read < n) (ho : ¬ ans.clock n < deadlineAt (ans.clock read) ans.frequency waitMs) :
    ∃ r, waitUntilForeground ans target waitMs n asked read = some r ∧ r.2.2 ≤ n + 1 := by
  obtain ⟨i, r, hp, hi⟩ := poll_total (fun i => if ans.foreground (asked + i) = some target then some () else none)
    (fun i => !decide (ans.clock (read + 1 + i) < deadlineAt (ans.clock read) ans.frequency waitMs))
    (Nat.zero_le (n - (read + 1))) (by simpa [show read + 1 + (n - (read + 1)) = n by omega] using ho)
    (show n - (read + 1) < 0 + n by omega)
  unfold waitUntilForeground
  dsimp only
  rw [hp]
  cases r
  · exact ⟨_, rfl, by dsimp only; omega⟩
  · exact ⟨_, rfl, by dsimp only; omega⟩

theorem wait_mono {r : Bool × Nat × Nat} {fuel' : Nat} (h : waitUntilForeground ans target waitMs fuel asked read = some r)
    (hf : fuel ≤ fuel') : waitUntilForeground ans target waitMs fuel' asked read = some r := by
  unfold waitUntilForeground at h ⊢
  dsimp only at h ⊢
  split at h
  · cases h
  · next i hp => rw [poll_mono hp hf]; exact h
  · next i hp => rw [poll_mono hp hf]; exact h

end Wait

/-! ## A call -/

/-- The window that was in the foreground last; a call that does not ask has no target it could be. -/
def Focused.seen (r : Focused) (ans : Answers) : Option Hwnd :=
  if r.asked = 0 then none else ans.foreground (r.asked - 1)

/-- Attaching the calling thread to another, and detaching it; `none` for a
thread that is not attached. -/
def attached (others : List UInt32) : FocusCall → Option (List UInt32)
  | .attach _ other ok => some (if ok then other :: others else others)
  | .detach _ other => if other ∈ others then some (others.erase other) else none
  | _ => some others

/-- What the caller may rely on. -/
structure Outcome (ans : Answers) (useAttach : Bool) (target : Option Hwnd) (waitMs : UInt32) (r : Focused) : Prop where
  /-- Success means that the target was seen in the foreground last. -/
  verified : r.ok = true ↔ ∃ hwnd, target = some hwnd ∧ 0 < r.asked ∧ ans.foreground (r.asked - 1) = some hwnd
  /-- Without a window, or with one that is in the foreground, nothing is touched. -/
  untouched : (∀ hwnd, target = some hwnd → ans.isWindow = true → ans.foreground 0 = some hwnd) → r.calls = []
  /-- Every thread that is attached is detached again. -/
  detached : run attached [] (r.calls.map (·.call)) = some []
  attaches : ∀ m ∈ r.calls, ∀ thread other ok, m.call = .attach thread other ok →
    useAttach = true ∧ ans.hung = false ∧ other ≠ 0 ∧ other ≠ thread
  /-- Failure takes two full waits, one after the request and one after the last resort. -/
  patient : r.ok = false → ∀ hwnd, target = some hwnd → ans.isWindow = true →
    ∃ request last, r.calls = request ++ [last] ∧ last.call = .switchTo hwnd ∧
      (∀ m ∈ request, m.read = 0) ∧ (∃ m ∈ request, m.call = .setForeground hwnd) ∧
      0 < last.read ∧ ¬ ans.clock (last.read - 1) < deadlineAt (ans.clock 0) ans.frequency waitMs ∧
      last.read + 1 < r.read ∧ ¬ ans.clock (r.read - 1) < deadlineAt (ans.clock last.read) ans.frequency waitMs

section Call
variable {ans : Answers} {useAttach : Bool} {waitMs : UInt32}

theorem mem_requestCalls {hwnd : Hwnd} {m : Made} (hm : m ∈ requestCalls ans useAttach hwnd) {thread other : UInt32}
    {ok : Bool} (h : m.call = .attach thread other ok) :
    useAttach = true ∧ ans.hung = false ∧ other ≠ 0 ∧ other ≠ thread := by
  obtain ⟨call, asked, read⟩ := m
  subst h
  simp only [requestCalls, List.mem_append, List.mem_ite_nil_right, List.mem_singleton, Made.mk.injEq,
    FocusCall.attach.injEq, Bool.and_eq_true, decide_eq_true_eq, Bool.not_eq_true', reduceCtorEq, false_and, and_false,
    false_or, or_false] at hm
  obtain ⟨⟨⟨⟨hu, h0⟩, hme⟩, hh⟩, ⟨rfl, rfl, -⟩, -⟩ := hm
  exact ⟨hu, hh, h0, hme⟩

/-- The request is made before the first reading of the clock. -/
theorem read_requestCalls {hwnd : Hwnd} {m : Made} (hm : m ∈ requestCalls ans useAttach hwnd) : m.read = 0 := by
  simp only [requestCalls, List.mem_append, List.mem_ite_nil_right, List.mem_singleton] at hm
  obtain ((⟨-, rfl⟩ | ⟨-, rfl⟩) | rfl) | ⟨-, rfl⟩ := hm <;> rfl

theorem setForeground_mem (ans : Answers) (useAttach : Bool) (hwnd : Hwnd) :
    ⟨.setForeground hwnd, 2, 0⟩ ∈ requestCalls ans useAttach hwnd := by
  simp [requestCalls]

theorem attached_request (ans : Answers) (useAttach : Bool) (hwnd : Hwnd) :
    run attached [] ((requestCalls ans useAttach hwnd).map (·.call)) = some [] := by
  simp only [requestCalls]
  generalize (useAttach && _ && _ && _) = tries
  generalize (if (ans.foreground 1).isSome then ans.foregroundThread else 0) = thread
  cases ans.iconic <;> cases tries <;> cases ans.attaches <;> simp [run_cons, attached]

/-- A call that touches nothing. -/
theorem outcome_at_once {target : Option Hwnd} {ok : Bool} {asked : Nat}
    (h : ok = true ↔ ∃ hwnd, target = some hwnd ∧ 0 < asked ∧ ans.foreground (asked - 1) = some hwnd)
    (hp : ok = false → ∀ hwnd, target = some hwnd → ans.isWindow = false) :
    Outcome ans useAttach target waitMs ⟨ok, asked, 0, []⟩ := by
  refine ⟨h, fun _ => rfl, rfl, nofun, ?_⟩
  intro hok hwnd ht hwin
  rw [hp hok hwnd ht] at hwin
  cases hwin

/-- The answer of a wait is about the last window seen. -/
theorem verified_of_waited {hwnd : Hwnd} {asked read : Nat} {r : Bool × Nat × Nat}
    (hw : Waited ans hwnd waitMs asked read r) : r.1 = true ↔ ∃ hwnd', some hwnd = some hwnd' ∧ 0 < r.2.1 ∧
      ans.foreground (r.2.1 - 1) = some hwnd' := by
  rw [hw.last, decide_eq_true_eq]
  have hpos : 0 < r.2.1 := Nat.lt_of_le_of_lt (Nat.zero_le _) hw.asks
  constructor
  · exact fun h => ⟨hwnd, rfl, hpos, h⟩
  · rintro ⟨_, he, -, h⟩
    cases he
    exact h

theorem outcome_first {hwnd : Hwnd} {asked read : Nat} (hne : ans.foreground 0 ≠ some hwnd) (hwin : ans.isWindow = true)
    (hw : Waited ans hwnd waitMs 2 0 (true, asked, read)) :
    Outcome ans useAttach (some hwnd) waitMs ⟨true, asked, read, requestCalls ans useAttach hwnd⟩ := by
  refine ⟨verified_of_waited hw, ?_, attached_request ans useAttach hwnd, fun _ hm _ _ _ => mem_requestCalls hm, nofun⟩
  exact fun h => absurd (h hwnd rfl hwin) hne

theorem outcome_second {hwnd : Hwnd} {asked read asked' read' : Nat} {ok : Bool} (hne : ans.foreground 0 ≠ some hwnd)
    (hwin : ans.isWindow = true) (hw : Waited ans hwnd waitMs 2 0 (false, asked, read))
    (hw' : Waited ans hwnd waitMs asked read (ok, asked', read')) :
    Outcome ans useAttach (some hwnd) waitMs
      ⟨ok, asked', read', requestCalls ans useAttach hwnd ++ [⟨.switchTo hwnd, asked, read⟩]⟩ := by
  refine ⟨verified_of_waited hw', fun h => absurd (h hwnd rfl hwin) hne, ?_, ?_, ?_⟩
  · rw [List.map_append]
    exact run_append_some.2 ⟨[], attached_request ans useAttach hwnd, rfl⟩
  · intro m hm thread other ok' h
    rcases List.mem_append.1 hm with hm | hm
    · exact mem_requestCalls hm h
    · rw [List.mem_singleton.1 hm] at h
      cases h
  · intro hok _ he _
    cases he
    obtain ⟨(hread : 1 < read), hover⟩ := hw.late rfl
    obtain ⟨hread', hover'⟩ := hw'.late hok
    exact ⟨_, _, rfl, rfl, fun m hm => read_requestCalls hm, ⟨_, setForeground_mem ans useAttach hwnd, rfl⟩,
      by dsimp only; omega, hover, hread', hover'⟩

/-- The clock passes the deadline of a wait that starts at its `k`-th reading. -/
def Passes (ans : Answers) (waitMs : UInt32) (k n : Nat) : Prop :=
  k < n ∧ ¬ ans.clock n < deadlineAt (ans.clock k) ans.frequency waitMs

theorem wait_ends {n read : Nat} (hp : Passes ans waitMs read n) (hwnd : Hwnd) (asked : Nat) :
    ∃ r, Waited ans hwnd waitMs asked read r ∧ r.2.2 ≤ n + 1 ∧
      ∀ fuel, n ≤ fuel → waitUntilForeground ans hwnd waitMs fuel asked read = some r := by
  obtain ⟨r, hr, hle⟩ := wait_total hwnd asked hp.1 hp.2
  exact ⟨r, wait_spec hr, hle, fun fuel hf => wait_mono hr hf⟩

theorem outcome_total {n : Nat} (hfirst : Passes ans waitMs 0 n) (hsecond : ∀ k ≤ n + 1, ∃ m, Passes ans waitMs k m)
    (target : Option Hwnd) :
    ∃ r, (∃ fuel, ∀ fuel', fuel ≤ fuel' → bringToForeground ans useAttach target waitMs fuel' = some r) ∧
      Outcome ans useAttach target waitMs r := by
  cases target with
  | none => exact ⟨_, ⟨0, fun _ _ => rfl⟩, outcome_at_once (by simp) nofun⟩
  | some hwnd =>
    by_cases hwin : ans.isWindow = true
    · by_cases hfg : ans.foreground 0 = some hwnd
      · refine ⟨⟨true, 1, 0, []⟩, ⟨0, fun _ _ => ?_⟩, outcome_at_once (by simp [hfg]) nofun⟩
        rw [bringToForeground, if_neg (not_not.2 hwin), if_pos hfg]
      · obtain ⟨⟨ok, asked, read⟩, hw, hread, hfuel⟩ := wait_ends hfirst hwnd 2
        cases ok with
        | true =>
          refine ⟨_, ⟨n, fun fuel' hf => ?_⟩, outcome_first hfg hwin hw⟩
          rw [bringToForeground, if_neg (not_not.2 hwin), if_neg hfg]
          simp only [hfuel fuel' hf]
        | false =>
          obtain ⟨m, hm⟩ := hsecond read hread
          obtain ⟨⟨ok', asked', read'⟩, hw', -, hfuel'⟩ := wait_ends hm hwnd asked
          refine ⟨_, ⟨max n m, fun fuel' hf => ?_⟩, outcome_second hfg hwin hw hw'⟩
          rw [bringToForeground, if_neg (not_not.2 hwin), if_neg hfg]
          simp only [hfuel fuel' (le_trans (le_max_left _ _) hf), hfuel' fuel' (le_trans (le_max_right _ _) hf)]
    · refine ⟨_, ⟨0, fun _ _ => by rw [bringToForeground, if_pos hwin]⟩, outcome_at_once (by simp) ?_⟩
      exact fun _ _ _ => Bool.eq_false_iff.2 hwin

/-- A verified answer is the one of the broadcaster's model. -/
theorem modelled_of_verified {target : Option Hwnd} {r : Focused}
    (h : r.ok = true ↔ ∃ hwnd, target = some hwnd ∧ 0 < r.asked ∧ ans.foreground (r.asked - 1) = some hwnd) (env : Env)
    (os : Os) (he : env.focus os.focusCalls = r.seen ans) : (MultiMadness.bringToForeground env os target).2 = r.ok := by
  rw [Bool.eq_iff_iff, h, Broadcaster.bringToForeground_iff, he, Focused.seen]
  by_cases h0 : r.asked = 0
  · simp [h0]
  · simp [h0, Nat.pos_of_ne_zero h0]

end Call

/-- Whatever the system answers, a call ends when the clock passes the deadlines
of its waits. Its answer is the one of the broadcaster's model, for the window
that was in the foreground last. -/
theorem focus_outcome (ans : Answers) (useAttach : Bool) (target : Option Hwnd) (waitMs : UInt32) (n : Nat)
    (hfirst : Passes ans waitMs 0 n) (hsecond : ∀ k ≤ n + 1, ∃ m, Passes ans waitMs k m) :
    ∃ r, (∃ fuel, ∀ fuel', fuel ≤ fuel' → bringToForeground ans useAttach target waitMs fuel' = some r) ∧
      Outcome ans useAttach target waitMs r ∧
      ∀ env os, env.focus os.focusCalls = r.seen ans → (MultiMadness.bringToForeground env os target).2 = r.ok := by
  obtain ⟨r, hr, ho⟩ := outcome_total hfirst hsecond target
  exact ⟨r, hr, ho, modelled_of_verified ho.verified⟩

/-- The target never gets the focus; the counter runs at ten megahertz and is read every two milliseconds. -/
def refusing : Answers where
  foreground := fun _ => some 7
  clock n := UInt64.ofNat (20000 * n)
  frequency := 10000000

theorem focus_outcome_refusing :
    ∃ r, (∃ fuel, ∀ fuel', fuel ≤ fuel' → bringToForeground refusing true (some 9) 5 fuel' = some r) ∧
      Outcome refusing true (some 9) 5 r ∧
      ∀ env os, env.focus os.focusCalls = r.seen refusing → (MultiMadness.bringToForeground env os (some 9)).2 = r.ok :=
  focus_outcome refusing true (some 9) 5 3 (by constructor <;> decide) fun k hk =>
    have hpass : ∀ k ≤ 4, ¬ refusing.clock (k + 3) < deadlineAt (refusing.clock k) refusing.frequency 5 := by decide
    ⟨k + 3, by omega, hpass k hk⟩

/-! ## The foreground lock -/

/-- `ForegroundLockGuard`. -/
structure LockGuard where
  previous : UInt32 := 0
  applied : Bool := false

namespace LockGuard

/-- The constructor: the guard, and the system's timeout after it. -/
def take (gets sets : Bool) (timeout : UInt32) : LockGuard × UInt32 :=
  if gets then (⟨timeout, sets⟩, if sets then 0 else timeout) else ({}, timeout)

/-- The destructor. -/
def release (g : LockGuard) (sets : Bool) (timeout : UInt32) : UInt32 :=
  if g.applied ∧ sets then g.previous else timeout

/-- A guard that was applied gives back what it found, whatever the timeout is by then. -/
theorem roundtrip {gets sets : Bool} {timeout : UInt32} (h : (take gets sets timeout).1.applied = true) (now : UInt32) :
    (take gets sets timeout).1.release true now = timeout := by
  cases gets with
  | false => cases h
  | true => exact if_pos ⟨h, rfl⟩

end LockGuard

end Focus

end MultiMadness
