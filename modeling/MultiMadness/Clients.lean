import MultiMadness.Launcher
import MultiMadness.Options
import MultiMadness.RunLib.Family
/-!
# The clients of a run

`cmd_run` gets its clients in three ways: it launches one, adopts a process or
adopts a window. Each client has a kernel of its own, as far as this program's
handles go. A client without a window is skipped, and its handles are closed at
once; those of the others are closed when the session goes.

- `acquire_left`: what is open after a client has been asked for.
- `running_left`: the calls while the session runs leave all that alone.
- `clients_released`: every handle is closed exactly once, and none is used
  after it; no adopted client is ever ended.
-/

namespace MultiMadness

open RunLib

def slavePolicyOf (args : Args) : ProcessPolicy where
  priority :=
    let prio := args.getOr "slave-priority".toList "below".toList
    if prio = "idle".toList then .idle else if prio = "normal".toList then .normal else .belowNormal
  ecoQos := args.has "slave-eco".toList

/-- The options for one value of `--launch`: the executable, a bar and the arguments. -/
def launchOptionsOf (args : Args) (cpuCap : UInt32) (spec : Token) : LaunchOptions where
  exe := ((spec.idxOf? '|').map spec.take).getD spec
  args := ((spec.idxOf? '|').map fun bar => spec.drop (bar + 1)).getD []
  policy := slavePolicyOf args
  cpuCapPercent := cpuCap
  killOnJobClose := args.has "kill-on-exit".toList

namespace Clients

/-! ## The system -/

/-- The calls on the handles of one client. -/
inductive Call where
  /-- One of those that `launch` and `apply_policy` make, or a close. -/
  | of (call : SystemCall)
  | openProcess (ok : Bool)
  /-- `WaitForSingleObject` on the process, without waiting. -/
  | askExited
deriving DecidableEq

def step (k : Kernel) : Call → Option Kernel
  | .of call => Kernel.step k call
  | .openProcess ok => some (if ok then { k with handles := .process :: k.handles } else k)
  | .askExited => if .process ∈ k.handles then some k else none

/-! ## `cmd_run` -/

/-- One way to a client, with what the system answers and how a client that runs
already was scheduled. The wait for its window asks the process `asks` times
whether it has exited. -/
inductive Source where
  | launch (spec : Token) (ans : LaunchAnswers) (asks : Nat) (window : Option Hwnd)
  | adopt (was : Scheduling) (opened : Bool) (asks : Nat) (window : Option Hwnd)
  | adoptHwnd (was : Scheduling) (hwnd : Hwnd) (isWindow opened : Bool)

def Source.adopted : Source → Bool
  | .launch .. => false
  | .adopt .. | .adoptHwnd .. => true

/-- An adopted client runs, and is in no job of this program. -/
def Source.before : Source → Kernel
  | .launch .. => {}
  | .adopt was .. | .adoptHwnd was .. => { client := some { suspended := false, scheduling := was } }

/-- An instance, and the handles it owns. -/
structure Owned where
  hwnd : Hwnd
  process : Bool
  job : Bool
deriving DecidableEq

/-- The members of an instance are destroyed last to first. -/
def closing (process job : Bool) : List Call :=
  (if job then [.of (.close .job)] else []) ++ if process then [.of (.close .process)] else []

/-- The command line, and the number its `--slave-cpu-cap` is read as. -/
structure Options where
  args : Args
  cpuCap : UInt32

def Options.launch (o : Options) (spec : Token) : LaunchOptions := launchOptionsOf o.args o.cpuCap spec

/-- The body of the loop over `--launch`, `--adopt` or `--adopt-hwnd`. -/
def acquire (o : Options) : Source → List Call × Option Owned
  | .launch spec ans asks window =>
    let l := MultiMadness.launch ans (o.launch spec) ""
    match l.result with
    | none => (l.calls.map .of, none)
    | some _ =>
      let calls := l.calls.map .of ++ List.replicate asks .askExited
      match window with
      | none => (calls ++ closing true true, none)
      | some hwnd => (calls, some ⟨hwnd, true, true⟩)
  | .adopt _ opened asks window =>
    let calls := .openProcess opened :: if opened then List.replicate asks .askExited else []
    match window with
    | none => (calls ++ closing opened false, none)
    | some hwnd => (calls, some ⟨hwnd, opened, false⟩)
  | .adoptHwnd _ hwnd isWindow opened =>
    if isWindow then ([.openProcess opened], some ⟨hwnd, opened, false⟩) else ([], none)

/-- What a thread does to the processes of the session, under its mutex. -/
inductive Turn where
  /-- `apply_layout_and_policy`. -/
  | policies (master : Nat) (answers : Nat → PolicyAnswers)
  /-- The watchdog's section; it passes over what it has seen exit. -/
  | watch (exited : Nat → Bool)

/-- The calls for the `n`-th instance, if it has a process. -/
def Turn.calls (o : Options) (n : Nat) : Turn → List Call
  | .policies master answers => (policyCalls (answers n) (if n = master then {} else slavePolicyOf o.args)).map .of
  | .watch exited => if exited n then [] else [.askExited]

section Run
variable (o : Options) (sources : List Source)

/-- What the program finds. -/
def before (i : Nat) : Kernel := (sources[i]?.map Source.before).getD {}

def acquiring : List (Nat × Call) := sources.zipIdx.flatMap fun s => (acquire o s.1).1.map (s.2, ·)

/-- The session's instances, each with the source it is from. -/
def instances : List (Nat × Owned) := sources.zipIdx.filterMap fun s => (acquire o s.1).2.map (s.2, ·)

/-- Until the threads stop; without an instance, or with more than 32, they never start. -/
def running (turns : List Turn) : List (Nat × Call) :=
  if (instances o sources).length = 0 ∨ (instances o sources).length > 32 then []
  else turns.flatMap fun turn => (instances o sources).zipIdx.flatMap fun inst =>
    (if inst.1.2.process then turn.calls o inst.2 else []).map (inst.1.1, ·)

/-- The session's destructor. -/
def releasing : List (Nat × Call) :=
  (instances o sources).flatMap fun inst => (closing inst.2.process inst.2.job).map (inst.1, ·)

end Run

/-! ## What a source leaves -/

def Owned.handles (owned : Owned) : List HandleOf :=
  (if owned.job then [.job] else []) ++ if owned.process then [.process] else []

/-- A launched client is in its job, and goes with it when the job's last handle is closed. -/
structure Launched (o : Options) (spec : Token) (ans : LaunchAnswers) (closed : Bool) (k : Kernel) : Prop where
  job : k.job = some (wantedJob (o.launch spec))
  client : ∃ c, k.client = some c ∧ c.inJob = true ∧ c.suspended = !ans.resumes ∧
    c.terminated = (closed && o.args.has "kill-on-exit".toList)

/-- What `launch` has left, whether or not it has succeeded. -/
def LaunchLeft (o : Options) (spec : Token) (ans : LaunchAnswers) (closed : Bool) (k : Kernel) : Prop :=
  match (launch ans (o.launch spec) "").result with
  | none => ∀ c, k.client = some c → c.suspended = true ∧ c.terminated = ans.terminates
  | some _ => Launched o spec ans closed k

/-- What an adopted client still is: nobody has ended it, or put it into a job. -/
def Spared (k : Kernel) : Prop := ∃ c, k.client = some c ∧ c.Running ∧ c.inJob = false

/-- What a source has left; `closed` says that the session is over. -/
structure Left (o : Options) (s : Source) (closed : Bool) (k : Kernel) : Prop where
  handles : k.handles = if closed then [] else ((acquire o s).2.map Owned.handles).getD []
  launch : ∀ spec ans asks window, s = .launch spec ans asks window →
    LaunchLeft o spec ans (closed || window.isNone) k
  adopt : s.adopted = true → Spared k

/-! ## One client -/

theorem run_of (k : Kernel) (calls : List SystemCall) : run step k (calls.map .of) = run Kernel.step k calls := by
  induction calls generalizing k with
  | nil => rfl
  | cons call calls ih =>
    rw [List.map_cons, run_cons, run_cons]
    exact congrArg _ (funext ih)

theorem run_asks {k : Kernel} (hp : .process ∈ k.handles) (asks : Nat) :
    run step k (List.replicate asks .askExited) = some k := by
  induction asks with
  | zero => rfl
  | succ asks ih => exact run_cons_some.2 ⟨k, if_pos hp, ih⟩

/-- The destructor of a launched instance. -/
theorem launched_closed {o : Options} {spec : Token} {ans : LaunchAnswers} {k : Kernel}
    (hh : k.handles = [.job, .process]) (hl : Launched o spec ans false k) :
    ∃ k', run step k (closing true true) = some k' ∧ k'.handles = [] ∧ Launched o spec ans true k' := by
  obtain ⟨client, job, handles⟩ := k
  obtain ⟨hj, c, hc, hin, hs, hterm⟩ := hl
  dsimp only at hh hj hc
  subst hh hj hc
  refine ⟨_, rfl, rfl, rfl, _, rfl, hin, hs, ?_⟩
  simp only [hin, hterm, Bool.false_and, Bool.false_or, Bool.true_and]
  rfl

/-- The loop over `--launch`, where `launch` succeeds. -/
theorem acquire_launched {o : Options} {spec : Token} {ans : LaunchAnswers} {l : MultiMadness.Launched}
    (hr : (launch ans (o.launch spec) "").result = some l) (asks : Nat) (window : Option Hwnd) :
    acquire o (.launch spec ans asks window) =
      ((launch ans (o.launch spec) "").calls.map .of ++ List.replicate asks .askExited ++
          (if window.isNone then closing true true else []),
        window.map fun hwnd => ⟨hwnd, true, true⟩) := by
  simp only [acquire, hr]
  cases window <;> simp

theorem spared_before {s : Source} (hs : s.adopted = true) (handles : List HandleOf) :
    Spared { s.before with handles := handles } := by
  cases s with
  | launch => cases hs
  | adopt was => exact ⟨_, rfl, ⟨rfl, rfl⟩, rfl⟩
  | adoptHwnd was => exact ⟨_, rfl, ⟨rfl, rfl⟩, rfl⟩

theorem left_of_adopted {o : Options} {s : Source} {closed : Bool} {k : Kernel} (hs : s.adopted = true)
    (hh : k.handles = if closed then [] else ((acquire o s).2.map Owned.handles).getD []) (hk : Spared k) :
    Left o s closed k := by
  refine ⟨hh, ?_, fun _ => hk⟩
  rintro _ _ _ _ rfl
  cases hs

/-- After a source has been asked for its client. -/
theorem acquire_left (o : Options) (s : Source) : ∃ k, run step s.before (acquire o s).1 = some k ∧ Left o s false k := by
  cases s with
  | launch spec ans asks window =>
    obtain ⟨k, hrun, hout⟩ := launch_left ans (o.launch spec)
    rw [← run_of] at hrun
    unfold LaunchOutcome at hout
    cases hr : (launch ans (o.launch spec) "").result with
    | none =>
      rw [hr] at hout
      have hacq : acquire o (.launch spec ans asks window) = ((launch ans (o.launch spec) "").calls.map .of, none) := by
        simp only [acquire, hr]
      rw [hacq]
      refine ⟨k, hrun, by rw [hacq]; exact hout.handles, ?_, nofun⟩
      rintro _ _ _ _ ⟨⟩
      rw [LaunchLeft, hr]
      exact hout.client
    | some l =>
      rw [hr] at hout
      have hopen : Launched o spec ans false k := ⟨hout.job, _, hout.client, rfl, rfl, rfl⟩
      have hasks := run_append_some.2 ⟨k, hrun, run_asks (by rw [hout.handles]; simp) asks⟩
      have hacq := acquire_launched hr asks window
      rw [hacq]
      cases window with
      | none =>
        obtain ⟨k', hclose, hh, hl⟩ := launched_closed hout.handles hopen
        refine ⟨k', run_append_some.2 ⟨k, hasks, hclose⟩, by rw [hacq]; exact hh, ?_, nofun⟩
        rintro _ _ _ _ ⟨⟩
        rw [LaunchLeft, hr]
        exact hl
      | some hwnd =>
        refine ⟨k, run_append_some.2 ⟨k, hasks, rfl⟩, by rw [hacq]; exact hout.handles, ?_, nofun⟩
        rintro _ _ _ _ ⟨⟩
        rw [LaunchLeft, hr]
        exact hopen
  | adopt was opened asks window =>
    have hspared := @spared_before (.adopt was opened asks window) rfl
    cases opened with
    | false =>
      cases window with
      | none => exact ⟨_, rfl, left_of_adopted rfl rfl (hspared [])⟩
      | some hwnd => exact ⟨_, rfl, left_of_adopted rfl rfl (hspared [])⟩
    | true =>
      have hasks : ∀ k : Kernel, run step k (.openProcess true :: List.replicate asks .askExited) =
          some { k with handles := .process :: k.handles } :=
        fun k => run_cons_some.2 ⟨_, rfl, run_asks List.mem_cons_self asks⟩
      cases window with
      | none => exact ⟨_, run_append_some.2 ⟨_, hasks _, rfl⟩, left_of_adopted rfl rfl (hspared [])⟩
      | some hwnd => exact ⟨_, hasks _, left_of_adopted rfl rfl (hspared [.process])⟩
  | adoptHwnd was hwnd isWindow opened =>
    have hspared := @spared_before (.adoptHwnd was hwnd isWindow opened) rfl
    cases isWindow with
    | false => exact ⟨_, rfl, left_of_adopted rfl rfl (hspared [])⟩
    | true =>
      cases opened with
      | false => exact ⟨_, rfl, left_of_adopted rfl rfl (hspared [])⟩
      | true => exact ⟨_, rfl, left_of_adopted rfl rfl (hspared [.process])⟩

/-- The calls of a turn change at most the scheduling of the client. -/
theorem turn_run (o : Options) (n : Nat) (turn : Turn) {k : Kernel} (hp : .process ∈ k.handles) :
    ∃ f : Scheduling → Scheduling, run step k (turn.calls o n) =
      some { k with client := k.client.map fun c => { c with scheduling := f c.scheduling } } := by
  cases turn with
  | policies master answers =>
    exact ⟨fun sched => sched.under (answers n) (if n = master then {} else slavePolicyOf o.args),
      (run_of k _).trans (applied hp)⟩
  | watch exited =>
    have hid : some k = some { k with client := k.client.map fun c => { c with scheduling := id c.scheduling } } := by
      simp
    refine ⟨id, ?_⟩
    rw [← hid, Turn.calls]
    split
    · rfl
    · exact run_cons_some.2 ⟨k, if_pos hp, rfl⟩

/-- What a source has left does not depend on how its client is scheduled. -/
theorem Left.rescheduled {o : Options} {s : Source} {closed : Bool} {k : Kernel} (h : Left o s closed k)
    (f : Scheduling → Scheduling) :
    Left o s closed { k with client := k.client.map fun c => { c with scheduling := f c.scheduling } } := by
  refine ⟨h.handles, fun spec ans asks window hs => ?_, fun hs => ?_⟩
  · have hl := h.launch spec ans asks window hs
    unfold LaunchLeft at hl ⊢
    split at hl
    · intro c hc
      obtain ⟨b, hb, rfl⟩ := Option.map_eq_some_iff.1 hc
      exact hl b hb
    · obtain ⟨hj, c, hc, hrest⟩ := hl
      exact ⟨hj, { c with scheduling := f c.scheduling }, congrArg (Option.map _) hc, hrest⟩
  · obtain ⟨c, hc, hrest⟩ := h.adopt hs
    exact ⟨{ c with scheduling := f c.scheduling }, congrArg (Option.map _) hc, hrest⟩

/-- The destructor of an adopted instance, which has no job. -/
theorem adopted_closed {o : Options} {s : Source} {k : Kernel} (hs : s.adopted = true) {opened : Bool}
    (hh : k.handles = if opened then [.process] else []) (hk : Spared k) :
    ∃ k', run step k (closing opened false) = some k' ∧ Left o s true k' := by
  cases opened with
  | false => exact ⟨k, rfl, left_of_adopted hs hh hk⟩
  | true =>
    have hclose : Kernel.step k (.close .process) = some { k with handles := k.handles.erase .process } :=
      if_pos (by rw [hh]; simp [Kernel.uses])
    refine ⟨_, run_cons_some.2 ⟨_, hclose, rfl⟩, left_of_adopted hs ?_ hk⟩
    rw [hh]
    rfl

/-- The session's end, for one source. -/
theorem close_left {o : Options} {s : Source} {k : Kernel} (h : Left o s false k) :
    ∃ k', run step k (((acquire o s).2.map fun owned => closing owned.process owned.job).getD []) = some k' ∧
      Left o s true k' := by
  have hhandles := h.handles
  cases s with
  | launch spec ans asks window =>
    have hleft := h.launch spec ans asks window rfl
    unfold LaunchLeft at hleft
    cases hr : (launch ans (o.launch spec) "").result with
    | none =>
      have hacq : (acquire o (.launch spec ans asks window)).2 = none := by simp only [acquire, hr]
      rw [hacq] at hhandles ⊢
      rw [hr] at hleft
      refine ⟨k, rfl, hhandles, ?_, nofun⟩
      rintro _ _ _ _ ⟨⟩
      rw [LaunchLeft, hr]
      exact hleft
    | some l =>
      rw [acquire_launched hr asks window] at hhandles ⊢
      rw [hr] at hleft
      cases window with
      | none =>
        refine ⟨k, rfl, hhandles, ?_, nofun⟩
        rintro _ _ _ _ ⟨⟩
        rw [LaunchLeft, hr]
        exact hleft
      | some hwnd =>
        obtain ⟨k', hclose, hh, hl⟩ := launched_closed hhandles hleft
        refine ⟨k', hclose, hh, ?_, nofun⟩
        rintro _ _ _ _ ⟨⟩
        rw [LaunchLeft, hr]
        exact hl
  | adopt was opened asks window =>
    have hspared := h.adopt rfl
    cases window with
    | none => exact ⟨k, rfl, left_of_adopted rfl hhandles hspared⟩
    | some hwnd => exact adopted_closed rfl (hhandles.trans (List.nil_append _)) hspared
  | adoptHwnd was hwnd isWindow opened =>
    have hspared := h.adopt rfl
    cases isWindow with
    | false => exact ⟨k, rfl, left_of_adopted rfl hhandles hspared⟩
    | true => exact adopted_closed rfl (hhandles.trans (List.nil_append _)) hspared

/-! ## All clients -/

section Run
variable {o : Options} {sources : List Source} {i : Nat}

theorem mem_instances {owned : Owned} :
    (i, owned) ∈ instances o sources ↔ ∃ s, sources[i]? = some s ∧ (acquire o s).2 = some owned := by
  unfold instances
  rw [List.mem_filterMap]
  constructor
  · rintro ⟨⟨s, j⟩, hmem, hmap⟩
    obtain ⟨owned', ho, heq⟩ := Option.map_eq_some_iff.1 hmap
    cases heq
    exact ⟨s, List.mem_zipIdx_iff_getElem?.1 hmem, ho⟩
  · rintro ⟨s, hs, ho⟩
    exact ⟨(s, i), List.mem_zipIdx_iff_getElem?.2 hs, by rw [ho]; rfl⟩

theorem stepsOf_acquiring : stepsOf i (acquiring o sources) = (sources[i]?.map fun s => (acquire o s).1).getD [] :=
  stepsOf_zipIdx i (fun s => (acquire o s).1) sources

theorem stepsOf_releasing : stepsOf i (releasing o sources) =
    (sources[i]?.map fun s => ((acquire o s).2.map fun owned => closing owned.process owned.job).getD []).getD [] := by
  rw [← stepsOf_zipIdx i (fun s => ((acquire o s).2.map fun owned => closing owned.process owned.job).getD []) sources]
  refine congrArg (stepsOf i) ?_
  unfold releasing instances
  induction sources.zipIdx with
  | nil => rfl
  | cons s rest ih =>
    rw [List.filterMap_cons, List.flatMap_cons, ← ih]
    cases (acquire o s.1).2 <;> rfl

/-- One turn, for one instance of the session. -/
theorem turn_left {s : Source} {owned : Owned} (ho : (acquire o s).2 = some owned) {k : Kernel} (h : Left o s false k)
    (n : Nat) (turn : Turn) :
    ∃ k', run step k (if owned.process then turn.calls o n else []) = some k' ∧ Left o s false k' := by
  cases hp : owned.process with
  | false => exact ⟨k, rfl, h⟩
  | true =>
    have hmem : HandleOf.process ∈ k.handles := by
      rw [h.handles, ho]
      simp [Owned.handles, hp]
    obtain ⟨f, hf⟩ := turn_run o n turn hmem
    exact ⟨_, hf, h.rescheduled f⟩

/-- What the source of this number has left, if there is one. -/
def LeftAt (o : Options) (sources : List Source) (i : Nat) (closed : Bool) (k : Kernel) : Prop :=
  ∀ s, sources[i]? = some s → Left o s closed k

theorem acquiring_left :
    ∃ k, run step (before sources i) (stepsOf i (acquiring o sources)) = some k ∧ LeftAt o sources i false k := by
  rw [stepsOf_acquiring]
  unfold LeftAt before
  cases sources[i]? with
  | none => exact ⟨{}, rfl, fun s hs => by cases hs⟩
  | some s =>
    obtain ⟨k, hrun, hleft⟩ := acquire_left o s
    refine ⟨k, hrun, fun t ht => ?_⟩
    cases ht
    exact hleft

/-- While the session runs, a source keeps what it has left. -/
theorem running_left {k : Kernel} (h : LeftAt o sources i false k) (turns : List Turn) :
    ∃ k', run step k (stepsOf i (running o sources turns)) = some k' ∧ LeftAt o sources i false k' := by
  unfold running
  split
  · exact ⟨k, rfl, h⟩
  · rw [stepsOf, List.filterMap_flatMap]
    refine run_parts (LeftAt o sources i false) (fun turn _ k hk => ?_) h
    have hsteps := stepsOf_flatMap i (fun inst : (Nat × Owned) × Nat => inst.1.1)
      (fun inst => if inst.1.2.process then turn.calls o inst.2 else []) (instances o sources).zipIdx
    rw [stepsOf] at hsteps
    rw [hsteps]
    refine run_parts (LeftAt o sources i false) (fun inst hinst k hk => ?_) hk
    obtain ⟨⟨j, owned⟩, n⟩ := inst
    obtain ⟨hmem, hi⟩ := List.mem_filter.1 hinst
    obtain rfl : j = i := by simpa using hi
    obtain ⟨s, hs, ho⟩ := mem_instances.1 (List.fst_mem_of_mem_zipIdx hmem)
    obtain ⟨k', hrun, hleft⟩ := turn_left ho (hk s hs) n turn
    refine ⟨k', hrun, fun t ht => ?_⟩
    cases hs.symm.trans ht
    exact hleft

theorem releasing_left {k : Kernel} (h : LeftAt o sources i false k) :
    ∃ k', run step k (stepsOf i (releasing o sources)) = some k' ∧ LeftAt o sources i true k' := by
  rw [stepsOf_releasing]
  unfold LeftAt at h ⊢
  cases hs : sources[i]? with
  | none => exact ⟨k, rfl, fun s hs => by cases hs⟩
  | some s =>
    obtain ⟨k', hrun, hleft⟩ := close_left (h s hs)
    refine ⟨k', hrun, fun t ht => ?_⟩
    cases ht
    exact hleft

end Run

/-- Whatever the command line asks for and however the system answers, a run uses
and closes open handles only, and closes every one of them. It ends no client that
has a window before its own end; the launched ones then go with their jobs, if asked to,
and the adopted ones go on running. -/
theorem clients_released (o : Options) (sources : List Source) (turns : List Turn) :
    ∃ k k', run (familyStep step) (before sources) (acquiring o sources ++ running o sources turns) = some k ∧
      run (familyStep step) k (releasing o sources) = some k' ∧
      ∀ i s, sources[i]? = some s → Left o s false (k i) ∧ Left o s true (k' i) := by
  have hopen : ∀ i, ∃ k, run step (before sources i) (stepsOf i (acquiring o sources ++ running o sources turns)) = some k ∧
      LeftAt o sources i false k := by
    intro i
    obtain ⟨k, hrun, hleft⟩ := @acquiring_left o sources i
    obtain ⟨k', hrun', hleft'⟩ := running_left hleft turns
    exact ⟨k', by rw [stepsOf_append]; exact run_append_some.2 ⟨k, hrun, hrun'⟩, hleft'⟩
  choose k hk hleft using hopen
  choose k' hk' hleft' using fun i => releasing_left (hleft i)
  exact ⟨k, k', run_family.2 hk, run_family.2 hk', fun i s hs => ⟨hleft i s hs, hleft' i s hs⟩⟩

end Clients

end MultiMadness
