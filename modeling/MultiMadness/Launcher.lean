import MultiMadness.RunLib.Runs
/-!
# Launching a client

`launcher.cpp`: `launch` creates the client suspended, puts it into a job with
the requested limits, sets its policy and resumes it. The operating system is a
step function over the calls that `launch` makes; a call whose handle is not
open is no step, and a call that fails changes nothing.

- `configured`, `applied`: what the calls of a part do.
- `launch_outcome`: what a call of `launch` leaves, whichever of its calls fail.
-/

namespace MultiMadness

open RunLib

inductive Priority where
  | normal
  | belowNormal
  | idle
  | aboveNormal
deriving DecidableEq

def priorityClass : Priority → UInt32
  | .belowNormal => 0x00004000
  | .idle => 0x00000040
  | .aboveNormal => 0x00008000
  | .normal => 0x00000020

structure ProcessPolicy where
  priority : Priority := .normal
  ecoQos : Bool := false
  /-- 0 leaves the affinity unchanged. -/
  affinityMask : UInt64 := 0
deriving DecidableEq

structure LaunchOptions where
  exe : List Char
  args : List Char := []
  /-- Empty means the directory of the executable. -/
  cwd : List Char := []
  policy : ProcessPolicy := {}
  /-- A share of the whole system's CPU time; 0 means no cap. -/
  cpuCapPercent : UInt32 := 0
  memoryLimitBytes : UInt64 := 0
  killOnJobClose : Bool := false

/-! ## The operating system -/

inductive HandleOf where
  | process
  | thread
  | job
deriving DecidableEq

/-- The calls of `launch`, and whether they succeed. -/
inductive SystemCall where
  | createProcess (cmd cwd : List Char) (breakaway ok : Bool)
  | createJob (ok : Bool)
  | setLimits (killOnJobClose : Bool) (memory : Option UInt64) (ok : Bool)
  | setCpuRate (rate : UInt32) (ok : Bool)
  | assign (ok : Bool)
  | setPriorityClass (value : UInt32) (ok : Bool)
  | setThrottling (on ok : Bool)
  | setAffinity (mask : UInt64) (ok : Bool)
  | resume (ok : Bool)
  | terminate (ok : Bool)
  | close (h : HandleOf)
deriving DecidableEq

structure JobLimits where
  killOnJobClose : Bool := false
  memory : Option UInt64 := none
  /-- Hundredths of a percent. -/
  cpuRate : Option UInt32 := none
deriving DecidableEq

/-- How a process is scheduled. -/
structure Scheduling where
  priorityClass : UInt32 := 0x00000020
  throttled : Bool := false
  affinity : UInt64 := 0xFFFFFFFFFFFFFFFF
deriving DecidableEq

structure Client where
  suspended : Bool := true
  inJob : Bool := false
  terminated : Bool := false
  scheduling : Scheduling := {}
deriving DecidableEq

def Client.Running (c : Client) : Prop := c.suspended = false ∧ c.terminated = false

instance (c : Client) : Decidable c.Running := inferInstanceAs (Decidable (_ ∧ _))

/-- What one call of `launch` can see of the system. -/
structure Kernel where
  client : Option Client := none
  job : Option JobLimits := none
  handles : List HandleOf := []
deriving DecidableEq

namespace Scheduling

def after (s : Scheduling) : SystemCall → Scheduling
  | .setPriorityClass value true => { s with priorityClass := value }
  | .setThrottling on true => { s with throttled := on }
  | .setAffinity mask true => { s with affinity := mask }
  | _ => s

end Scheduling

namespace Kernel

/-- The handles a call uses. -/
def uses : SystemCall → List HandleOf
  | .createProcess .. | .createJob _ => []
  | .setLimits .. | .setCpuRate .. => [.job]
  | .assign _ => [.job, .process]
  | .setPriorityClass .. | .setThrottling .. | .setAffinity .. | .terminate _ => [.process]
  | .resume _ => [.thread]
  | .close h => [h]

def effect (k : Kernel) (call : SystemCall) : Kernel :=
  match call with
  | .createProcess _ _ _ ok =>
    if ok then { k with client := some {}, handles := .process :: .thread :: k.handles } else k
  | .createJob ok => if ok then { k with job := some {}, handles := .job :: k.handles } else k
  | .setLimits kill memory ok =>
    if ok then { k with job := k.job.map fun j => { j with killOnJobClose := kill, memory := memory } } else k
  | .setCpuRate rate ok => if ok then { k with job := k.job.map fun j => { j with cpuRate := some rate } } else k
  | .assign ok => if ok then { k with client := k.client.map fun c => { c with inJob := true } } else k
  | .resume ok => if ok then { k with client := k.client.map fun c => { c with suspended := false } } else k
  | .terminate ok => if ok then { k with client := k.client.map fun c => { c with terminated := true } } else k
  | .close .job =>
    -- The last handle of the job.
    { k with
      client := k.client.map fun c =>
        { c with terminated := c.terminated || (c.inJob && (k.job.map (·.killOnJobClose)).getD false) }
      handles := k.handles.erase .job }
  | .close .process => { k with handles := k.handles.erase .process }
  | .close .thread => { k with handles := k.handles.erase .thread }
  | .setPriorityClass .. | .setThrottling .. | .setAffinity .. =>
    { k with client := k.client.map fun c => { c with scheduling := c.scheduling.after call } }

def step (k : Kernel) (call : SystemCall) : Option Kernel :=
  if ∀ h ∈ uses call, h ∈ k.handles then some (k.effect call) else none

end Kernel

/-! ## `launch` -/

/-- The answers to the calls of `apply_policy`; an error has the message of
`last_error_message`. -/
structure PolicyAnswers where
  priority : Option String := none
  throttling : Option String := none
  affinity : Option String := none

structure LaunchAnswers where
  /-- With whether the error is `ERROR_ACCESS_DENIED`. -/
  create : Option (Bool × String) := none
  retry : Option String := none
  createJob : Option String := none
  limits : Option String := none
  cpuRate : Option String := none
  assign : Option String := none
  policy : PolicyAnswers := {}
  resumes : Bool := true
  terminates : Bool := true
  pid : UInt32 := 0

/-- `Launched`; its handles are those of the process and of the job. -/
structure Launched where
  pid : UInt32
deriving DecidableEq

structure Launch where
  calls : List SystemCall
  result : Option Launched
  error : String

def isSlash (c : Char) : Bool := c = '\\' || c = '/'

/-- Up to the last slash or backslash. -/
def exeDirectory (exe : List Char) : List Char :=
  match exe.reverse.dropWhile fun c => !isSlash c with
  | [] => []
  | _ :: rest => rest.reverse

/-- The quoted path, then the arguments. -/
def commandLine (opt : LaunchOptions) : List Char :=
  '"' :: opt.exe ++ '"' :: (if opt.args = [] then [] else ' ' :: opt.args)

def workingDirectory (opt : LaunchOptions) : List Char := if opt.cwd = [] then exeDirectory opt.exe else opt.cwd

/-- Both calls of `CreateProcessW`: the second one does without the breakaway. -/
def createProcess (ans : LaunchAnswers) (opt : LaunchOptions) : List SystemCall × Option String :=
  let call := SystemCall.createProcess (commandLine opt) (workingDirectory opt)
  match ans.create with
  | none => ([call true true], none)
  | some (denied, msg) =>
    if denied then ([call true false, call false ans.retry.isNone], ans.retry) else ([call true false], some msg)

def cpuRate (percent : UInt32) : UInt32 := (if percent > 100 then 100 else percent) * 100

def configureJob (ans : LaunchAnswers) (opt : LaunchOptions) (error : String) : List SystemCall × Bool × String :=
  let limits := SystemCall.setLimits opt.killOnJobClose (if opt.memoryLimitBytes ≠ 0 then some opt.memoryLimitBytes else none)
  match ans.limits with
  | some msg => ([limits false], false, "SetInformationJobObject(ExtendedLimit): " ++ msg)
  | none =>
    if opt.cpuCapPercent ≠ 0 then
      match ans.cpuRate with
      | some msg =>
        ([limits true, .setCpuRate (cpuRate opt.cpuCapPercent) false], false,
          "SetInformationJobObject(CpuRateControl): " ++ msg)
      | none => ([limits true, .setCpuRate (cpuRate opt.cpuCapPercent) true], true, error)
    else ([limits true], true, error)

def policyCalls (ans : PolicyAnswers) (policy : ProcessPolicy) : List SystemCall :=
  [.setPriorityClass (priorityClass policy.priority) ans.priority.isNone,
    .setThrottling policy.ecoQos ans.throttling.isNone] ++
    (if policy.affinityMask ≠ 0 then [.setAffinity policy.affinityMask ans.affinity.isNone] else [])

def policyError (what : String) : Option String → String
  | none => ""
  | some msg => what ++ ": " ++ msg ++ "; "

/-- `apply_policy`; the error is written only when a call has failed. -/
def applyPolicy (ans : PolicyAnswers) (policy : ProcessPolicy) (error : String) : List SystemCall × Bool × String :=
  let ok := ans.priority.isNone && ans.throttling.isNone && (policy.affinityMask = 0 || ans.affinity.isNone)
  let err := policyError "SetPriorityClass" ans.priority ++
    policyError "SetProcessInformation(PowerThrottling)" ans.throttling ++
    (if policy.affinityMask ≠ 0 then policyError "SetProcessAffinityMask" ans.affinity else "")
  (policyCalls ans policy, ok, if ok then error else err)

/-- `configure_job` and then `AssignProcessToJobObject`. -/
def intoJob (ans : LaunchAnswers) (opt : LaunchOptions) (error : String) : List SystemCall × Bool × String :=
  match configureJob ans opt error with
  | (calls, false, error) => (calls, false, error)
  | (calls, true, error) =>
    match ans.assign with
    | some msg => (calls ++ [.assign false], false, if error = "" then "AssignProcessToJobObject: " ++ msg else error)
    | none => (calls ++ [.assign true], true, error)

/-- The handles that go out of scope are closed, the last one first. -/
def launch (ans : LaunchAnswers) (opt : LaunchOptions) (error : String) : Launch :=
  match createProcess ans opt with
  | (create, some msg) => ⟨create, none, "CreateProcess: " ++ msg⟩
  | (create, none) =>
    match ans.createJob with
    | some msg =>
      ⟨create ++ [.createJob false, .terminate ans.terminates, .close .thread, .close .process], none,
        "CreateJobObject: " ++ msg⟩
    | none =>
      match intoJob ans opt error with
      | (calls, false, error) =>
        ⟨create ++ .createJob true :: calls ++
          [.terminate ans.terminates, .close .thread, .close .job, .close .process], none, error⟩
      | (calls, true, error) =>
        let (policy, _, error) := applyPolicy ans.policy opt.policy error
        ⟨create ++ .createJob true :: calls ++ policy ++ [.resume ans.resumes, .close .thread], some ⟨ans.pid⟩, error⟩

/-- A path is its directory, a slash and a file name, or a file name alone. -/
theorem exeDirectory_split (exe : List Char) :
    ∃ name, (∀ c ∈ name, isSlash c = false) ∧
      (exe = name ∧ exeDirectory exe = [] ∨ ∃ slash, isSlash slash = true ∧ exe = exeDirectory exe ++ slash :: name) := by
  have hsplit := congrArg List.reverse (List.takeWhile_append_dropWhile (p := fun c => !isSlash c) (l := exe.reverse))
  rw [List.reverse_append, List.reverse_reverse] at hsplit
  have hhead := List.head?_dropWhile_not (fun c => !isSlash c) exe.reverse
  refine ⟨(exe.reverse.takeWhile fun c => !isSlash c).reverse, ?_, ?_⟩
  · intro c hc
    simpa using List.all_eq_true.1 List.all_takeWhile c (List.mem_reverse.1 hc)
  · unfold exeDirectory
    generalize (exe.reverse.dropWhile fun c => !isSlash c) = dir at hsplit hhead
    cases dir with
    | nil => exact .inl ⟨hsplit.symm, rfl⟩
    | cons slash rest =>
      refine .inr ⟨slash, by simpa using hhead, ?_⟩
      rw [List.reverse_cons, List.append_assoc] at hsplit
      exact hsplit.symm

/-! ## What the parts do -/

/-- The job that `launch` asks for. -/
def wantedJob (opt : LaunchOptions) : JobLimits where
  killOnJobClose := opt.killOnJobClose
  memory := if opt.memoryLimitBytes ≠ 0 then some opt.memoryLimitBytes else none
  cpuRate := if opt.cpuCapPercent ≠ 0 then some (cpuRate opt.cpuCapPercent) else none

/-- The scheduling a policy leaves, which is what its successful calls ask for. -/
def Scheduling.under (s : Scheduling) (ans : PolicyAnswers) (policy : ProcessPolicy) : Scheduling where
  priorityClass := if ans.priority.isNone then MultiMadness.priorityClass policy.priority else s.priorityClass
  throttled := if ans.throttling.isNone then policy.ecoQos else s.throttled
  affinity := if policy.affinityMask ≠ 0 ∧ ans.affinity.isNone then policy.affinityMask else s.affinity

/-- A client runs only inside its job, and that has its limits. -/
def Confined (opt : LaunchOptions) (k : Kernel) : Prop :=
  ∀ c, k.client = some c → c.Running → c.inJob = true ∧ k.job = some (wantedJob opt)

theorem policyCalls_after (ans : PolicyAnswers) (policy : ProcessPolicy) (s : Scheduling) :
    (policyCalls ans policy).foldl Scheduling.after s = s.under ans policy := by
  unfold policyCalls Scheduling.under
  cases ans.priority.isNone <;> cases ans.throttling.isNone <;> by_cases hm : policy.affinityMask = 0 <;>
    cases ans.affinity.isNone <;> simp [hm, Scheduling.after]

/-- The calls of `apply_policy` change the client's scheduling alone. -/
theorem applied {ans : PolicyAnswers} {policy : ProcessPolicy} {k : Kernel} (hp : .process ∈ k.handles) :
    run Kernel.step k (policyCalls ans policy) =
      some { k with client := k.client.map fun c => { c with scheduling := c.scheduling.under ans policy } } := by
  have hrun : ∀ (calls : List SystemCall) (k : Kernel), .process ∈ k.handles →
      (∀ call ∈ calls, call ∈ policyCalls ans policy) → run Kernel.step k calls =
        some { k with client := k.client.map fun c => { c with scheduling := calls.foldl Scheduling.after c.scheduling } } := by
    intro calls
    induction calls with
    | nil => intro k _ _; simp
    | cons call calls ih =>
      intro k hp hall
      have hstep : Kernel.step k call =
          some { k with client := k.client.map fun c => { c with scheduling := c.scheduling.after call } } := by
        have hmem := hall call List.mem_cons_self
        simp only [policyCalls, List.mem_append, List.mem_cons, List.not_mem_nil, or_false, List.mem_ite_nil_right] at hmem
        obtain (rfl | rfl) | ⟨-, rfl⟩ := hmem <;> exact if_pos (by simpa [Kernel.uses] using hp)
      rw [run_cons, hstep]
      refine (ih _ (by exact hp) fun c hc => hall c (List.mem_cons_of_mem _ hc)).trans ?_
      simp [Option.map_map, Function.comp_def]
  rw [hrun _ k hp fun _ h => h]
  simp only [policyCalls_after]

/-- Configuring a new job gives it the wanted limits, or an error. -/
theorem configured (ans : LaunchAnswers) (opt : LaunchOptions) (error : String) {k : Kernel}
    (hj : .job ∈ k.handles) (h0 : k.job = some {}) :
    ∃ j, run Kernel.step k (configureJob ans opt error).1 = some { k with job := some j } ∧
      if (configureJob ans opt error).2.1 then j = wantedJob opt ∧ (configureJob ans opt error).2.2 = error
      else (configureJob ans opt error).2.2 ≠ "" := by
  obtain ⟨client, job, handles⟩ := k
  subst h0
  unfold configureJob wantedJob
  cases ans.limits with
  | some msg => exact ⟨{}, by simp [run_cons, Kernel.step, Kernel.uses, Kernel.effect, hj], by simp⟩
  | none =>
    by_cases hc : opt.cpuCapPercent = 0
    · simp [hc, run_cons, Kernel.step, Kernel.uses, Kernel.effect, hj]
    · cases ans.cpuRate with
      | some msg => simp [hc, run_cons, Kernel.step, Kernel.uses, Kernel.effect, hj]
      | none => simp [hc, run_cons, Kernel.step, Kernel.uses, Kernel.effect, hj]

/-- The client is in the job with its limits, or there is an error. -/
theorem intoJob_run (ans : LaunchAnswers) (opt : LaunchOptions) :
    ∃ j, run Kernel.step { client := some {}, job := some {}, handles := [.job, .process, .thread] }
        (intoJob ans opt "").1 =
        some
          { client := some { inJob := (intoJob ans opt "").2.1 }, job := some j, handles := [.job, .process, .thread] } ∧
      if (intoJob ans opt "").2.1 then j = wantedJob opt ∧ (intoJob ans opt "").2.2 = ""
      else (intoJob ans opt "").2.2 ≠ "" := by
  obtain ⟨j, hrun, hj⟩ := configured ans opt ""
    (k := { client := some {}, job := some {}, handles := [.job, .process, .thread] }) (by simp) rfl
  unfold intoJob
  generalize configureJob ans opt "" = configure at hrun hj
  obtain ⟨calls, ok, error⟩ := configure
  cases ok with
  | false => exact ⟨j, hrun, hj⟩
  | true =>
    cases ans.assign with
    | some msg =>
      refine ⟨j, run_append_some.2 ⟨_, hrun, rfl⟩, ?_⟩
      obtain ⟨-, rfl⟩ := hj
      simp
    | none => exact ⟨j, run_append_some.2 ⟨_, hrun, rfl⟩, hj⟩

theorem created (ans : LaunchAnswers) (opt : LaunchOptions) : run Kernel.step {} (createProcess ans opt).1 =
    some (if (createProcess ans opt).2.isNone then { client := some {}, handles := [.process, .thread] } else {}) := by
  unfold createProcess
  obtain - | ⟨denied, msg⟩ := ans.create
  · rfl
  · cases denied with
    | false => rfl
    | true => cases ans.retry <;> rfl

/-! ## Until the client is resumed -/

def Suspended (k : Kernel) : Prop := ∀ c, k.client = some c → c.suspended = true

theorem confined_of_suspended {opt : LaunchOptions} {k : Kernel} (h : Suspended k) : Confined opt k := by
  intro c hc hr
  rw [Client.Running, h c hc] at hr
  cases hr.1

/-- Only resuming the client makes it run. -/
theorem suspended_step {k k' : Kernel} {call : SystemCall} (hk : Suspended k) (hc : call ≠ .resume true)
    (h : Kernel.step k call = some k') : Suspended k' := by
  unfold Kernel.step at h
  split at h
  · cases h
    have hmap : ∀ f : Client → Client, (∀ c, (f c).suspended = c.suspended) →
        ∀ c, k.client.map f = some c → c.suspended = true := by
      intro f hf c hfc
      obtain ⟨b, hb, rfl⟩ := Option.map_eq_some_iff.1 hfc
      rw [hf, hk b hb]
    cases call with
    | createProcess _ _ _ ok =>
      cases ok with
      | false => exact hk
      | true => intro c hc; cases hc; rfl
    | createJob ok | setLimits _ _ ok | setCpuRate _ ok => cases ok <;> exact hk
    | assign ok | terminate ok =>
      cases ok with
      | false => exact hk
      | true => exact hmap _ fun _ => rfl
    | setPriorityClass | setThrottling | setAffinity => exact hmap _ fun _ => rfl
    | resume ok =>
      cases ok with
      | false => exact hk
      | true => exact absurd rfl hc
    | close handle =>
      cases handle with
      | job => exact hmap _ fun _ => rfl
      | process | thread => exact hk
  · cases h

/-- Without a resume the client is suspended in every state of a run. -/
theorem always_suspended {k : Kernel} {calls : List SystemCall} (hk : Suspended k)
    (h : ∀ call ∈ calls, call ≠ .resume true) : Always Kernel.step Suspended k calls :=
  always_of Suspended (fun _ _ _ => suspended_step) hk (allSteps_of_forall h k)

theorem createProcess_waits (ans : LaunchAnswers) (opt : LaunchOptions) :
    ∀ call ∈ (createProcess ans opt).1, call ≠ .resume true := by
  unfold createProcess
  obtain - | ⟨denied, msg⟩ := ans.create
  · simp
  · cases denied <;> simp

theorem configureJob_waits (ans : LaunchAnswers) (opt : LaunchOptions) (error : String) :
    ∀ call ∈ (configureJob ans opt error).1, call ≠ .resume true := by
  unfold configureJob
  cases ans.limits with
  | some msg => simp
  | none =>
    by_cases hc : opt.cpuCapPercent = 0
    · simp [hc]
    · cases ans.cpuRate <;> simp [hc]

theorem intoJob_waits (ans : LaunchAnswers) (opt : LaunchOptions) (error : String) :
    ∀ call ∈ (intoJob ans opt error).1, call ≠ .resume true := by
  have hc := configureJob_waits ans opt error
  unfold intoJob
  generalize configureJob ans opt error = configure at hc
  obtain ⟨calls, ok, error⟩ := configure
  have happend : ∀ ok, ∀ call ∈ calls ++ [SystemCall.assign ok], call ≠ .resume true := by
    intro ok call h
    obtain h | h := List.mem_append.1 h
    · exact hc call h
    · rw [List.mem_singleton.1 h]
      simp
  cases ok with
  | false => exact hc
  | true => cases ans.assign <;> exact happend _

theorem policyCalls_waits (ans : PolicyAnswers) (policy : ProcessPolicy) :
    ∀ call ∈ policyCalls ans policy, call ≠ .resume true := by
  unfold policyCalls
  by_cases hm : policy.affinityMask = 0 <;> simp [hm]

/-! ## The outcome -/

/-- A launch that fails leaves no client that has ever run. -/
structure Abandoned (ans : LaunchAnswers) (l : Launch) (k : Kernel) : Prop where
  handles : k.handles = []
  client : ∀ c, k.client = some c → c.suspended = true ∧ c.terminated = ans.terminates
  told : l.error ≠ ""

/-- A launch that succeeds hands over the client in its job. When the job's
handle is closed at last, the client goes with it or stays, as it was asked. -/
structure Started (ans : LaunchAnswers) (opt : LaunchOptions) (l : Launch) (k : Kernel) : Prop where
  handles : k.handles = [.job, .process]
  job : k.job = some (wantedJob opt)
  client : k.client = some
    { suspended := !ans.resumes, inJob := true, scheduling := ({} : Scheduling).under ans.policy opt.policy }
  /-- In hundredths of a percent, and never more than all of the time. -/
  rate : ∀ j, k.job = some j → (opt.cpuCapPercent = 0 → j.cpuRate = none) ∧
    (opt.cpuCapPercent ≠ 0 → j.cpuRate.map (·.toNat) = some (min opt.cpuCapPercent.toNat 100 * 100))
  priority : ans.policy.priority = none → ∀ c, k.client = some c →
    (opt.policy.priority = .normal → c.scheduling.priorityClass = 0x00000020) ∧
      (opt.policy.priority = .belowNormal → c.scheduling.priorityClass = 0x00004000) ∧
      (opt.policy.priority = .idle → c.scheduling.priorityClass = 0x00000040) ∧
      (opt.policy.priority = .aboveNormal → c.scheduling.priorityClass = 0x00008000)
  told : l.error = "" ↔ ans.policy.priority = none ∧ ans.policy.throttling = none ∧
    (opt.policy.affinityMask = 0 ∨ ans.policy.affinity = none)
  dropped : ∃ k', run Kernel.step k [.close .job, .close .process] = some k' ∧ k'.handles = [] ∧
    k'.client.map (·.terminated) = some opt.killOnJobClose

def LaunchOutcome (ans : LaunchAnswers) (opt : LaunchOptions) (l : Launch) (k : Kernel) : Prop :=
  match l.result with
  | none => Abandoned ans l k
  | some _ => Started ans opt l k

theorem cpuRate_toNat (percent : UInt32) : (cpuRate percent).toNat = min percent.toNat 100 * 100 := by
  unfold cpuRate
  split
  · next h =>
    have hlt : 100 < percent.toNat := UInt32.lt_iff_toNat_lt.1 h
    rw [Nat.min_eq_right (Nat.le_of_lt hlt)]
    rfl
  · next h =>
    have hle : percent.toNat ≤ 100 := UInt32.le_iff_toNat_le.1 (UInt32.not_lt.1 h)
    have hmul : (percent * 100).toNat = percent.toNat * 100 % 4294967296 := UInt32.toNat_mul percent 100
    rw [Nat.min_eq_left hle, hmul]
    omega

theorem wantedJob_rate (opt : LaunchOptions) : (opt.cpuCapPercent = 0 → (wantedJob opt).cpuRate = none) ∧
    (opt.cpuCapPercent ≠ 0 → (wantedJob opt).cpuRate.map (·.toNat) = some (min opt.cpuCapPercent.toNat 100 * 100)) := by
  refine ⟨fun h => if_neg (not_not.2 h), fun h => ?_⟩
  rw [wantedJob, if_pos h, Option.map_some, cpuRate_toNat]

theorem under_priority (s : Scheduling) {ans : PolicyAnswers} (h : ans.priority = none) (policy : ProcessPolicy) :
    (policy.priority = .normal → (s.under ans policy).priorityClass = 0x00000020) ∧
      (policy.priority = .belowNormal → (s.under ans policy).priorityClass = 0x00004000) ∧
      (policy.priority = .idle → (s.under ans policy).priorityClass = 0x00000040) ∧
      (policy.priority = .aboveNormal → (s.under ans policy).priorityClass = 0x00008000) := by
  have hset : (s.under ans policy).priorityClass = priorityClass policy.priority := by rw [Scheduling.under, h]; rfl
  rw [hset]
  cases policy.priority <;> simp [priorityClass]

/-- The policy's error is empty exactly when none of its calls has failed. -/
theorem applyPolicy_error (ans : PolicyAnswers) (policy : ProcessPolicy) : (applyPolicy ans policy "").2.2 = "" ↔
    ans.priority = none ∧ ans.throttling = none ∧ (policy.affinityMask = 0 ∨ ans.affinity = none) := by
  unfold applyPolicy policyError
  cases ans.priority <;> cases ans.throttling <;> by_cases hm : policy.affinityMask = 0 <;> cases ans.affinity <;>
    simp [hm]

/-- The last calls, once the client is in its job. -/
theorem resumed (opt : LaunchOptions) (sched : Scheduling) (ok : Bool) :
    run Kernel.step ⟨some ⟨true, true, false, sched⟩, some (wantedJob opt), [.job, .process, .thread]⟩
        [.resume ok, .close .thread] =
      some ⟨some ⟨!ok, true, false, sched⟩, some (wantedJob opt), [.job, .process]⟩ ∧
    Always Kernel.step (Confined opt) ⟨some ⟨true, true, false, sched⟩, some (wantedJob opt), [.job, .process, .thread]⟩
        [.resume ok, .close .thread] := by
  have hconf : ∀ suspended handles, Confined opt ⟨some ⟨suspended, true, false, sched⟩, some (wantedJob opt), handles⟩ := by
    intro suspended handles c hc _
    cases hc
    exact ⟨rfl, rfl⟩
  cases ok with
  | false => exact ⟨rfl, hconf _ _, fun t ht => by cases ht; exact ⟨hconf _ _, fun u hu => by cases hu; exact hconf _ _⟩⟩
  | true => exact ⟨rfl, hconf _ _, fun t ht => by cases ht; exact ⟨hconf _ _, fun u hu => by cases hu; exact hconf _ _⟩⟩

/-- The client in its job, just before it is resumed. -/
theorem until_resume {ans : LaunchAnswers} {opt : LaunchOptions} {create calls : List SystemCall} {error : String}
    (hc : createProcess ans opt = (create, none)) (hi : intoJob ans opt "" = (calls, true, error)) :
    error = "" ∧ run Kernel.step {} (create ++ .createJob true :: calls ++ policyCalls ans.policy opt.policy) =
      some ⟨some ⟨true, true, false, ({} : Scheduling).under ans.policy opt.policy⟩, some (wantedJob opt),
        [.job, .process, .thread]⟩ := by
  have hcreate := created ans opt
  rw [hc] at hcreate
  simp only [Option.isNone_none, if_true] at hcreate
  obtain ⟨j, hrun, hj⟩ := intoJob_run ans opt
  rw [hi] at hrun hj
  obtain ⟨rfl, rfl⟩ := hj
  have hinto := run_append_some.2 ⟨_, hcreate, run_cons_some.2 ⟨_, (rfl : Kernel.step _ (.createJob true) = _), hrun⟩⟩
  have hprocess : HandleOf.process ∈ [HandleOf.job, .process, .thread] := by simp
  exact ⟨rfl, run_append_some.2 ⟨_, hinto, applied hprocess⟩⟩

/-- At no time does the client run outside its job. -/
theorem launch_confined (ans : LaunchAnswers) (opt : LaunchOptions) :
    Always Kernel.step (Confined opt) {} (launch ans opt "").calls := by
  have hcw := createProcess_waits ans opt
  have hiw := intoJob_waits ans opt ""
  have hquiet : ∀ {calls : List SystemCall}, (∀ call ∈ calls, call ≠ .resume true) →
      Always Kernel.step (Confined opt) {} calls :=
    fun h => (always_suspended (fun c hc => by cases hc) h).mono fun _ => confined_of_suspended
  unfold launch
  cases hcreate : createProcess ans opt with
  | mk create err =>
    rw [hcreate] at hcw
    cases err with
    | some msg => exact hquiet hcw
    | none =>
      cases ans.createJob with
      | some msg => exact hquiet (by simpa [or_imp, forall_and] using hcw)
      | none =>
        dsimp only
        cases hinto : intoJob ans opt "" with
        | mk calls rest =>
          obtain ⟨ok, error⟩ := rest
          rw [hinto] at hiw
          cases ok with
          | false => exact hquiet (by simpa [or_imp, forall_and] using ⟨hcw, hiw⟩)
          | true =>
            have hrun := (until_resume hcreate hinto).2
            have hlast := (resumed opt (({} : Scheduling).under ans.policy opt.policy) ans.resumes).2
            refine always_append.2 ⟨hquiet ?_, fun t ht => ?_⟩
            · simpa [or_imp, forall_and, applyPolicy] using
                And.intro hcw (And.intro hiw (policyCalls_waits ans.policy opt.policy))
            · cases hrun.symm.trans ht
              exact hlast

/-- Its calls use and close open handles only, and leave nothing or the client. -/
theorem launch_left (ans : LaunchAnswers) (opt : LaunchOptions) :
    ∃ k, run Kernel.step {} (launch ans opt "").calls = some k ∧ LaunchOutcome ans opt (launch ans opt "") k := by
  have hcreated := created ans opt
  unfold launch
  cases hcreate : createProcess ans opt with
  | mk create err =>
    rw [hcreate] at hcreated
    cases err with
    | some msg => exact ⟨{}, hcreated, rfl, (fun c hc => by cases hc), by simp⟩
    | none =>
      simp only [Option.isNone_none, if_true] at hcreated
      cases ans.createJob with
      | some msg =>
        refine ⟨{ client := some { terminated := ans.terminates } }, run_append_some.2 ⟨_, hcreated, ?_⟩, rfl,
          fun c hc => (by cases hc; exact ⟨rfl, rfl⟩), by simp⟩
        cases ans.terminates <;> rfl
      | none =>
        dsimp only
        cases hinto : intoJob ans opt "" with
        | mk calls rest =>
          obtain ⟨ok, error⟩ := rest
          cases ok with
          | false =>
            obtain ⟨j, hrun, hj⟩ := intoJob_run ans opt
            rw [hinto] at hrun hj
            have hjob := run_append_some.2
              ⟨_, hcreated, run_cons_some.2 ⟨_, (rfl : Kernel.step _ (.createJob true) = _), hrun⟩⟩
            refine ⟨{ client := some { terminated := ans.terminates }, job := some j },
              run_append_some.2 ⟨_, hjob, ?_⟩, rfl, fun c hc => (by cases hc; exact ⟨rfl, rfl⟩), hj⟩
            cases ans.terminates <;> rfl
          | true =>
            obtain ⟨rfl, hrun⟩ := until_resume hcreate hinto
            have hlast := (resumed opt (({} : Scheduling).under ans.policy opt.policy) ans.resumes).1
            refine ⟨_, run_append_some.2 ⟨_, hrun, hlast⟩, rfl, rfl, rfl, fun j hj => ?_, fun hp c hc => ?_,
              applyPolicy_error ans.policy opt.policy, _, rfl, rfl, rfl⟩
            · cases hj
              exact wantedJob_rate opt
            · cases hc
              exact under_priority {} hp opt.policy

/-- Whichever of its calls fail, a call of `launch` uses and closes open handles
only, the client runs at no time outside its job, and what is left is either
nothing or the client with what was asked for. -/
theorem launch_outcome (ans : LaunchAnswers) (opt : LaunchOptions) :
    ∃ k, run Kernel.step {} (launch ans opt "").calls = some k ∧
      Always Kernel.step (Confined opt) {} (launch ans opt "").calls ∧ LaunchOutcome ans opt (launch ans opt "") k := by
  obtain ⟨k, hrun, hout⟩ := launch_left ans opt
  exact ⟨k, hrun, launch_confined ans opt, hout⟩

end MultiMadness
