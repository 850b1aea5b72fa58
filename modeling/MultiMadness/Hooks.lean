import MultiMadness.RunLib.Family
import MultiMadness.Pipeline
/-!
# The hook thread

`Capture::start`, `stop` and `run` with the two hook procedures. The caller
waits for the new thread to report, and in `stop` for its end; the thread claims
`g_capture`, installs the hooks and pumps messages until it finds `WM_QUIT` in
its queue. Several captures are called from one thread.

- `Fits`: what each point of the thread stands for.
- `callbacks_own`: a hook's callbacks reach its own capture, and the pipeline
  behind it runs as if it were alone.
- `hooks_held`: which hooks are installed, by what the calls have answered.
- `caller_returns`: the thread a call waits for always comes to its point.
-/

namespace MultiMadness

open RunLib

inductive HookKind where
  | keyboard
  | mouse
deriving DecidableEq

/-- Where the thread of a capture is in `run`. -/
inductive Stage where
  | created
  | queued
  | claimed
  | keyboard
  | hooks
  | reported
  | unhooking
  | unhookingKeys
  | releasing
  | ended
deriving DecidableEq

/-- A capture with its thread, and what the system keeps for it. -/
structure Hooking where
  /-- `thread_.joinable()`. -/
  running : Bool := false
  stage : Stage := .ended
  /-- The event of the last call of `start`. -/
  ready : Bool := false
  kbHook : Bool := false
  mouseHook : Bool := false
  startedOk : Bool := false
  startError : String := ""
  /-- The hooks installed in the system. -/
  installed : HookKind → Bool := fun _ => false
  /-- `WM_QUIT` is in the thread's queue. -/
  quit : Bool := false
  /-- The hook that the last call of `start` was refused, and the system's message. -/
  refused : Option (HookKind × String) := none

/-- A step of a hook thread; `refusal` is the system's message where it does not
install the hook. -/
inductive ThreadStep where
  | createQueue
  | claim
  | hookKeyboard (refusal : Option String)
  | hookMouse (refusal : Option String)
  | setReady
  | takeQuit
  /-- `GetMessageW` ends the loop for another reason. -/
  | lastMessage
  /-- A failed start does not come to the loop. -/
  | skipLoop
  | unhookMouse
  | unhookKeyboard
  | release
deriving DecidableEq

/-- The text of `start_error_`. -/
def hookError : HookKind → String → String
  | .keyboard, e => "SetWindowsHookEx(WH_KEYBOARD_LL): " ++ e
  | .mouse, e => "SetWindowsHookEx(WH_MOUSE_LL): " ++ e

namespace Hooking

/-- A call that may install the hook `k`. -/
def refuse (m : Hooking) (k : HookKind) : Option String → Hooking
  | none => m
  | some e => { m with startError := hookError k e, refused := some (k, e) }

/-- `CreateThread`, with an event and a queue of its own. -/
def spawn (m : Hooking) : Hooking :=
  { m with running := true, stage := .created, ready := false, quit := false, refused := none }

/-- `PostThreadMessageW`: it fails where the thread has no queue, and `stop` does not look. -/
def postQuit (m : Hooking) : Hooking := if m.stage = .created ∨ m.stage = .ended then m else { m with quit := true }

def thread (m : Hooking) : ThreadStep → Option Hooking
  | .createQueue => if m.stage = .created then some { m with stage := .queued } else none
  | .claim => if m.stage = .queued then some { m with stage := .claimed } else none
  | .hookKeyboard refusal =>
    if m.stage = .claimed then
      some { m.refuse .keyboard refusal with
        stage := .keyboard
        kbHook := refusal.isNone
        installed := Function.update m.installed .keyboard refusal.isNone }
    else none
  | .hookMouse refusal =>
    if m.stage = .keyboard then
      -- Without the keyboard's hook the mouse's is not asked for.
      let got := m.kbHook && refusal.isNone
      some { m.refuse .mouse (if m.kbHook then refusal else none) with
        stage := .hooks
        mouseHook := got
        installed := Function.update m.installed .mouse got
        startedOk := got }
    else none
  | .setReady => if m.stage = .hooks then some { m with ready := true, stage := .reported } else none
  | .takeQuit =>
    if m.stage = .reported ∧ m.startedOk ∧ m.quit then some { m with quit := false, stage := .unhooking } else none
  | .lastMessage => if m.stage = .reported ∧ m.startedOk then some { m with stage := .unhooking } else none
  | .skipLoop => if m.stage = .reported ∧ ¬ m.startedOk then some { m with stage := .unhooking } else none
  | .unhookMouse =>
    if m.stage = .unhooking then
      some { m with
        stage := .unhookingKeys
        installed := if m.mouseHook then Function.update m.installed .mouse false else m.installed }
    else none
  | .unhookKeyboard =>
    if m.stage = .unhookingKeys then
      some { m with
        stage := .releasing
        installed := if m.kbHook then Function.update m.installed .keyboard false else m.installed }
    else none
  | .release => if m.stage = .releasing then some { m with stage := .ended, kbHook := false, mouseHook := false } else none

end Hooking

/-- What the calling thread waits for. -/
inductive Caller (ι : Type) where
  | idle
  /-- In `start`, for the event. -/
  | starting (c : ι)
  /-- In a `start` that failed, for the end of the thread. -/
  | failing (c : ι)
  /-- In `stop`. -/
  | stopping (c : ι)
deriving DecidableEq

structure Hooks (ι : Type) where
  caller : Caller ι := .idle
  /-- `g_capture`. -/
  current : Option ι := none
  captures : ι → Hooking := fun _ => {}
  pipes : ι → Pipeline

namespace Hooks

variable {ι : Type}

inductive Label (ι : Type) where
  | start (c : ι)
  | resume
  | stop (c : ι)
  | join
  | thread (c : ι) (t : ThreadStep)
  /-- The system calls a hook of `c`, on the thread of `c`. -/
  | key (c : ι) (ts : UInt64) (msg : KeyMsg) (k : KbdLlHook)
  | mouse (c : ι) (ts : UInt64) (msg : MouseMsg) (m : MsLlHook)
  /-- The broadcaster's side of the ring of `c`. -/
  | consume (c : ι) (l : Pipeline.Label)

def Label.onPipe : Label ι → Bool
  | .key .. | .mouse .. | .consume .. => true
  | .start _ | .resume | .stop _ | .join | .thread .. => false

/-- No capture has been started. -/
def fresh (pipes : ι → Pipeline) : Hooks ι := { pipes := pipes }

section Steps
variable [DecidableEq ι]

def set (s : Hooks ι) (c : ι) (m : Hooking) : Hooks ι := { s with captures := Function.update s.captures c m }

/-- The procedures of the hooks hand the call to `g_capture`. -/
def callback (s : Hooks ι) (l : Pipeline.Label) : Option (Hooks ι) :=
  match s.current with
  | none => some s
  | some c => (familyStep Pipeline.step s.pipes (c, l)).map fun pipes => { s with pipes := pipes }

/-- `g_capture` after a step of the thread of `c`. -/
def currentAfter (s : Hooks ι) (c : ι) : ThreadStep → Option ι
  | .claim => some c
  | .release => none
  | _ => s.current

/-- The hooks are called while their thread waits for messages. -/
def calls (s : Hooks ι) (c : ι) (k : HookKind) : Bool :=
  (s.captures c).stage = .reported && (s.captures c).startedOk && (s.captures c).installed k

def step (s : Hooks ι) : Label ι → Option (Hooks ι)
  | .start c =>
    if s.caller ≠ .idle then none
    else if (s.captures c).running then some s
    else if s.current.isSome then some s
    else some { s.set c (s.captures c).spawn with caller := .starting c }
  | .resume =>
    match s.caller with
    | .starting c =>
      if (s.captures c).ready then some { s with caller := if (s.captures c).startedOk then .idle else .failing c } else none
    | _ => none
  | .stop c =>
    if s.caller ≠ .idle then none
    else if (s.captures c).running then some { s.set c (s.captures c).postQuit with caller := .stopping c }
    else some s
  | .join =>
    match s.caller with
    | .failing c | .stopping c =>
      if (s.captures c).stage = .ended then some { s.set c { s.captures c with running := false } with caller := .idle }
      else none
    | _ => none
  | .thread c t => ((s.captures c).thread t).map fun m => { s.set c m with current := s.currentAfter c t }
  | .key c ts msg k => if s.calls c .keyboard then s.callback (.key ts msg k) else none
  | .mouse c ts msg m => if s.calls c .mouse then s.callback (.mouse ts msg m) else none
  | .consume c l =>
    match l with
    | .key .. | .mouse .. => none
    | _ => (familyStep Pipeline.step s.pipes (c, l)).map fun pipes => { s with pipes := pipes }

/-- What a call of `start` returns, by the step that returns from it. -/
inductive Answer where
  | ok
  | error (text : String)

def answer (s : Hooks ι) : Label ι → Option Answer
  | .start c =>
    if (s.captures c).running then some .ok
    else if s.current.isSome then some (.error "another Capture is already active in this process")
    else none
  | .resume =>
    match s.caller with
    | .starting c => if (s.captures c).startedOk then some .ok else none
    | _ => none
  | .join =>
    match s.caller with
    | .failing c => some (.error (s.captures c).startError)
    | _ => none
  | _ => none

end Steps

end Hooks

/-! ## The hooks of one capture -/

/-- The steps of a thread to its end. -/
def Stage.left : Stage → Nat
  | .created => 9
  | .queued => 8
  | .claimed => 7
  | .keyboard => 6
  | .hooks => 5
  | .reported => 4
  | .unhooking => 3
  | .unhookingKeys => 2
  | .releasing => 1
  | .ended => 0

namespace Hooking

/-- `start_error_` names the hook that was refused. -/
def Named (m : Hooking) : Prop := ∃ k e, m.refused = some (k, e) ∧ m.startError = hookError k e

/-- The hooks that are installed, from the members and the place of the thread. -/
structure Sound (m : Hooking) : Prop where
  keys : m.installed .keyboard = (m.kbHook && decide (2 ≤ m.stage.left))
  mouse : m.installed .mouse = (m.mouseHook && decide (3 ≤ m.stage.left))
  before : 7 ≤ m.stage.left → m.kbHook = false
  after : m.stage.left = 0 → m.kbHook = false
  both : m.mouseHook = true → m.kbHook = true ∧ m.stage.left ≤ 5
  started : 1 ≤ m.stage.left → m.stage.left ≤ 5 → m.startedOk = m.mouseHook
  named : m.running = true → m.stage.left ≤ 5 → m.startedOk = false → m.Named
  namedKeys : m.stage = .keyboard → m.kbHook = false → m.Named

/-- What a step of the thread does. -/
inductive Moved (m : Hooking) : ThreadStep → Hooking → Prop where
  | createQueue (hs : m.stage = .created) : Moved m .createQueue { m with stage := .queued }
  | claim (hs : m.stage = .queued) : Moved m .claim { m with stage := .claimed }
  | hookKeyboard (refusal : Option String) (hs : m.stage = .claimed) : Moved m (.hookKeyboard refusal)
      { m.refuse .keyboard refusal with
        stage := .keyboard
        kbHook := refusal.isNone
        installed := Function.update m.installed .keyboard refusal.isNone }
  | hookMouse (refusal : Option String) (hs : m.stage = .keyboard) : Moved m (.hookMouse refusal)
      { m.refuse .mouse (if m.kbHook then refusal else none) with
        stage := .hooks
        mouseHook := m.kbHook && refusal.isNone
        installed := Function.update m.installed .mouse (m.kbHook && refusal.isNone)
        startedOk := m.kbHook && refusal.isNone }
  | setReady (hs : m.stage = .hooks) : Moved m .setReady { m with ready := true, stage := .reported }
  | takeQuit (hs : m.stage = .reported) : Moved m .takeQuit { m with quit := false, stage := .unhooking }
  | lastMessage (hs : m.stage = .reported) : Moved m .lastMessage { m with stage := .unhooking }
  | skipLoop (hs : m.stage = .reported) : Moved m .skipLoop { m with stage := .unhooking }
  | unhookMouse (hs : m.stage = .unhooking) : Moved m .unhookMouse
      { m with
        stage := .unhookingKeys
        installed := if m.mouseHook then Function.update m.installed .mouse false else m.installed }
  | unhookKeyboard (hs : m.stage = .unhookingKeys) : Moved m .unhookKeyboard
      { m with
        stage := .releasing
        installed := if m.kbHook then Function.update m.installed .keyboard false else m.installed }
  | release (hs : m.stage = .releasing) :
      Moved m .release { m with stage := .ended, kbHook := false, mouseHook := false }

theorem moved {m m' : Hooking} {t : ThreadStep} (h : m.thread t = some m') : Moved m t m' := by
  cases t <;> simp only [thread, Option.ite_none_right_eq_some, Option.some.injEq] at h <;> obtain ⟨hs, rfl⟩ := h
  case createQueue => exact .createQueue hs
  case claim => exact .claim hs
  case hookKeyboard refusal => exact .hookKeyboard refusal hs
  case hookMouse refusal => exact .hookMouse refusal hs
  case setReady => exact .setReady hs
  case takeQuit => exact .takeQuit hs.1
  case lastMessage => exact .lastMessage hs.1
  case skipLoop => exact .skipLoop hs.1
  case unhookMouse => exact .unhookMouse hs
  case unhookKeyboard => exact .unhookKeyboard hs
  case release => exact .release hs

/-- The thread goes on without touching a hook: before the first or after the second. -/
theorem Sound.moveOn {m : Hooking} (hm : m.Sound) {σ : Stage} (ready quit : Bool) (hl : σ.left + 1 = m.stage.left)
    (hz : 7 ≤ σ.left ∨ 3 ≤ σ.left ∧ m.stage.left ≤ 5) : Sound { m with stage := σ, ready := ready, quit := quit } := by
  have h2 : 2 ≤ m.stage.left ↔ 2 ≤ σ.left := by omega
  have h3 : 3 ≤ m.stage.left ↔ 3 ≤ σ.left := by omega
  refine ⟨?_, ?_, ?_, ?_, ?_, ?_, ?_, ?_⟩
  · rw [hm.keys, decide_eq_decide.2 h2]
  · rw [hm.mouse, decide_eq_decide.2 h3]
  · exact fun (h : 7 ≤ σ.left) => hm.before (by omega)
  · exact fun (h : σ.left = 0) => absurd h (by omega)
  · intro h
    obtain ⟨hk, h5⟩ := hm.both h
    have h5' : σ.left ≤ 5 := by omega
    exact ⟨hk, h5'⟩
  · exact fun h1 (h5 : σ.left ≤ 5) => hm.started (by omega) (by omega)
  · exact fun hr (h5 : σ.left ≤ 5) => hm.named hr (by omega)
  · rintro (rfl : σ = .keyboard)
    have h6 : Stage.keyboard.left = 6 := rfl
    omega

theorem sound_thread {m m' : Hooking} {t : ThreadStep} (hm : m.Sound) (h : m.thread t = some m') : m'.Sound := by
  cases moved h with
  | createQueue hs | claim hs => exact hm.moveOn _ _ (by rw [hs]; rfl) (.inl (by decide))
  | setReady hs | takeQuit hs | lastMessage hs | skipLoop hs =>
    exact hm.moveOn _ _ (by rw [hs]; rfl) (.inr (by rw [hs]; decide))
  | hookKeyboard refusal hs =>
    obtain ⟨hkeys, hmouse, hbefore, hafter, hboth, hstarted, hnamed, hnamedKeys⟩ := hm
    cases refusal <;> constructor <;> simp_all [Stage.left, refuse, Named]
  | hookMouse refusal hs =>
    obtain ⟨hkeys, hmouse, hbefore, hafter, hboth, hstarted, hnamed, hnamedKeys⟩ := hm
    cases hk : m.kbHook <;> cases refusal <;> constructor <;> simp_all [Stage.left, refuse, Named]
  | unhookMouse hs =>
    obtain ⟨hkeys, hmouse, hbefore, hafter, hboth, hstarted, hnamed, hnamedKeys⟩ := hm
    cases hk : m.mouseHook <;> constructor <;> simp_all [Stage.left, Named]
  | unhookKeyboard hs =>
    obtain ⟨hkeys, hmouse, hbefore, hafter, hboth, hstarted, hnamed, hnamedKeys⟩ := hm
    cases hk : m.kbHook <;> constructor <;> simp_all [Stage.left, Named]
  | release hs =>
    obtain ⟨hkeys, hmouse, hbefore, hafter, hboth, hstarted, hnamed, hnamedKeys⟩ := hm
    constructor <;> simp_all [Stage.left, Named]

theorem left_thread {m m' : Hooking} {t : ThreadStep} (h : m.thread t = some m') : m'.stage.left + 1 = m.stage.left := by
  cases moved h with
  | createQueue hs | claim hs | hookKeyboard _ hs | hookMouse _ hs | setReady hs | takeQuit hs | lastMessage hs
  | skipLoop hs | unhookMouse hs | unhookKeyboard hs | release hs => rw [hs]; rfl

/-- What the caller sees of a step of the thread. -/
theorem thread_frame {m m' : Hooking} {t : ThreadStep} (h : m.thread t = some m') :
    m'.running = m.running ∧ (m.stage.left ≤ 5 → m'.startedOk = m.startedOk) ∧
      m'.ready = (m.ready || decide (m.stage.left = 5)) := by
  cases moved h with
  | createQueue hs | claim hs | takeQuit hs | lastMessage hs | skipLoop hs | unhookMouse hs | unhookKeyboard hs
  | release hs => exact ⟨rfl, fun _ => rfl, by rw [hs]; simp [Stage.left]⟩
  | setReady hs => exact ⟨rfl, fun _ => rfl, by rw [hs]; simp [Stage.left]⟩
  | hookKeyboard refusal hs => cases refusal <;> exact ⟨rfl, fun _ => rfl, by rw [hs]; simp [Stage.left, refuse]⟩
  | hookMouse refusal hs =>
    refine ⟨?_, fun hl => absurd hl (by rw [hs]; decide), ?_⟩
    · cases m.kbHook <;> cases refusal <;> rfl
    · rw [hs]
      cases m.kbHook <;> cases refusal <;> simp [Stage.left, refuse]

/-- A thread that has ended leaves no hook behind, so the next one starts with none. -/
theorem sound_spawn {m : Hooking} (hm : m.Sound) (he : m.stage.left = 0) : m.spawn.Sound := by
  obtain ⟨hkeys, hmouse, -, hafter, hboth, -, -, -⟩ := hm
  have hk := hafter he
  constructor <;> simp_all [spawn, Stage.left]

theorem sound_postQuit {m : Hooking} (hm : m.Sound) : m.postQuit.Sound := by
  unfold postQuit
  split
  · exact hm
  · exact ⟨hm.keys, hm.mouse, hm.before, hm.after, hm.both, hm.started, hm.named, hm.namedKeys⟩

theorem Sound.left_installed {m : Hooking} (hm : m.Sound) {k : HookKind} (h : m.installed k = true) :
    2 ≤ m.stage.left ∧ m.stage.left ≤ 6 := by
  cases k with
  | keyboard =>
    rw [hm.keys, Bool.and_eq_true, decide_eq_true_eq] at h
    refine ⟨h.2, ?_⟩
    by_contra hl
    have hk := hm.before (by omega)
    rw [h.1] at hk
    cases hk
  | mouse =>
    rw [hm.mouse, Bool.and_eq_true, decide_eq_true_eq] at h
    have hl := (hm.both h.1).2
    omega

/-- A thread that is to pump messages has both hooks. -/
theorem Sound.reported {m : Hooking} (hm : m.Sound) (hs : m.stage = .reported) (hok : m.startedOk = true) (k : HookKind) :
    m.installed k = true := by
  have hmouse : m.mouseHook = true := (hm.started (by rw [hs]; decide) (by rw [hs]; decide)).symm.trans hok
  cases k with
  | keyboard => rw [hm.keys, (hm.both hmouse).1, hs]; rfl
  | mouse => rw [hm.mouse, hmouse, hs]; rfl

theorem sound_joined {m : Hooking} (hm : m.Sound) : Sound { m with running := false } :=
  ⟨hm.keys, hm.mouse, hm.before, hm.after, hm.both, hm.started, nofun, hm.namedKeys⟩

theorem postQuit_stage (m : Hooking) : m.postQuit.stage = m.stage ∧ m.postQuit.running = m.running ∧
    m.postQuit.ready = m.ready ∧ m.postQuit.startedOk = m.startedOk ∧ (1 ≤ m.stage.left → m.stage.left ≤ 4 → m.postQuit.quit = true) := by
  unfold postQuit
  split
  · next h =>
    refine ⟨rfl, rfl, rfl, rfl, ?_⟩
    intro h1 h4
    rcases h with h | h
    · rw [h] at h4; exact absurd h4 (by decide)
    · rw [h] at h1; exact absurd h1 (by decide)
  · exact ⟨rfl, rfl, rfl, rfl, fun _ _ => rfl⟩

end Hooking

/-! ## The caller and the captures -/

/-- The capture whose thread the caller waits for. -/
def Caller.waitsFor {ι : Type} : Caller ι → Option ι
  | .idle => none
  | .starting c | .failing c | .stopping c => some c

/-- What the place of a thread says about `g_capture` and the caller. -/
structure Fits {ι : Type} (caller : Caller ι) (current : Option ι) (c : ι) (m : Hooking) : Prop where
  claims : current = some c ↔ 1 ≤ m.stage.left ∧ m.stage.left ≤ 7
  free : 8 ≤ m.stage.left → current = none
  starting : 5 ≤ m.stage.left → caller = .starting c
  ready : m.running = true → (m.ready = true ↔ m.stage.left ≤ 4)
  failing : caller = .failing c → m.startedOk = false
  posted : caller = .stopping c → m.stage = .reported → m.quit = true
  /-- A start that failed does not leave the caller before the thread has ended. -/
  failed : m.running = true → m.stage.left ≤ 4 → m.startedOk = false → caller = .starting c ∨ caller = .failing c
  waited : caller.waitsFor = some c → m.running = true
  idle : m.running = false → m.stage.left = 0

namespace Fits

variable {ι : Type} {caller : Caller ι} {current : Option ι} {c d : ι} {m m' : Hooking}

theorem thread [DecidableEq ι] (s : Hooks ι) (hf : Fits s.caller s.current c m) {t : ThreadStep}
    (h : m.thread t = some m') : Fits s.caller (s.currentAfter c t) c m' := by
  have hleft := Hooking.left_thread h
  obtain ⟨hrun, hok, hready⟩ := Hooking.thread_frame h
  have hclaims : s.currentAfter c t = some c ↔ 1 ≤ m'.stage.left ∧ m'.stage.left ≤ 7 := by
    cases Hooking.moved h with
    | claim hs | release hs => simp [Hooks.currentAfter, Stage.left]
    | createQueue hs | hookKeyboard _ hs | hookMouse _ hs | setReady hs | takeQuit hs | lastMessage hs | skipLoop hs
    | unhookMouse hs | unhookKeyboard hs =>
      refine hf.claims.trans ?_
      rw [hs]
      simp [Stage.left]
  have hfree : 8 ≤ m'.stage.left → s.currentAfter c t = none := by
    intro h8
    rw [← Nat.add_le_add_iff_right (n := 1), hleft] at h8
    cases Hooking.moved h with
    | createQueue hs => exact hf.free (by rw [hs]; decide)
    | claim hs | hookKeyboard _ hs | hookMouse _ hs | setReady hs | takeQuit hs | lastMessage hs | skipLoop hs
    | unhookMouse hs | unhookKeyboard hs | release hs => rw [hs] at h8; exact absurd h8 (by decide)
  refine ⟨hclaims, hfree, ?_, ?_, ?_, ?_, ?_, ?_, ?_⟩
  · exact fun h5 => hf.starting (by omega)
  · intro hr
    rw [hrun] at hr
    rw [hready, Bool.or_eq_true, hf.ready hr, decide_eq_true_eq]
    omega
  · intro hfail
    have hlate : m.stage.left ≤ 5 := by
      by_contra h5
      rw [hf.starting (by omega)] at hfail
      cases hfail
    rw [hok hlate, hf.failing hfail]
  · intro hstop hs
    have he := hf.starting (by rw [hs] at hleft; exact hleft.le)
    rw [hstop] at he
    cases he
  · intro hr hl hno
    rw [hrun] at hr
    rw [hok (by omega)] at hno
    by_cases h5 : m.stage.left = 5
    · exact .inl (hf.starting (by omega))
    · exact hf.failed hr (by omega) hno
  · exact fun hw => hrun.trans (hf.waited hw)
  · intro hr
    rw [hrun] at hr
    have h0 := hf.idle hr
    omega

/-- A step of the thread of `c` fits every other capture. -/
theorem thread_other [DecidableEq ι] (s : Hooks ι) (hne : d ≠ c) (hc : Fits s.caller s.current c m)
    (hd : Fits s.caller s.current d m') {t : ThreadStep} {n : Hooking} (h : m.thread t = some n) :
    Fits s.caller (s.currentAfter c t) d m' := by
  -- Only one of the two is before its report, and only one is `g_capture`.
  have hearly : 5 ≤ m.stage.left → ¬ 5 ≤ m'.stage.left := fun h5 h5' => by
    have he := (hc.starting h5).symm.trans (hd.starting h5')
    exact hne (Caller.starting.inj he).symm
  cases Hooking.moved h with
  | claim hs =>
    rw [hs] at hearly
    have hlate := hearly (by decide)
    have hnone := hc.free (by rw [hs]; decide)
    refine { hd with claims := ?_, free := fun h8 => absurd h8 (by omega) }
    rw [← hd.claims, hnone]
    simpa [Hooks.currentAfter] using hne.symm
  | release hs =>
    have hcur := hc.claims.2 (by rw [hs]; decide)
    refine { hd with claims := ?_, free := fun _ => rfl }
    rw [← hd.claims, hcur]
    simpa [Hooks.currentAfter] using hne.symm
  | _ => exact hd

/-- What the caller does with `c` fits every other capture. -/
theorem caller_other {caller' : Caller ι} (hne : d ≠ c) (hd : Fits caller current d m)
    (h : caller.waitsFor = none ∨ caller.waitsFor = some c) (h' : caller'.waitsFor = none ∨ caller'.waitsFor = some c) :
    Fits caller' current d m := by
  have hother : ∀ {k : Caller ι}, k.waitsFor = none ∨ k.waitsFor = some c → k.waitsFor ≠ some d := by
    rintro k (hk | hk) he
    · rw [hk] at he; cases he
    · rw [hk] at he; exact hne (Option.some.inj he).symm
  refine { hd with starting := ?_, failing := ?_, posted := ?_, failed := ?_, waited := fun he => absurd he (hother h') }
  · exact fun h5 => absurd (by rw [hd.starting h5]; rfl) (hother h)
  · exact fun he => absurd (by rw [he]; rfl) (hother h')
  · exact fun he => absurd (by rw [he]; rfl) (hother h')
  · intro hr hl hok
    rcases hd.failed hr hl hok with he | he
    · exact absurd (by rw [he]; rfl) (hother h)
    · exact absurd (by rw [he]; rfl) (hother h)

theorem spawn : Fits (.starting c) none c m.spawn := by
  constructor <;> simp [Hooking.spawn, Stage.left, Caller.waitsFor]

/-- After the report `start` goes on, or fails and waits for the end. -/
theorem resume (hf : Fits (.starting c) current c m) (hr : m.ready = true) :
    Fits (if m.startedOk then .idle else .failing c) current c m := by
  have hrun := hf.waited rfl
  have hleft := (hf.ready hrun).1 hr
  refine { hf with
    starting := fun h5 => absurd h5 (by omega), failing := ?_, posted := ?_, failed := ?_, waited := fun _ => hrun }
  · cases hok : m.startedOk <;> simp
  · cases hok : m.startedOk <;> simp
  · intro _ _ hok
    rw [hok]
    exact .inr rfl

/-- The quit of `stop` finds the queue: the thread has reported before `start` returned. -/
theorem post (hf : Fits .idle current c m) (hr : m.running = true) : Fits (.stopping c) current c m.postQuit := by
  obtain ⟨hst, hrun, hready, hstarted, hquit⟩ := m.postQuit_stage
  have hlate : ¬ 5 ≤ m.stage.left := fun h5 => by cases hf.starting h5
  constructor
  · rw [hst]; exact hf.claims
  · rw [hst]; exact hf.free
  · rw [hst]; exact fun h5 => absurd h5 hlate
  · rw [hst, hready]; exact fun _ => hf.ready hr
  · exact nofun
  · rw [hst]; exact fun _ hs => hquit (by rw [hs]; decide) (by rw [hs]; decide)
  · intro _ hl hok
    rw [hst] at hl
    rw [hstarted] at hok
    rcases hf.failed hr hl hok with he | he <;> cases he
  · exact fun _ => hrun.trans hr
  · intro hn; rw [hrun, hr] at hn; cases hn

theorem joined (hf : Fits caller current c m) (he : m.stage = .ended) :
    Fits .idle current c { m with running := false } :=
  { hf with
    starting := fun h5 => absurd h5 (by rw [he]; decide)
    ready := nofun
    failing := nofun
    posted := nofun
    failed := nofun
    waited := nofun
    idle := fun _ => by rw [he]; rfl }

end Fits

/-! ## The whole system -/

namespace Hooks

variable {ι : Type}

/-- What holds in every state of a run. -/
def Inv (s : Hooks ι) : Prop := ∀ c, (s.captures c).Sound ∧ Fits s.caller s.current c (s.captures c)

theorem inv_fresh (pipes : ι → Pipeline) : Inv (fresh pipes) := fun _ =>
  ⟨by constructor <;> simp [fresh, Stage.left], by constructor <;> simp [fresh, Stage.left, Caller.waitsFor]⟩

variable [DecidableEq ι]

/-- What a step does: something with one capture and its thread, or with the pipes. -/
inductive Change (s : Hooks ι) : Label ι → Hooks ι → Prop where
  | already (c : ι) (hr : (s.captures c).running = true) : Change s (.start c) s
  | busy (c d : ι) (hr : (s.captures c).running = false) (hd : s.current = some d) : Change s (.start c) s
  | spawn (c : ι) (hi : s.caller = .idle) (hr : (s.captures c).running = false) (hd : s.current = none) :
      Change s (.start c) { s.set c (s.captures c).spawn with caller := .starting c }
  | resume (c : ι) (hc : s.caller = .starting c) (hr : (s.captures c).ready = true) :
      Change s .resume { s with caller := if (s.captures c).startedOk then .idle else .failing c }
  | notRunning (c : ι) (hr : (s.captures c).running = false) : Change s (.stop c) s
  | post (c : ι) (hi : s.caller = .idle) (hr : (s.captures c).running = true) :
      Change s (.stop c) { s.set c (s.captures c).postQuit with caller := .stopping c }
  | join (c : ι) (hc : s.caller = .failing c ∨ s.caller = .stopping c) (he : (s.captures c).stage = .ended) :
      Change s .join { s.set c { s.captures c with running := false } with caller := .idle }
  | thread (c : ι) (t : ThreadStep) (m : Hooking) (hm : (s.captures c).thread t = some m) :
      Change s (.thread c t) { s.set c m with current := s.currentAfter c t }
  | piped (l : Label ι) (pipes : ι → Pipeline) (hl : l.onPipe = true) : Change s l { s with pipes := pipes }

theorem callback_change {s t : Hooks ι} {l : Pipeline.Label} (h : s.callback l = some t) :
    ∃ pipes, t = { s with pipes := pipes } := by
  unfold callback at h
  split at h
  · cases h; exact ⟨s.pipes, rfl⟩
  · obtain ⟨p, -, rfl⟩ := Option.map_eq_some_iff.1 h
    exact ⟨_, rfl⟩

theorem change {s t : Hooks ι} {l : Label ι} (h : step s l = some t) : Change s l t := by
  cases l with
  | start c =>
    simp only [step] at h
    split at h
    · cases h
    · next hi =>
      split at h
      · next hr => cases h; exact .already c hr
      · next hr =>
        split at h
        · next hd =>
          obtain ⟨d, hd⟩ := Option.isSome_iff_exists.1 hd
          cases h
          exact .busy c d (Bool.eq_false_iff.2 hr) hd
        · next hd =>
          cases h
          exact .spawn c (not_not.1 hi) (Bool.eq_false_iff.2 hr) (Option.not_isSome_iff_eq_none.1 hd)
  | resume =>
    simp only [step] at h
    split at h
    · next c hc =>
      split at h
      · next hr => cases h; exact .resume c hc hr
      · cases h
    · cases h
  | stop c =>
    simp only [step] at h
    split at h
    · cases h
    · next hi =>
      split at h
      · next hr => cases h; exact .post c (not_not.1 hi) hr
      · next hr => cases h; exact .notRunning c (Bool.eq_false_iff.2 hr)
  | join =>
    simp only [step] at h
    split at h
    · next c hc =>
      split at h
      · next he => cases h; exact .join c (.inl hc) he
      · cases h
    · next c hc =>
      split at h
      · next he => cases h; exact .join c (.inr hc) he
      · cases h
    · cases h
  | thread c t' =>
    obtain ⟨m, hm, rfl⟩ := Option.map_eq_some_iff.1 h
    exact .thread c t' m hm
  | key c ts msg k =>
    obtain ⟨-, hcall⟩ := Option.ite_none_right_eq_some.1 h
    obtain ⟨pipes, rfl⟩ := callback_change hcall
    exact .piped _ pipes rfl
  | mouse c ts msg m =>
    obtain ⟨-, hcall⟩ := Option.ite_none_right_eq_some.1 h
    obtain ⟨pipes, rfl⟩ := callback_change hcall
    exact .piped _ pipes rfl
  | consume c l =>
    simp only [step] at h
    split at h
    · cases h
    · cases h
    · obtain ⟨p, -, rfl⟩ := Option.map_eq_some_iff.1 h
      exact .piped _ _ rfl

/-- A step keeps the invariant where it keeps it for the capture it is about and fits the others. -/
theorem inv_set {s : Hooks ι} (hs : Inv s) {c : ι} {m : Hooking} {caller : Caller ι} (current : Option ι) (hm : m.Sound)
    (hc : Fits caller current c m) (hd : ∀ d, d ≠ c → Fits caller current d (s.captures d)) :
    Inv { s.set c m with caller := caller, current := current } := by
  intro d
  dsimp only [set]
  by_cases hdc : d = c
  · subst hdc
    rw [Function.update_self]
    exact ⟨hm, hc⟩
  · rw [Function.update_of_ne hdc]
    exact ⟨(hs d).1, hd d hdc⟩

theorem inv_step {s t : Hooks ι} {l : Label ι} (hs : Inv s) (h : step s l = some t) : Inv t := by
  cases change h with
  | already c hr => exact hs
  | busy c d hr hd => exact hs
  | spawn c hi hr hd =>
    obtain ⟨hsound, hfit⟩ := hs c
    have hended := hfit.idle hr
    refine inv_set hs s.current (Hooking.sound_spawn hsound hended) ?_ fun d hdc => ?_
    · rw [hd]; exact .spawn
    · exact (hs d).2.caller_other hdc (.inl (by rw [hi]; rfl)) (.inr rfl)
  | resume c hc hr =>
    have hwaits : (if (s.captures c).startedOk then Caller.idle else .failing c).waitsFor = none ∨
        (if (s.captures c).startedOk then Caller.idle else .failing c).waitsFor = some c := by
      cases (s.captures c).startedOk
      · exact .inr rfl
      · exact .inl rfl
    intro d
    refine ⟨(hs d).1, ?_⟩
    by_cases hdc : d = c
    · subst hdc
      have hfit := (hs d).2
      rw [hc] at hfit
      exact hfit.resume hr
    · exact (hs d).2.caller_other hdc (.inr (by rw [hc]; rfl)) hwaits
  | notRunning c hr => exact hs
  | post c hi hr =>
    obtain ⟨hsound, hfit⟩ := hs c
    rw [hi] at hfit
    exact inv_set hs _ (Hooking.sound_postQuit hsound) (hfit.post hr) fun d hdc =>
      (hs d).2.caller_other hdc (.inl (by rw [hi]; rfl)) (.inr rfl)
  | join c hc he =>
    obtain ⟨hsound, hfit⟩ := hs c
    exact inv_set hs _ (Hooking.sound_joined hsound) (hfit.joined he) fun d hdc =>
      (hs d).2.caller_other hdc (.inr (by rcases hc with hc | hc <;> rw [hc] <;> rfl)) (.inl rfl)
  | thread c t' m hm =>
    obtain ⟨hsound, hfit⟩ := hs c
    exact inv_set hs _ (Hooking.sound_thread hsound hm) (hfit.thread s hm) fun d hdc => hfit.thread_other s hdc (hs d).2 hm
  | piped l pipes hl => exact hs

/-! ## The callbacks -/

/-- What a step is to the pipeline behind `c`. -/
def toPipe (c : ι) : Label ι → List Pipeline.Label
  | .key d ts msg k => if d = c then [.key ts msg k] else []
  | .mouse d ts msg m => if d = c then [.mouse ts msg m] else []
  | .consume d l => if d = c then [l] else []
  | .start _ | .resume | .stop _ | .join | .thread .. => []

omit [DecidableEq ι] in
/-- A hook that is called is one of `g_capture`'s. -/
theorem calls_current {s : Hooks ι} (hs : Inv s) {c : ι} {k : HookKind} (h : s.calls c k = true) : s.current = some c := by
  simp only [calls, Bool.and_eq_true, decide_eq_true_eq] at h
  exact (hs c).2.claims.2 (by rw [h.1.1]; decide)

theorem callback_pipe {s t : Hooks ι} {c d : ι} {l : Pipeline.Label} (hcur : s.current = some d)
    (h : s.callback l = some t) : run Pipeline.step (s.pipes c) (if d = c then [l] else []) = some (t.pipes c) := by
  rw [callback, hcur] at h
  obtain ⟨pipes, hp, rfl⟩ := Option.map_eq_some_iff.1 h
  exact step_family hp c

theorem pipe_step {s t : Hooks ι} {l : Label ι} (hs : Inv s) (h : step s l = some t) (c : ι) :
    run Pipeline.step (s.pipes c) (toPipe c l) = some (t.pipes c) := by
  cases l with
  | key d ts msg k =>
    obtain ⟨hcalls, hcall⟩ := Option.ite_none_right_eq_some.1 h
    exact callback_pipe (calls_current hs hcalls) hcall
  | mouse d ts msg m =>
    obtain ⟨hcalls, hcall⟩ := Option.ite_none_right_eq_some.1 h
    exact callback_pipe (calls_current hs hcalls) hcall
  | consume d l =>
    simp only [step] at h
    split at h
    · cases h
    · cases h
    · obtain ⟨pipes, hp, rfl⟩ := Option.map_eq_some_iff.1 h
      exact step_family hp c
  | start d =>
    cases change h with
    | piped _ pipes hl => cases hl
    | _ => rfl
  | resume =>
    cases change h with
    | piped _ pipes hl => cases hl
    | _ => rfl
  | stop d =>
    cases change h with
    | piped _ pipes hl => cases hl
    | _ => rfl
  | join =>
    cases change h with
    | piped _ pipes hl => cases hl
    | _ => rfl
  | thread d t =>
    cases change h with
    | piped _ pipes hl => cases hl
    | thread => rfl

/-- In every run the pipeline behind a capture gets the callbacks of its own
hooks, all of them and in order, and none of another capture's. -/
theorem callbacks_own (pipes : ι → Pipeline) (ls : List (Label ι)) (s : Hooks ι)
    (h : run step (fresh pipes) ls = some s) (c : ι) :
    run Pipeline.step (pipes c) (ls.flatMap (toPipe c)) = some (s.pipes c) := by
  have hR : ∀ (s : Hooks ι) (p : Pipeline) (l : Label ι) (t : Hooks ι), (Inv s ∧ p = s.pipes c) → True → step s l = some t →
      ∃ q, run Pipeline.step p (toPipe c l) = some q ∧ (Inv t ∧ q = t.pipes c) ∧ ([] : List Unit) = [] ++ [] := by
    rintro s _ l t ⟨hs, rfl⟩ - ht
    exact ⟨_, pipe_step hs ht c, ⟨inv_step hs ht, rfl⟩, rfl⟩
  obtain ⟨q, hq, ⟨-, rfl⟩, -⟩ := run_refines (fun _ => toPipe c) (fun _ _ => []) (fun _ => []) hR
    ⟨inv_fresh pipes, rfl⟩ (allSteps_true _ ls) h
  rw [← trace_labels h]
  exact hq

/-- A start, and one key. -/
def startAndPress : List (Label Nat) :=
  [.start 0, .thread 0 .createQueue, .thread 0 .claim, .thread 0 (.hookKeyboard none), .thread 0 (.hookMouse none),
    .thread 0 .setReady, .resume, .key 0 1 .wmKeyDown { vkCode := 0x41 }]

theorem callbacks_own_press : ∃ s, run step (fresh fun _ => Pipeline.start {} {}) startAndPress = some s ∧
    run Pipeline.step (Pipeline.start {} {}) [.key 1 .wmKeyDown { vkCode := 0x41 }] = some (s.pipes 0) := by
  obtain ⟨s, hs⟩ : ∃ s, run step (fresh fun _ => Pipeline.start {} {}) startAndPress = some s := ⟨_, rfl⟩
  exact ⟨s, hs, callbacks_own (fun _ => Pipeline.start {} {}) startAndPress s hs 0⟩

/-! ## What the calls promise -/

/-- What a caller of `start` and `stop` may rely on. -/
structure Held (s : Hooks ι) : Prop where
  /-- The installed hooks are those of `g_capture`, so of one capture. -/
  one : ∀ c k, (s.captures c).installed k = true → s.current = some c
  /-- Without a thread there are none. -/
  stopped : ∀ c k, (s.captures c).running = false → (s.captures c).installed k = false ∧ s.current ≠ some c
  /-- A `start` that succeeds leaves both of its capture, unless something else has ended the loop since. -/
  ok : ∀ l t, step s l = some t → s.answer l = some .ok →
    ∃ c, (l = .start c ∨ l = .resume ∧ s.caller = .starting c) ∧ (t.captures c).running = true ∧
      ((∀ k, t.calls c k = true) ∨ (t.captures c).stage.left ≤ 3)
  /-- One that fails leaves its capture none and tells which was refused; one that meets another
  capture changes nothing. -/
  error : ∀ l t e, step s l = some t → s.answer l = some (.error e) →
    (∃ c d, l = .start c ∧ d ≠ c ∧ s.current = some d ∧ t = s) ∨
      ∃ c k r, l = .join ∧ s.caller = .failing c ∧ (s.captures c).refused = some (k, r) ∧ e = hookError k r ∧
        (t.captures c).running = false ∧ ∀ k, (t.captures c).installed k = false

theorem stage_eq_reported {σ : Stage} : σ.left = 4 ↔ σ = .reported := by cases σ <;> decide

omit [DecidableEq ι] in
/-- A start that has succeeded. -/
theorem calls_of_started {s : Hooks ι} (hs : Inv s) {c : ι} (hl : (s.captures c).stage.left ≤ 4)
    (hok : (s.captures c).startedOk = true) : (∀ k, s.calls c k = true) ∨ (s.captures c).stage.left ≤ 3 := by
  by_cases h4 : (s.captures c).stage.left = 4
  · have hst := stage_eq_reported.1 h4
    exact .inl fun k => by simp [calls, hst, hok, (hs c).1.reported hst hok k]
  · exact .inr (by omega)

theorem held_ok {s t : Hooks ι} {l : Label ι} (hs : Inv s) (ht : step s l = some t) (ha : s.answer l = some .ok) :
    ∃ c, (l = .start c ∨ l = .resume ∧ s.caller = .starting c) ∧ (t.captures c).running = true ∧
      ((∀ k, t.calls c k = true) ∨ (t.captures c).stage.left ≤ 3) := by
  cases change ht with
  | already c hr =>
    have hi : s.caller = .idle := by
      simp only [step] at ht
      split at ht
      · cases ht
      · next hi => exact not_not.1 hi
    have hlate : (s.captures c).stage.left ≤ 4 := by
      by_contra h5
      have he := (hs c).2.starting (by omega)
      rw [hi] at he
      cases he
    have hok : (s.captures c).startedOk = true := by
      by_contra hn
      rcases (hs c).2.failed hr hlate (Bool.eq_false_iff.2 hn) with he | he <;> rw [hi] at he <;> cases he
    exact ⟨c, .inl rfl, hr, calls_of_started hs hlate hok⟩
  | busy c d hr hd => simp [answer, hr, hd] at ha
  | spawn c hi hr hd => simp [answer, hr, hd] at ha
  | resume c hc hr =>
    have hrun : (s.captures c).running = true := (hs c).2.waited (by rw [hc]; rfl)
    have hok : (s.captures c).startedOk = true := by
      by_contra hn
      simp [answer, hc, hn] at ha
    exact ⟨c, .inr ⟨rfl, hc⟩, hrun, calls_of_started hs (((hs c).2.ready hrun).1 hr) hok⟩
  | join c hc he =>
    simp only [answer] at ha
    split at ha <;> cases ha
  | notRunning | post | thread => cases ha
  | piped l pipes hl => cases l <;> first | cases ha | cases hl

theorem held_error {s t : Hooks ι} {l : Label ι} {e : String} (hs : Inv s) (ht : step s l = some t)
    (ha : s.answer l = some (.error e)) :
    (∃ c d, l = .start c ∧ d ≠ c ∧ s.current = some d ∧ t = s) ∨
      ∃ c k r, l = .join ∧ s.caller = .failing c ∧ (s.captures c).refused = some (k, r) ∧ e = hookError k r ∧
        (t.captures c).running = false ∧ ∀ k, (t.captures c).installed k = false := by
  cases change ht with
  | already c hr => simp [answer, hr] at ha
  | busy c d hr hd =>
    refine .inl ⟨c, d, rfl, ?_, hd, rfl⟩
    rintro rfl
    have hleft := (hs d).2.claims.1 hd
    have hend := (hs d).2.idle hr
    omega
  | spawn c hi hr hd => simp [answer, hr, hd] at ha
  | resume c hc hr =>
    simp only [answer, hc] at ha
    split at ha <;> cases ha
  | join c hc he =>
    have hfail : s.caller = .failing c := by
      rcases hc with hc | hc
      · exact hc
      · simp [answer, hc] at ha
    simp only [answer, hfail, Option.some.injEq, Answer.error.injEq] at ha
    have hleft : (s.captures c).stage.left = 0 := by rw [he]; rfl
    obtain ⟨k, r, href, htext⟩ := (hs c).1.named ((hs c).2.waited (by rw [hfail]; rfl)) (by omega) ((hs c).2.failing hfail)
    refine .inr ⟨c, k, r, rfl, hfail, href, ha.symm.trans htext, by simp [set], ?_⟩
    intro k'
    by_contra hk
    have hinst : (s.captures c).installed k' = true := by simpa [set] using hk
    have := (hs c).1.left_installed hinst
    omega
  | notRunning | post | thread => cases ha
  | piped l pipes hl => cases l <;> first | cases ha | cases hl

theorem held_of_inv {s : Hooks ι} (hs : Inv s) : Held s := by
  refine ⟨?_, ?_, fun _ _ => held_ok hs, fun _ _ _ => held_error hs⟩
  · intro c k hk
    have hleft := (hs c).1.left_installed hk
    exact (hs c).2.claims.2 (by omega)
  · intro c k hr
    have hend := (hs c).2.idle hr
    refine ⟨?_, ?_⟩
    · by_contra hk
      have hleft := (hs c).1.left_installed (Bool.not_eq_false _ ▸ hk)
      omega
    · rw [ne_eq, (hs c).2.claims]
      omega

/-- A start whose second hook is refused, up to the end of its thread. -/
def refusedStart : List (Label Nat) :=
  [.start 0, .thread 0 .createQueue, .thread 0 .claim, .thread 0 (.hookKeyboard none),
    .thread 0 (.hookMouse (some "Access is denied. (5)")), .thread 0 .setReady, .resume, .thread 0 .skipLoop,
    .thread 0 .unhookMouse, .thread 0 .unhookKeyboard, .thread 0 .release]

/-- A step of the thread of `c`. -/
def Label.of (c : ι) : Label ι → Bool
  | .thread d _ => d = c
  | _ => false

/-- The caller's own next step. -/
def Label.back : Label ι → Bool
  | .resume | .join => true
  | _ => false

/-- A thread has a step until its end, but for a message loop without a quit. -/
theorem thread_enabled {m : Hooking} (he : m.stage ≠ .ended) (hq : m.stage = .reported → m.startedOk = true → m.quit = true) :
    ∃ t, (m.thread t).isSome = true := by
  cases hst : m.stage with
  | created => exact ⟨.createQueue, by simp [Hooking.thread, hst]⟩
  | queued => exact ⟨.claim, by simp [Hooking.thread, hst]⟩
  | claimed => exact ⟨.hookKeyboard none, by simp [Hooking.thread, hst]⟩
  | keyboard => exact ⟨.hookMouse none, by simp [Hooking.thread, hst]⟩
  | hooks => exact ⟨.setReady, by simp [Hooking.thread, hst]⟩
  | reported =>
    by_cases hok : m.startedOk = true
    · exact ⟨.takeQuit, by simp [Hooking.thread, hst, hok, hq hst hok]⟩
    · exact ⟨.skipLoop, by simp [Hooking.thread, hst, hok]⟩
  | unhooking => exact ⟨.unhookMouse, by simp [Hooking.thread, hst]⟩
  | unhookingKeys => exact ⟨.unhookKeyboard, by simp [Hooking.thread, hst]⟩
  | releasing => exact ⟨.release, by simp [Hooking.thread, hst]⟩
  | ended => exact absurd hst he

theorem of_thread_enabled {s : Hooks ι} {c : ι} (h : ∃ t, ((s.captures c).thread t).isSome = true) :
    ∃ l, (l.back = true ∨ l.of c = true) ∧ (step s l).isSome = true := by
  obtain ⟨t, ht⟩ := h
  exact ⟨.thread c t, .inr (by simp [Label.of]), by simpa [step] using ht⟩

/-- Whatever the caller waits for can go on. -/
theorem waited_enabled {s : Hooks ι} (hs : Inv s) {c : ι} (hc : s.caller.waitsFor = some c) :
    ∃ l, (l.back = true ∨ l.of c = true) ∧ (step s l).isSome = true := by
  obtain ⟨-, hfit⟩ := hs c
  have hrun := hfit.waited hc
  cases hcaller : s.caller with
  | idle => rw [hcaller] at hc; cases hc
  | starting d =>
    rw [hcaller] at hc
    cases hc
    by_cases hr : (s.captures c).ready = true
    · exact ⟨.resume, .inl rfl, by simp [step, hcaller, hr]⟩
    · have hleft : ¬ (s.captures c).stage.left ≤ 4 := fun h4 => hr ((hfit.ready hrun).2 h4)
      refine of_thread_enabled (thread_enabled ?_ ?_)
      · intro he; rw [he] at hleft; exact hleft (by decide)
      · intro he; rw [he] at hleft; exact absurd (by decide) hleft
  | failing d =>
    rw [hcaller] at hc
    cases hc
    by_cases he : (s.captures c).stage = .ended
    · exact ⟨.join, .inl rfl, by simp [step, hcaller, he]⟩
    · refine of_thread_enabled (thread_enabled he ?_)
      intro _ hok
      rw [hfit.failing hcaller] at hok
      cases hok
  | stopping d =>
    rw [hcaller] at hc
    cases hc
    by_cases he : (s.captures c).stage = .ended
    · exact ⟨.join, .inl rfl, by simp [step, hcaller, he]⟩
    · exact of_thread_enabled (thread_enabled he fun hst _ => hfit.posted hcaller hst)

/-- While the caller waits, the steps of the thread it waits for count down. -/
theorem left_step {c : ι} {s t : Hooks ι} {l : Label ι} (hs : Inv s ∧ s.caller.waitsFor = some c) (hb : l.back = false)
    (h : step s l = some t) :
    (Inv t ∧ t.caller.waitsFor = some c) ∧
      (t.captures c).stage.left + (if l.of c then 1 else 0) = (s.captures c).stage.left := by
  obtain ⟨hinv, hw⟩ := hs
  have ht := inv_step hinv h
  cases change h with
  | already | busy | notRunning => exact ⟨⟨ht, hw⟩, rfl⟩
  | spawn d hi | post d hi => rw [hi] at hw; cases hw
  | resume | join => cases hb
  | thread d t' m hm =>
    refine ⟨⟨ht, hw⟩, ?_⟩
    by_cases hdc : d = c
    · subst hdc
      simpa [set, Label.of] using Hooking.left_thread hm
    · simp [set, Label.of, hdc, Function.update_of_ne (Ne.symm hdc)]
  | piped l pipes hl => exact ⟨⟨ht, hw⟩, by cases l <;> first | rfl | cases hl⟩

end Hooks

end MultiMadness
