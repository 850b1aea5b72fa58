import MultiMadness.Pipeline
/-!
# No feedback loop

The system hands what `SendInput` injected back to the hooks. Every helper of
`inject.cpp` stamps its `INPUT` with `kInjectMagic`, in the layout of its own
kind, and the hooks look at the stamp before anything else.

- `inputs_stamped`: every injection carries the stamp.
- `no_feedback`: a run and the run without the injected events feed the
  broadcaster the same events and answer the same for every other event.
-/

namespace MultiMadness

open RunLib KeyState
open Feed (Queued Hooked)

/-! ## What the helpers inject -/

def KEYEVENTF_EXTENDEDKEY : UInt32 := 0x0001
def KEYEVENTF_KEYUP : UInt32 := 0x0002
def KEYEVENTF_SCANCODE : UInt32 := 0x0008
def MOUSEEVENTF_MOVE : UInt32 := 0x0001
def MOUSEEVENTF_LEFTDOWN : UInt32 := 0x0002
def MOUSEEVENTF_LEFTUP : UInt32 := 0x0004
def MOUSEEVENTF_RIGHTDOWN : UInt32 := 0x0008
def MOUSEEVENTF_RIGHTUP : UInt32 := 0x0010
def MOUSEEVENTF_MIDDLEDOWN : UInt32 := 0x0020
def MOUSEEVENTF_MIDDLEUP : UInt32 := 0x0040
def MOUSEEVENTF_XDOWN : UInt32 := 0x0080
def MOUSEEVENTF_XUP : UInt32 := 0x0100
def MOUSEEVENTF_WHEEL : UInt32 := 0x0800
def MOUSEEVENTF_HWHEEL : UInt32 := 0x1000
def MOUSEEVENTF_VIRTUALDESK : UInt32 := 0x4000
def MOUSEEVENTF_ABSOLUTE : UInt32 := 0x8000

/-- `INPUT`: the two members of its union the helpers fill in. -/
inductive Input where
  | mi (dx dy : Int) (mouseData dwFlags : UInt32) (dwExtraInfo : UInt64)
  | ki (wVk wScan : UInt16) (dwFlags : UInt32) (dwExtraInfo : UInt64)

namespace Input

def isKeyboard : Input → Bool
  | .mi .. => false
  | .ki .. => true

def dwExtraInfo : Input → UInt64
  | .mi _ _ _ _ extra | .ki _ _ _ extra => extra

/-- `send_one` writes `in.mi.dwExtraInfo`; a keyboard input has it elsewhere. -/
def sendOne : Input → Input
  | .mi dx dy data flags _ => .mi dx dy data flags kInjectMagic
  | .ki vk scan flags extra => .ki vk scan flags extra

/-- `mapVk` is `MapVirtualKeyW` to a scan code. -/
def sendKey (mapVk : UInt16 → UInt16) (vk scan : UInt16) (down : Bool) (flags : UInt16) : Input :=
  .ki 0 (if scan = 0 then mapVk vk else scan)
    (KEYEVENTF_SCANCODE ||| (if down then 0 else KEYEVENTF_KEYUP) |||
      (if flags &&& kExtendedKey ≠ 0 then KEYEVENTF_EXTENDEDKEY else 0))
    kInjectMagic

def sendMouseButton (vk : UInt16) (down : Bool) : Option Input :=
  if vk = kVkLButton then
    some (.mi 0 0 0 (if down then MOUSEEVENTF_LEFTDOWN else MOUSEEVENTF_LEFTUP) kInjectMagic)
  else if vk = kVkRButton then
    some (.mi 0 0 0 (if down then MOUSEEVENTF_RIGHTDOWN else MOUSEEVENTF_RIGHTUP) kInjectMagic)
  else if vk = kVkMButton then
    some (.mi 0 0 0 (if down then MOUSEEVENTF_MIDDLEDOWN else MOUSEEVENTF_MIDDLEUP) kInjectMagic)
  else if vk = kVkXButton1 then
    some (.mi 0 0 1 (if down then MOUSEEVENTF_XDOWN else MOUSEEVENTF_XUP) kInjectMagic)
  else if vk = kVkXButton2 then
    some (.mi 0 0 2 (if down then MOUSEEVENTF_XDOWN else MOUSEEVENTF_XUP) kInjectMagic)
  else none

def sendMouseMoveAbs (p : AbsPoint) : Input :=
  .mi p.ax p.ay 0 (MOUSEEVENTF_MOVE ||| MOUSEEVENTF_ABSOLUTE ||| MOUSEEVENTF_VIRTUALDESK) kInjectMagic

def sendWheel (vertical horizontal : Int) : List Input :=
  (if vertical ≠ 0 then [sendOne (.mi 0 0 (UInt32.ofInt vertical) MOUSEEVENTF_WHEEL 0)] else []) ++
    (if horizontal ≠ 0 then [sendOne (.mi 0 0 (UInt32.ofInt horizontal) MOUSEEVENTF_HWHEEL 0)] else [])

end Input

/-- The `SendInput` calls of one call of `inject.hpp`; the `post_*` helpers make none. -/
def inputs (mapVk : UInt16 → UInt16) : Output → List Input
  | .sendKey vk scan down flags => [.sendKey mapVk vk scan down flags]
  | .sendMouseButton vk down => (Input.sendMouseButton vk down).toList
  | .sendMouseMoveAbs p => [.sendMouseMoveAbs p]
  | .sendWheel vertical horizontal => Input.sendWheel vertical horizontal
  | .postKey .. | .postMouseButton .. | .postWheel .. => []

/-- Every injection carries the stamp, where its kind of input has it. -/
theorem inputs_stamped {mapVk : UInt16 → UInt16} {o : Output} {i : Input} (h : i ∈ inputs mapVk o) :
    i.dwExtraInfo = kInjectMagic := by
  cases o with
  | sendKey vk scan down flags => rw [List.mem_singleton.1 h]; rfl
  | sendMouseButton vk down =>
    simp only [inputs, Option.mem_toList, Input.sendMouseButton] at h
    split_ifs at h <;> cases h <;> rfl
  | sendMouseMoveAbs p => rw [List.mem_singleton.1 h]; rfl
  | sendWheel v w =>
    simp only [inputs, Input.sendWheel] at h
    rcases List.mem_append.1 h with h | h
    · split at h
      · rw [List.mem_singleton.1 h]; rfl
      · cases h
    · split at h
      · rw [List.mem_singleton.1 h]; rfl
      · cases h
  | _ => cases h

/-! ## The closed loop -/

/-- The pipeline, and what the hooks answered: for the events from outside, and
for those that were injected. -/
structure Loop extends Pipeline where
  answers : List Bool := []
  echoAnswers : List Bool := []

namespace Loop

inductive Label where
  /-- A step of the pipeline; its hook events are the physical and the foreign ones. -/
  | own (l : Pipeline.Label)
  /-- The system hands an injected event back. -/
  | echoKey (ts : UInt64) (msg : KeyMsg) (k : KbdLlHook)
  | echoMouse (ts : UInt64) (msg : MouseMsg) (m : MsLlHook)

/-- What a hook callback answers. -/
def answer (p : Pipeline) : Pipeline.Label → List Bool
  | .key ts msg k => [(p.cap.onKey p.ring ts msg k).2.2]
  | .mouse ts msg m => [(p.cap.onMouse p.ring ts msg m).2.2]
  | _ => []

/-- Everything injected so far. -/
def injected (mapVk : UInt16 → UInt16) (p : Pipeline) : List Input := p.os.log.flatMap fun e => inputs mapVk e.out

/-- An event handed back has the `dwExtraInfo` of an injected input of its kind,
and anything else in its other fields. -/
def step (mapVk : UInt16 → UInt16) (s : Loop) : Label → Option Loop
  | .own l =>
    (Pipeline.step s.toPipeline l).map fun p => { s with toPipeline := p, answers := s.answers ++ answer s.toPipeline l }
  | .echoKey ts msg k =>
    if (injected mapVk s.toPipeline).any fun i => i.isKeyboard && i.dwExtraInfo = k.dwExtraInfo then
      some { s with
        toFeed := s.key ts msg k
        echoAnswers := s.echoAnswers ++ [(s.cap.onKey s.ring ts msg k).2.2] }
    else none
  | .echoMouse ts msg m =>
    if (injected mapVk s.toPipeline).any fun i => !i.isKeyboard && i.dwExtraInfo = m.dwExtraInfo then
      some { s with
        toFeed := s.mouse ts msg m
        echoAnswers := s.echoAnswers ++ [(s.cap.onMouse s.ring ts msg m).2.2] }
    else none

def start (cap : Capture) (bc : Broadcaster) : Loop := { Pipeline.start cap bc with }

def Label.external : Label → Bool
  | .own _ => true
  | _ => false

/-- A hook event from outside. -/
def Label.isHookEvent : Label → Bool
  | .own (.key ..) | .own (.mouse ..) => true
  | _ => false

/-- The same step with another reading of the clock, or other answers of the desktop. -/
inductive LikeStep : Pipeline.Label → Pipeline.Label → Prop where
  | key (ts ts' : UInt64) (msg : KeyMsg) (k : KbdLlHook) : LikeStep (.key ts msg k) (.key ts' msg k)
  | mouse (ts ts' : UInt64) (msg : MouseMsg) (m : MsLlHook) : LikeStep (.mouse ts msg m) (.mouse ts' msg m)
  | pop : LikeStep .pop .pop
  | handle (env env' : Env) : LikeStep (.handle env) (.handle env')
  | refreshConfig : LikeStep .refreshConfig .refreshConfig
  | setTargets (targets : List Target) (master : Nat) :
      LikeStep (.setTargets targets master) (.setTargets targets master)

inductive Like : Label → Label → Prop where
  | own {l m : Pipeline.Label} (h : LikeStep l m) : Like (.own l) (.own m)

/-- An event without its timestamp. -/
def untimed (ev : InputEvent) : InputEvent := { ev with ts := 0 }

def untimedRecord (r : Published) : Published := { r with ev := untimed r.ev }

/-- Two feeds that differ in nothing but timestamps and the count of ignored events. -/
structure Agree (f g : Feed) : Prop where
  cap : g.cap = { f.cap with injectedSeen := g.cap.injectedSeen }
  ring : g.ring.items.map untimed = f.ring.items.map untimed
  popped : g.popped.map untimed = f.popped.map untimed
  history : g.history.map untimedRecord = f.history.map untimedRecord
  handled : g.handled = f.handled

/-! ## One callback -/

/-- The hooks ignore whatever carries the stamp. -/
theorem echo_ignored {mapVk : UInt16 → UInt16} {p : Pipeline} {q : Input → Bool} {extra : UInt64}
    (h : ((injected mapVk p).any fun i => q i && i.dwExtraInfo = extra) = true) (flag : Bool) :
    p.cap.ignores extra flag = true := by
  obtain ⟨i, hi, hx⟩ := List.any_eq_true.1 h
  obtain ⟨e, -, he⟩ := List.mem_flatMap.1 hi
  simp only [Bool.and_eq_true, decide_eq_true_eq] at hx
  simp [Capture.ignores, ← hx.2, inputs_stamped he]

theorem onMouse_answer (c : Capture) (ring : EventRing) (ts : UInt64) (msg : MouseMsg) (m : MsLlHook) :
    (c.onMouse ring ts msg m).2.2 = false := by
  unfold Capture.onMouse
  split
  · rfl
  · split
    · rfl
    · split <;> rfl

/-- An ignored event leaves everything but a counter alone. -/
theorem ignored_quiet {f g : Feed} (h : Hooked f none g) : ∃ n, g = { f with cap := { f.cap with injectedSeen := n } } := by
  cases h with
  | quiet n => exact ⟨n, rfl⟩

theorem key_ignored {f : Feed} {k : KbdLlHook}
    (h : f.cap.ignores k.dwExtraInfo (k.flags &&& LLKHF_INJECTED ≠ 0) = true) (ts : UInt64) (msg : KeyMsg) :
    Hooked f none (f.key ts msg k) := by
  have hn : f.cap.keyPublished ts msg k = none := by rw [Capture.keyPublished, if_pos h]
  exact hn ▸ f.hooked_key ts msg k

theorem mouse_ignored {f : Feed} {m : MsLlHook}
    (h : f.cap.ignores m.dwExtraInfo (m.flags &&& LLMHF_INJECTED ≠ 0) = true) (ts : UInt64) (msg : MouseMsg) :
    Hooked f none (f.mouse ts msg m) := by
  have hn : f.cap.mousePublished ts msg m = none := by rw [Capture.mousePublished, if_pos h]
  exact hn ▸ f.hooked_mouse ts msg m

section Agreement
variable {f g : Feed}

theorem agree_refl (f : Feed) : Agree f f := ⟨rfl, rfl, rfl, rfl, rfl⟩

theorem agree_quiet {f' : Feed} (h : Agree f g) (hq : Hooked f none f') : Agree f' g := by
  obtain ⟨n, rfl⟩ := ignored_quiet hq
  exact ⟨h.cap, h.ring, h.popped, h.history, h.handled⟩

theorem agree_quiet_right {g' : Feed} (h : Agree f g) (hq : Hooked g none g') : Agree f g' := by
  obtain ⟨n, rfl⟩ := ignored_quiet hq
  exact ⟨by rw [h.cap], h.ring, h.popped, h.history, h.handled⟩

theorem agree_published (h : Agree f g) {ev ev' : InputEvent} (he : untimed ev' = untimed ev) :
    Agree (f.published ev) (g.published ev') := by
  obtain ⟨hcap, hring, hpop, hhist, hhand⟩ := h
  have hlen : g.ring.items.length = f.ring.items.length := by simpa using congrArg List.length hring
  have hok : (g.ring.push ev').2 = (f.ring.push ev).2 := by rw [Fifo.push_ok, Fifo.push_ok, hlen]
  -- Applying an event does not look at its timestamp.
  have hkeys : (g.cap.keys.applyEvent ev').1 = (f.cap.keys.applyEvent ev).1 := by
    rw [hcap]
    change (f.cap.keys.applyEvent (untimed ev')).1 = (f.cap.keys.applyEvent (untimed ev)).1
    rw [he]
  refine ⟨?_, ?_, hpop, ?_, hhand⟩
  · simp only [Feed.published, Capture.publish, hok, hkeys]
    rw [hcap]
    split <;> rfl
  · rw [Feed.published_ring, Feed.published_ring, hok]
    split
    · rw [List.map_append, List.map_append, hring, List.map_singleton, List.map_singleton, he]
    · exact hring
  · rw [Feed.published_history, Feed.published_history, List.map_append, List.map_append, hhist]
    simp only [List.map_singleton, untimedRecord, he, hkeys, hok]

theorem agree_keyPublished (h : Agree f g) (ts ts' : UInt64) (msg : KeyMsg) (k : KbdLlHook) :
    (g.cap.keyPublished ts' msg k).map untimed = (f.cap.keyPublished ts msg k).map untimed := by
  rw [h.cap]
  unfold Capture.keyPublished
  change Option.map untimed (if f.cap.ignores k.dwExtraInfo _ = true then none else
    if (f.cap.keys.applyEvent (Capture.keyEvent ts msg k)).2 = true then some (Capture.keyEvent ts' msg k) else none) = _
  dsimp only
  split
  · rfl
  · split <;> rfl

theorem untimed_mouseEvent (ts ts' : UInt64) (msg : MouseMsg) (m : MsLlHook) :
    (Capture.mouseEvent ts' msg m).map untimed = (Capture.mouseEvent ts msg m).map untimed := by
  cases msg <;> rfl

theorem agree_mousePublished (h : Agree f g) (ts ts' : UInt64) (msg : MouseMsg) (m : MsLlHook) :
    (g.cap.mousePublished ts' msg m).map untimed = (f.cap.mousePublished ts msg m).map untimed := by
  rw [h.cap]
  unfold Capture.mousePublished
  change Option.map untimed (if f.cap.ignores m.dwExtraInfo _ = true then none else
    if msg = .wmMouseMove ∧ ¬ f.cap.captureMoves = true then none else Capture.mouseEvent ts' msg m) = _
  split
  · rfl
  · split
    · rfl
    · exact untimed_mouseEvent ts ts' msg m

/-- Callbacks that publish the same event, or both none. -/
theorem agree_hooked (h : Agree f g) {f' g' : Feed} {ev ev' : Option InputEvent} (hf : Hooked f ev f')
    (hg : Hooked g ev' g') (he : ev'.map untimed = ev.map untimed) : Agree f' g' := by
  cases ev with
  | none =>
    obtain rfl := Option.map_eq_none_iff.1 he
    exact agree_quiet_right (agree_quiet h hf) hg
  | some e =>
    obtain ⟨e', rfl, he'⟩ := Option.map_eq_some_iff.1 he
    rw [hf.eq_published, hg.eq_published]
    exact agree_published h he'

theorem agree_pop (h : Agree f g) {f' : Feed} (hp : f.pop = some f') : ∃ g', g.pop = some g' ∧ Agree f' g' := by
  obtain ⟨ev, ring, hn, hr, rfl⟩ := Feed.pop_eq_some hp
  have hpop : g.popped = none := Option.map_eq_none_iff.1 (by rw [h.popped, hn]; rfl)
  have hring := h.ring
  rw [hr, List.map_cons] at hring
  cases hgr : g.ring.pop with
  | none =>
    rw [Fifo.pop_eq_none.1 hgr] at hring
    cases hring
  | some r =>
    obtain ⟨ev', ring'⟩ := r
    rw [Fifo.pop_eq_some.1 hgr, List.map_cons, List.cons.injEq] at hring
    refine ⟨{ g with popped := some ev', ring := ring' }, by unfold Feed.pop; rw [hpop, hgr], ?_⟩
    exact ⟨h.cap, hring.2, congrArg some hring.1, h.history, h.handled⟩

end Agreement

/-! ## Two runs -/

/-- The feeds agree, and so did the answers to the events from outside. -/
def Same (s t : Loop) : Prop := Agree s.toFeed t.toFeed ∧ t.answers = s.answers

theorem same_echo {mapVk : UInt16 → UInt16} (s t : Loop) (l : Label) (s' : Loop) (h : Same s t)
    (he : l.external = false) (hs : step mapVk s l = some s') : Same s' t := by
  cases l with
  | own l => cases he
  | echoKey ts msg k =>
    simp only [step, Option.ite_none_right_eq_some, Option.some.injEq] at hs
    obtain ⟨hx, rfl⟩ := hs
    exact ⟨agree_quiet h.1 (key_ignored (echo_ignored hx _) ts msg), h.2⟩
  | echoMouse ts msg m =>
    simp only [step, Option.ite_none_right_eq_some, Option.some.injEq] at hs
    obtain ⟨hx, rfl⟩ := hs
    exact ⟨agree_quiet h.1 (mouse_ignored (echo_ignored hx _) ts msg), h.2⟩

theorem own_matched {p q : Pipeline} {l m : Pipeline.Label} {p' : Pipeline} (ha : Agree p.toFeed q.toFeed)
    (hl : LikeStep l m) (hs : Pipeline.step p l = some p') :
    ∃ q', Pipeline.step q m = some q' ∧ Agree p'.toFeed q'.toFeed ∧ answer q m = answer p l := by
  cases hl with
  | key ts ts' msg k =>
    cases hs
    refine ⟨_, rfl, ?_, ?_⟩
    · exact agree_hooked ha (p.hooked_key ts msg k) (q.hooked_key ts' msg k) (agree_keyPublished ha ts ts' msg k)
    · simp only [answer, Capture.onKey_swallow]
      rw [ha.cap]
      rfl
  | mouse ts ts' msg m =>
    cases hs
    refine ⟨_, rfl, ?_, ?_⟩
    · exact agree_hooked ha (p.hooked_mouse ts msg m) (q.hooked_mouse ts' msg m) (agree_mousePublished ha ts ts' msg m)
    · simp only [answer, onMouse_answer]
  | pop =>
    obtain ⟨f, hf, rfl⟩ := Option.map_eq_some_iff.1 hs
    obtain ⟨g, hg, hag⟩ := agree_pop ha hf
    exact ⟨{ q with toFeed := g }, by simp only [Pipeline.step, hg, Option.map_some], hag, rfl⟩
  | handle env env' =>
    -- The desktop may answer the two runs differently: only the feed is compared.
    obtain ⟨ev, hev, rfl⟩ := Pipeline.step_handle.1 hs
    have hpop := ha.popped
    rw [hev, Option.map_some] at hpop
    obtain ⟨ev', hev', -⟩ := Option.map_eq_some_iff.1 hpop
    refine ⟨_, Pipeline.step_handle.2 ⟨ev', hev', rfl⟩, ?_, rfl⟩
    exact ⟨ha.cap, ha.ring, rfl, ha.history, congrArg (· + 1) ha.handled⟩
  | refreshConfig =>
    obtain ⟨hn, rfl⟩ := Pipeline.step_refreshConfig.1 hs
    have hpop : q.popped = none := Option.map_eq_none_iff.1 (by rw [ha.popped, hn]; rfl)
    exact ⟨_, Pipeline.step_refreshConfig.2 ⟨hpop, rfl⟩, ha, rfl⟩
  | setTargets targets master => cases hs; exact ⟨_, rfl, ha, rfl⟩

theorem same_own {mapVk : UInt16 → UInt16} (s t : Loop) (l m : Label) (s' : Loop) (h : Same s t) (hl : Like l m)
    (hs : step mapVk s l = some s') : ∃ t', step mapVk t m = some t' ∧ Same s' t' := by
  obtain ⟨ha, hans⟩ := h
  obtain ⟨hl⟩ := hl
  obtain ⟨p, hp, rfl⟩ := Option.map_eq_some_iff.1 hs
  obtain ⟨q, hq, hag, ha'⟩ := own_matched ha hl hp
  refine ⟨_, by simp only [step, hq, Option.map_some]; rfl, hag, ?_⟩
  simp only [hans, ha']

/-! ## What one run does -/

/-- No injected event was swallowed, and each event handled came from a hook event. -/
structure Inv (s : Loop) : Prop where
  queued : Queued s.toFeed
  published : s.history.length ≤ s.answers.length
  passed : ∀ b ∈ s.echoAnswers, b = false

theorem hooked_length {f g : Feed} {ev : Option InputEvent} (h : Hooked f ev g) :
    g.history.length ≤ f.history.length + 1 := by
  cases h with
  | quiet n => exact Nat.le_add_right _ _
  | published ev hev => rw [Feed.published_history, List.length_append]; rfl

theorem inv_echo {s : Loop} (hi : Inv s) {f : Feed} (h : Hooked s.toFeed none f) :
    Inv { s with toFeed := f, echoAnswers := s.echoAnswers ++ [false] } := by
  refine ⟨Feed.queued_hooked hi.queued h, ?_, ?_⟩
  · obtain ⟨n, rfl⟩ := ignored_quiet h
    exact hi.published
  · intro b hb
    rcases List.mem_append.1 hb with hb | hb
    · exact hi.passed b hb
    · exact List.mem_singleton.1 hb

theorem inv_own {s : Loop} (hi : Inv s) {l : Pipeline.Label} {p : Pipeline} (h : Pipeline.step s.toPipeline l = some p) :
    Inv { s with toPipeline := p, answers := s.answers ++ answer s.toPipeline l } := by
  have hq := Pipeline.queued_change hi.queued (Pipeline.change h)
  refine ⟨hq, ?_, hi.passed⟩
  have hle := hi.published
  have hl : p.history.length ≤ s.history.length + (answer s.toPipeline l).length := by
    cases l with
    | key ts msg k => cases h; exact hooked_length (s.hooked_key ts msg k)
    | mouse ts msg m => cases h; exact hooked_length (s.hooked_mouse ts msg m)
    | pop =>
      obtain ⟨f, hf, rfl⟩ := Option.map_eq_some_iff.1 h
      obtain ⟨ev, ring, -, -, rfl⟩ := Feed.pop_eq_some hf
      exact Nat.le_refl _
    | handle env =>
      obtain ⟨ev, -, rfl⟩ := Pipeline.step_handle.1 h
      exact Nat.le_refl _
    | refreshConfig =>
      obtain ⟨-, rfl⟩ := Pipeline.step_refreshConfig.1 h
      exact Nat.le_refl _
    | setTargets targets master => cases h; exact Nat.le_refl _
  simp only [List.length_append]
  omega

theorem inv_step {mapVk : UInt16 → UInt16} {s t : Loop} {l : Label} (hi : Inv s) (h : step mapVk s l = some t) :
    Inv t := by
  cases l with
  | own l =>
    obtain ⟨p, hp, rfl⟩ := Option.map_eq_some_iff.1 h
    exact inv_own hi hp
  | echoKey ts msg k =>
    simp only [step, Option.ite_none_right_eq_some, Option.some.injEq] at h
    obtain ⟨hx, rfl⟩ := h
    have ha := Capture.onKey_swallow s.cap s.ring ts msg k
    rw [echo_ignored hx] at ha
    rw [ha]
    exact inv_echo hi (key_ignored (echo_ignored hx _) ts msg)
  | echoMouse ts msg m =>
    simp only [step, Option.ite_none_right_eq_some, Option.some.injEq] at h
    obtain ⟨hx, rfl⟩ := h
    rw [onMouse_answer]
    exact inv_echo hi (mouse_ignored (echo_ignored hx _) ts msg)

/-- The hooks answer once for each event from outside. -/
theorem answers_length {mapVk : UInt16 → UInt16} {s t : Loop} {ls : List Label} (h : run (step mapVk) s ls = some t) :
    t.answers.length = s.answers.length + ls.countP Label.isHookEvent := by
  induction ls generalizing s with
  | nil => cases h; rfl
  | cons l ls ih =>
    obtain ⟨u, hu, hrun⟩ := run_cons_some.1 h
    have hone : u.answers.length = s.answers.length + if l.isHookEvent then 1 else 0 := by
      cases l with
      | own l =>
        obtain ⟨p, -, rfl⟩ := Option.map_eq_some_iff.1 hu
        simp only [List.length_append]
        cases l <;> rfl
      | echoKey ts msg k =>
        simp only [step, Option.ite_none_right_eq_some, Option.some.injEq] at hu
        obtain ⟨-, rfl⟩ := hu
        rfl
      | echoMouse ts msg m =>
        simp only [step, Option.ite_none_right_eq_some, Option.some.injEq] at hu
        obtain ⟨-, rfl⟩ := hu
        rfl
    rw [ih hrun, hone, List.countP_cons]
    omega

/-- For every run and every run like it without the injected events: the second
one exists, the two feed the broadcaster the same events and answer the same for
the events from outside; and no injected event is swallowed, so that there are
no more events to handle than events from outside. -/
theorem no_feedback (mapVk : UInt16 → UInt16) (cap : Capture) (bc : Broadcaster) (ls ls' : List Label) (s : Loop)
    (h : run (step mapVk) (start cap bc) ls = some s) (hl : List.Forall₂ Like (ls.filter Label.external) ls') :
    (∃ t, run (step mapVk) (start cap bc) ls' = some t ∧ Agree s.toFeed t.toFeed ∧ t.answers = s.answers) ∧
      (∀ b ∈ s.echoAnswers, b = false) ∧ s.handled ≤ ls.countP Label.isHookEvent := by
  have h0 : Same (start cap bc) (start cap bc) := ⟨agree_refl _, rfl⟩
  obtain ⟨t, ht, hag, hans⟩ := run_unwinds same_echo same_own h0 hl h
  have hi := run_inv Inv (fun _ _ _ hi hs => inv_step hi hs)
    (⟨Feed.queued_start cap, Nat.le_refl _, by simp [start]⟩ : Inv (start cap bc)) h
  refine ⟨⟨t, ht, hag, hans⟩, hi.passed, ?_⟩
  have hlen := answers_length h
  -- Handled events were published, and a callback publishes at most one.
  have hhand := Nat.le_trans hi.queued.handled_le (List.length_filter_le _ _)
  have hpub := hi.published
  have h0len : (start cap bc).answers.length = 0 := rfl
  omega

def mirrorA : Broadcaster :=
  (({} : Broadcaster).setRoutes (Routes.addKey {} { vk := 0x41 })).setTargets [⟨some 100⟩, ⟨some 200⟩] 0

/-- The focus goes to the slave and comes back. -/
def slaveThenMaster : Env where
  focus := fun n => if n = 0 then some 200 else some 100

/-- `A` is pressed and mirrored; its injection comes back, then `A` is released. -/
def echoedPress : List Label :=
  [.own .refreshConfig, .own (.key 1 .wmKeyDown { vkCode := 0x41 }), .own .pop, .own (.handle slaveThenMaster),
    .echoKey 2 .wmKeyDown { vkCode := 0x41, flags := 0x10, dwExtraInfo := 0x4D4D0001 },
    .own (.key 3 .wmKeyUp { vkCode := 0x41 })]

/-- The same without the injected event, a little faster. -/
def plainPress : List Label :=
  [.own .refreshConfig, .own (.key 1 .wmKeyDown { vkCode := 0x41 }), .own .pop, .own (.handle slaveThenMaster),
    .own (.key 2 .wmKeyUp { vkCode := 0x41 })]

theorem no_feedback_echoed : ∃ s t, run (step id) (start { acceptForeign := true } mirrorA) echoedPress = some s ∧
    run (step id) (start { acceptForeign := true } mirrorA) plainPress = some t ∧ s.echoAnswers = [false] ∧
    Agree s.toFeed t.toFeed := by
  have h : ((run (step id) (start { acceptForeign := true } mirrorA) echoedPress).map fun s => s.echoAnswers) =
      some [false] := by decide +kernel
  obtain ⟨s, hs, he⟩ := Option.map_eq_some_iff.1 h
  have hl : List.Forall₂ Like (echoedPress.filter Label.external) plainPress :=
    .cons ⟨.refreshConfig⟩ (.cons ⟨.key 1 1 _ _⟩ (.cons ⟨.pop⟩ (.cons ⟨.handle _ _⟩ (.cons ⟨.key 3 2 _ _⟩ .nil))))
  obtain ⟨⟨t, ht, hag, -⟩, -, -⟩ := no_feedback id { acceptForeign := true } mirrorA echoedPress plainPress s hs hl
  exact ⟨s, t, hs, ht, he, hag⟩

end Loop

end MultiMadness
