import MultiMadness.Draining
import MultiMadness.Options
import MultiMadness.Swallowing
/-!
# Mirroring by window messages

With `--strategy post` a delivery is a posted message. It needs no focus, so no
repairs follow it, and what is mirrored is exact: swaps, windows that close and
configurations that change in between make no difference.

- `handle_posts`: what one call of `handle` posts.
- `posted_exactly`: what a run has posted is what it has handled, each event once
  to every slave that was live at its turn.
-/

namespace MultiMadness.Pipeline

open RunLib KeyState
open Feed (Queued)

/-! ## What is owed -/

/-- The options let the event through, with this keyboard. -/
def Admitted (args : Args) (ev : InputEvent) (ks : KeyState) : Prop :=
  isKey ev.kind = true ∧ ¬ Hotkey args ev.vk ∧ Listed args ev.vk ∨
    (isMouseButton ev.kind = true ∨ ev.kind = .wheel) ∧ MouseOpen args ks

theorem rule_iff {args : Args} {ev : InputEvent} {ks : KeyState} {r : TargetMask × Strategy} :
    rule ev (routesOf args) ks = some r ↔ Admitted args ev ks ∧ r = (kAllTargets, strategyOf args) := by
  unfold Admitted
  by_cases hk : isKey ev.kind = true
  · have hm : ¬ (isMouseButton ev.kind = true ∨ ev.kind = .wheel) := fun h => isKey_of_mouse h hk
    by_cases hs : Hotkey args ev.vk
    · rw [rule, if_pos hk, if_pos ⟨hk, hotkey_iff.1 hs⟩]
      simp [hs, hm]
    · rw [rule_key hk hs, Option.map_eq_some_iff]
      constructor
      · rintro ⟨b, hb, rfl⟩
        obtain ⟨hl, rfl⟩ := find_routesOf.1 hb
        exact ⟨.inl ⟨hk, hs, hl⟩, rfl⟩
      · rintro ⟨⟨-, -, hl⟩ | ⟨h, -⟩, rfl⟩
        · exact ⟨_, find_routesOf.2 ⟨hl, rfl⟩, rfl⟩
        · exact absurd h hm
  · by_cases hm : isMouseButton ev.kind = true ∨ ev.kind = .wheel
    · obtain ⟨hopen, hclosed⟩ := @rule_mouse args ev ks hm
      by_cases ho : MouseOpen args ks
      · rw [hopen ho, Option.some.injEq]
        exact ⟨fun h => ⟨.inr ⟨hm, ho⟩, h.symm⟩, fun h => h.2.symm⟩
      · rw [hclosed ho]
        simp [hk, ho]
    · rw [rule, if_neg hk, if_neg hm]
      simp [hk, hm]

instance (args : Args) (ev : InputEvent) (ks : KeyState) : Decidable (Admitted args ev ks) :=
  decidable_of_iff ((rule ev (routesOf args) ks).isSome = true) (by
    rw [Option.isSome_iff_exists]
    exact ⟨fun ⟨_, h⟩ => (rule_iff.1 h).1, fun h => ⟨_, rule_iff.2 ⟨h, rfl⟩⟩⟩)

/-- The live windows of a configuration but for the master's. -/
def slaves (b : Broadcaster) (env : Env) : List Nat :=
  mirrorTargets kAllTargets (Broadcaster.aliveMask env b.targets) b.master

/-- A publication, and the broadcaster and the system at its turn. -/
structure Turn where
  published : Published
  bc : Broadcaster
  env : Env

/-- What is to be posted at a turn. -/
def Turn.posts (args : Args) (turn : Turn) : List (Sender × Output) :=
  if Admitted args turn.published.ev turn.published.keys then
    (slaves turn.bc turn.env).flatMap fun t => (turn.bc.postOutputs turn.env t turn.published.ev).map (.deliver t, ·)
  else []

/-- The turn moves the focus: the hotkey is pressed, and the swap does so. -/
def Turn.moves (turn : Turn) : Bool := turn.bc.swaps turn.published.ev ∧ turn.env.onSwap.isSome = true

def asked (e : Sent) : Sender × Output := (e.sender, e.out)

/-! ## One turn -/

/-- The routes of the options have been published; without them there are no targets. -/
def Configured (args : Args) (b : Broadcaster) : Prop :=
  b.pendingRoutes = routesOf args ∧ (b.targets = [] ∨ b.routes = routesOf args)

section Turn
variable {args : Args} {b : Broadcaster}

theorem slaves_nil {env : Env} (h : b.targets = []) : slaves b env = [] := by
  rw [List.eq_nil_iff_forall_not_mem]
  intro t ht
  have hlt := Broadcaster.mirrorTargets_alive ht
  rw [h] at hlt
  exact Nat.not_lt_zero t hlt

/-- Deliveries by window message leave their posts. -/
theorem chunks_asked {env : Env} {ev : InputEvent} {l : List Nat} {chunks : List (List Sent)}
    (h : List.Forall₂ (b.Delivery env ev .windowMessage) l chunks) :
    chunks.flatten.map asked = l.flatMap fun t => (b.postOutputs env t ev).map (.deliver t, ·) := by
  induction h with
  | nil => rfl
  | cons hd _ ih =>
    obtain ⟨fg, rfl⟩ := hd
    rw [List.flatten_cons, List.map_append, ih, List.flatMap_cons, List.map_map]
    rfl

theorem swapMaster_focusCalls (env : Env) (os : Os) :
    (b.swapMaster env os).2.focusCalls = os.focusCalls + if env.onSwap.isSome then 1 else 0 := by
  unfold Broadcaster.swapMaster
  cases env.onSwap <;> rfl

/-- One call of `handle`: what it posts, and what it does to the focus. -/
theorem handle_posts (hpost : strategyOf args = .windowMessage) (hc : Configured args b) (env : Env) (os : Os)
    {r : Published} (hk : (b.applied r.ev).masterKeys = r.keys) :
    (b.handle env os r.ev).2.log.map asked = os.log.map asked ++ Turn.posts args ⟨r, b, env⟩ ∧
      (b.handle env os r.ev).2.focusCalls = os.focusCalls + if Turn.moves ⟨r, b, env⟩ then 1 else 0 := by
  rw [Broadcaster.handle_eq, Turn.posts]
  dsimp only
  by_cases ht : b.targets = []
  · have hm : Turn.moves ⟨r, b, env⟩ = false := decide_eq_false fun h => h.1.1 ht
    rw [if_pos (List.isEmpty_iff.2 ht), slaves_nil ht, hm]
    simp
  have hroutes : (b.applied r.ev).routes = routesOf args := hc.2.resolve_left ht
  rw [if_neg (fun h => ht (List.isEmpty_iff.1 h)), Broadcaster.planOf, plan_actions, hk, hroutes]
  by_cases hs : isSwapHotkey r.ev (routesOf args)
  · have hadm : ¬ Admitted args r.ev r.keys := by
      intro ha
      have hrule := rule_iff.2 ⟨ha, rfl⟩
      rw [rule, if_pos hs.1, if_pos hs] at hrule
      cases hrule
    rw [if_pos hs, if_neg hadm, List.append_nil]
    by_cases hd : r.ev.kind = .keyDown
    · have hm : Turn.moves ⟨r, b, env⟩ = env.onSwap.isSome := by
        have hsw : b.swaps r.ev := ⟨ht, by rw [← hroutes] at hs; exact hs, hd⟩
        simp [Turn.moves, hsw]
      rw [if_pos hd, hm]
      exact ⟨congrArg _ (Broadcaster.swap_log (b.applied r.ev) env os), swapMaster_focusCalls env os⟩
    · have hm : Turn.moves ⟨r, b, env⟩ = false := decide_eq_false fun h => hd h.1.2.2
      rw [if_neg hd, hm]
      exact ⟨rfl, rfl⟩
  · have hm : Turn.moves ⟨r, b, env⟩ = false :=
      decide_eq_false fun h => hs (by rw [← hroutes]; exact h.1.2.1)
    rw [if_neg hs, hm]
    by_cases ha : Admitted args r.ev r.keys
    · -- A delivery by window message needs no repairs.
      have hacts : ruleActions r.ev (Broadcaster.aliveMask env (b.applied r.ev).targets) (b.applied r.ev).master r.keys
          (kAllTargets, .windowMessage) = (slaves b env).map (deliverTo .windowMessage) := by
        simp only [ruleActions, reduceCtorEq, and_false, if_false, List.append_nil]
        rfl
      rw [if_pos ha, rule_iff.2 ⟨ha, rfl⟩, hpost, Option.map_some, Option.getD_some, hacts]
      obtain ⟨chunks, hch, hlog, hcalls⟩ := Broadcaster.deliveries_os env r.ev .windowMessage (slaves b env)
        (b.applied r.ev, os) fun t ht => Broadcaster.mirrorTargets_alive ht
      refine ⟨?_, hcalls⟩
      rw [hlog, List.map_append, chunks_asked hch]
      rfl
    · have hnone : rule r.ev (routesOf args) r.keys = none :=
        Option.eq_none_iff_forall_ne_some.2 fun p hp => ha (rule_iff.1 hp).1
      rw [if_neg ha, hnone, List.append_nil]
      exact ⟨rfl, rfl⟩

theorem configured_refresh (h : Configured args b) : Configured args b.refreshConfig := by
  unfold Broadcaster.refreshConfig
  split
  · exact h
  · exact ⟨h.1, .inr h.1⟩

theorem configured_of_versioned {c : Broadcaster} (h : Configured args b) (hv : c.versioned = b.versioned) :
    Configured args c := by
  simp only [Broadcaster.versioned, Broadcaster.pending, Broadcaster.active, Prod.mk.injEq, Config.mk.injEq] at hv
  obtain ⟨⟨hp, -⟩, ⟨hr, ht, -⟩, -⟩ := hv
  unfold Configured
  rw [hp, hr, ht]
  exact h

theorem configured_handle (h : Configured args b) (env : Env) (os : Os) (ev : InputEvent) :
    Configured args (b.handle env os ev).1 := by
  have hv := b.handle_versioned env os ev
  split at hv
  · refine configured_of_versioned ?_ hv
    unfold Broadcaster.swapMaster
    split
    · exact configured_refresh h
    · exact configured_refresh (b := b.setTargets _ _) h
  · exact configured_of_versioned h hv

end Turn

/-! ## A run -/

/-- The broadcaster and the system at a call of `handle`. -/
def turning (s : Pipeline) : Label → List (Broadcaster × Env)
  | .handle env => [(s.bc, env)]
  | _ => []

/-- The turns of the run from `s` along `ls`, which goes to `t`. -/
def turns (s t : Pipeline) (ls : List Label) : List Turn :=
  List.zipWith (fun r turn => ⟨r, turn.1, turn.2⟩) (t.history.drop s.handled) (trace step turning s ls)

structure Ready (args : Args) (s : Pipeline) : Prop where
  queued : Queued s.toFeed
  behind : Behind s
  configured : Configured args s.bc

section Run
variable {args : Args} {s t : Pipeline} {l : Label} {ls : List Label}

theorem ready_step (hr : Ready args s) (h : step s l = some t) : Ready args t := by
  refine ⟨queued_change hr.queued (change h), behind_change hr.queued hr.behind (change h), ?_⟩
  have hc := hr.configured
  cases l with
  | key ts msg k => cases h; exact hc
  | mouse ts msg m => cases h; exact hc
  | pop =>
    obtain ⟨f, -, rfl⟩ := Option.map_eq_some_iff.1 h
    exact hc
  | handle env =>
    obtain ⟨ev, -, rfl⟩ := step_handle.1 h
    exact configured_handle hc env s.os ev
  | refreshConfig =>
    obtain ⟨-, rfl⟩ := step_refreshConfig.1 h
    exact configured_refresh hc
  | setTargets targets master => cases h; exact hc

/-- The history only grows, and so do the drops. -/
theorem change_grows (h : Change s t) : s.history <+: t.history ∧ (t.cap.dropped = 0 → s.cap.dropped = 0) := by
  cases h with
  | hooked ev f h =>
    obtain ⟨-, -, hdrop, recs, hhist, -⟩ := h.frame
    exact ⟨⟨recs, hhist.symm⟩, hdrop⟩
  | popped f h =>
    obtain ⟨ev, ring, -, -, rfl⟩ := Feed.pop_eq_some h
    exact ⟨List.prefix_refl _, id⟩
  | handled ev bc os hp hk => exact ⟨List.prefix_refl _, id⟩
  | configured bc hk => exact ⟨List.prefix_refl _, id⟩

theorem run_grows (h : run step s ls = some t) : s.history <+: t.history ∧ (t.cap.dropped = 0 → s.cap.dropped = 0) :=
  run_inv (fun u => s.history <+: u.history ∧ (u.cap.dropped = 0 → s.cap.dropped = 0))
    (fun _ _ _ hi hs => ⟨hi.1.trans (change_grows (change hs)).1, fun h0 => hi.2 ((change_grows (change hs)).2 h0)⟩)
    ⟨List.prefix_refl _, id⟩ h

/-- Only a call of `handle` is a turn, and nothing else posts or moves the focus. -/
theorem step_quiet (h : step s l = some t) (hl : turning s l = []) : t.os = s.os ∧ t.handled = s.handled := by
  cases l with
  | key ts msg k => cases h; exact ⟨rfl, (s.hooked_key ts msg k).frame.2.1⟩
  | mouse ts msg m => cases h; exact ⟨rfl, (s.hooked_mouse ts msg m).frame.2.1⟩
  | pop =>
    obtain ⟨f, hf, rfl⟩ := Option.map_eq_some_iff.1 h
    obtain ⟨ev, ring, -, -, rfl⟩ := Feed.pop_eq_some hf
    exact ⟨rfl, rfl⟩
  | handle env => cases hl
  | refreshConfig =>
    obtain ⟨-, rfl⟩ := step_refreshConfig.1 h
    exact ⟨rfl, rfl⟩
  | setTargets targets master => cases h; exact ⟨rfl, rfl⟩

/-- What the turns of a run have done. -/
structure Done (args : Args) (turns : List Turn) (s t : Pipeline) : Prop where
  order : turns.map (·.published) = (t.history.drop s.handled).take turns.length
  handled : t.handled = s.handled + turns.length
  log : t.os.log.map asked = s.os.log.map asked ++ turns.flatMap (Turn.posts args)
  focus : t.os.focusCalls = s.os.focusCalls + turns.countP Turn.moves

theorem turns_quiet {u : Pipeline} (h : step s l = some u) (hl : turning s l = []) :
    turns s t (l :: ls) = turns u t ls := by
  rw [turns, trace_cons h, hl, ← (step_quiet h hl).2]
  rfl

theorem drop_handled {r : Published} (hr : t.history[s.handled]? = some r) :
    t.history.drop s.handled = r :: t.history.drop (s.handled + 1) := by
  obtain ⟨hlt, rfl⟩ := List.getElem?_eq_some_iff.1 hr
  exact List.drop_eq_getElem_cons hlt

/-- The first turn is the one of the first publication not handled yet. -/
theorem turns_handle {u : Pipeline} {env : Env} {r : Published} (h : step s (.handle env) = some u)
    (hr : t.history[s.handled]? = some r) :
    turns s t (.handle env :: ls) = ⟨r, s.bc, env⟩ :: turns u t ls := by
  obtain ⟨ev, -, rfl⟩ := step_handle.1 h
  rw [turns, trace_cons h, drop_handled hr]
  rfl

theorem run_posts (hpost : strategyOf args = .windowMessage) (hr : Ready args s) (h : run step s ls = some t)
    (h0 : t.cap.dropped = 0) : Done args (turns s t ls) s t := by
  induction ls generalizing s with
  | nil =>
    cases h
    have hnone : turns t t [] = [] := List.zipWith_nil_right
    rw [hnone]
    exact ⟨rfl, rfl, (List.append_nil _).symm, rfl⟩
  | cons l ls ih =>
    obtain ⟨u, hu, hrun⟩ := run_cons_some.1 h
    have hdone := ih (ready_step hr hu) hrun
    cases hl : turning s l with
    | nil =>
      obtain ⟨hos, hhandled⟩ := step_quiet hu hl
      rw [turns_quiet hu hl]
      refine ⟨?_, ?_, ?_, ?_⟩
      · rw [hdone.order, hhandled]
      · rw [hdone.handled, hhandled]
      · rw [hdone.log, hos]
      · rw [hdone.focus, hos]
    | cons turn rest =>
      cases l with
      | handle env =>
        obtain ⟨ev, hp, rfl⟩ := step_handle.1 hu
        have hdrop : s.cap.dropped = 0 := (run_grows hrun).2 h0
        obtain ⟨r, hget, rfl, hkeys, -⟩ := (delayedReplay_of hr.queued hr.behind hdrop).applied ev hp
        have hget' : t.history[s.handled]? = some r := by
          obtain ⟨recs, hrecs⟩ := (run_grows h).1
          rw [← hrecs, List.getElem?_append_left (List.getElem?_eq_some_iff.1 hget).1]
          exact hget
        obtain ⟨hlog, hfocus⟩ := handle_posts hpost hr.configured env s.os hkeys
        rw [turns_handle hu hget']
        refine ⟨?_, ?_, ?_, ?_⟩
        · rw [List.map_cons, hdone.order, List.length_cons, drop_handled hget', List.take_succ_cons]
          rfl
        · rw [hdone.handled, List.length_cons, Nat.add_comm _ 1, ← Nat.add_assoc]
          rfl
        · rw [hdone.log, List.flatMap_cons, ← List.append_assoc, ← hlog]
        · rw [hdone.focus, List.countP_cons, Nat.add_comm (List.countP _ _), ← Nat.add_assoc, ← hfocus]
      | _ => cases hl

end Run

theorem ready_cmdRun (args : Args) (acceptForeign : Bool) (targets : List Target) (master : Nat) :
    Ready args (cmdRun (routesOf args) acceptForeign targets master) where
  queued := Feed.queued_start _
  behind _ := rfl
  configured := ⟨rfl, .inl rfl⟩

theorem strategyOf_post {args : Args} (h : args.get "strategy".toList = some "post".toList) :
    strategyOf args = .windowMessage := by
  rw [strategyOf, Args.getOr, h, Option.getD_some, if_pos rfl]

/-- Mirroring, turn by turn. -/
structure PostedExactly (args : Args) (turns : List Turn) (s : Pipeline) : Prop where
  /-- The publications have their turns in order, none twice and none skipped. -/
  order : turns.map (·.published) = s.history.take s.handled
  caughtUp : s.Drained → s.handled = s.history.length
  /-- What is admitted is posted to every live slave, and nothing else is sent at all. -/
  log : s.os.log.map asked = turns.flatMap (Turn.posts args)
  /-- Only a swap moves the focus. -/
  focus : s.os.focusCalls = turns.countP Turn.moves

/-- Under `--strategy post`, whatever is swapped, closed or published in between,
as long as the ring takes every event. -/
theorem posted_exactly {args : Args} (hpost : args.get "strategy".toList = some "post".toList) (acceptForeign : Bool)
    (targets : List Target) (master : Nat) {ls : List Label} {s : Pipeline}
    (h : run step (cmdRun (routesOf args) acceptForeign targets master) ls = some s) (h0 : s.cap.dropped = 0) :
    PostedExactly args (turns (cmdRun (routesOf args) acceptForeign targets master) s ls) s := by
  have hready := ready_cmdRun args acceptForeign targets master
  obtain ⟨horder, hhandled, hlog, hfocus⟩ := run_posts (strategyOf_post hpost) hready h h0
  have hqueued : Queued s.toFeed := (run_inv (Ready args) (fun _ _ _ hi hs => ready_step hi hs) hready h).queued
  rw [show (cmdRun (routesOf args) acceptForeign targets master).handled = 0 from rfl, Nat.zero_add] at hhandled
  refine ⟨?_, fun hd => (hqueued.all_handled h0 hd).symm, hlog, ?_⟩
  · rw [horder, hhandled]
    rfl
  · rw [hfocus]
    exact Nat.zero_add _

/-- `W` goes down, the hotkey makes the second client the master, and `W` goes up. -/
def pressSwapRelease : List Label :=
  [.refreshConfig, .key 1 .wmKeyDown { vkCode := 0x57 }, .pop, .handle {}, .key 2 .wmKeyDown { vkCode := 0x7B }, .pop,
    .handle { onSwap := some ⟨[⟨some 100⟩, ⟨some 200⟩], 1, some 200⟩ }, .key 3 .wmKeyUp { vkCode := 0x57 }, .pop,
    .handle {}]

def postTokens : List Token := ["--keys".toList, "W".toList, "--strategy".toList, "post".toList]

/-- The press went to one client, the release to the other. -/
theorem posted_exactly_swap :
    ∃ s, run step (cmdRun (routesOf (Args.ofArgv postTokens 0)) false [⟨some 100⟩, ⟨some 200⟩] 0) pressSwapRelease = some s ∧
      s.os.log.map asked =
        [(.deliver 1, .postKey (some 200) 0x57 0 true 0), (.deliver 0, .postKey (some 100) 0x57 0 false 0)] ∧
      PostedExactly (Args.ofArgv postTokens 0)
        (turns (cmdRun (routesOf (Args.ofArgv postTokens 0)) false [⟨some 100⟩, ⟨some 200⟩] 0) s pressSwapRelease) s := by
  have h : ((run step (cmdRun (routesOf (Args.ofArgv postTokens 0)) false [⟨some 100⟩, ⟨some 200⟩] 0) pressSwapRelease).map
      fun s => (s.cap.dropped, s.os.log.map asked)) =
      some (0, [(.deliver 1, .postKey (some 200) 0x57 0 true 0), (.deliver 0, .postKey (some 100) 0x57 0 false 0)]) := by
    decide +kernel
  obtain ⟨s, hs, h'⟩ := Option.map_eq_some_iff.1 h
  simp only [Prod.mk.injEq] at h'
  exact ⟨s, hs, h'.2, posted_exactly (by decide +kernel) false _ 0 hs h'.1⟩

end MultiMadness.Pipeline
