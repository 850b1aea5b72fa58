import MultiMadness.Pipeline
import MultiMadness.Plans
import MultiMadness.Refresh
/-!
# The configuration of a drain

`Broadcaster::run` refreshes its configuration when it wakes up, and then pops
and handles until the ring is empty. Only a swap refreshes it in between. A
publication is one step here: its parts are in `Refresh`.

- `handle_versioned`: the part of `handle` that touches the configuration.
- `config_recent_iff`: an event gets a configuration as recent as its pop exactly
  when no publication is outstanding at that pop.
- `stale_route`: a withdrawn binding is mirrored from the backlog.
-/

namespace MultiMadness

open RunLib

namespace Broadcaster

/-- The configuration published, the one copied, and the version of each. -/
def versioned (b : Broadcaster) : Config × Config × UInt64 × UInt64 :=
  (b.pending, b.active, b.configVersion, b.seenVersion)

/-- `handle` reaches the swap action. -/
def swaps (b : Broadcaster) (ev : InputEvent) : Prop :=
  b.targets ≠ [] ∧ isSwapHotkey ev b.routes ∧ ev.kind = .keyDown

instance (b : Broadcaster) (ev : InputEvent) : Decidable (b.swaps ev) :=
  inferInstanceAs (Decidable (_ ∧ _ ∧ _))

/-! ## What `handle` does to the configuration -/

theorem refreshConfig_versioned {b c : Broadcaster} (h : b.versioned = c.versioned) :
    b.refreshConfig.versioned = c.refreshConfig.versioned := by
  simp only [versioned, pending, active, Prod.mk.injEq, Config.mk.injEq] at h
  unfold refreshConfig
  rw [h.2.2.1, h.2.2.2]
  split <;> simp only [versioned, pending, active, h]

theorem swapMaster_versioned {b c : Broadcaster} (env : Env) (os : Os) (h : b.versioned = c.versioned) :
    (b.swapMaster env os).1.versioned = (c.swapMaster env os).1.versioned := by
  unfold swapMaster
  split
  · exact refreshConfig_versioned h
  · refine refreshConfig_versioned ?_
    simp only [versioned, pending, active, Prod.mk.injEq, Config.mk.injEq] at h
    simp only [setTargets, versioned, pending, active, h]

/-- Outside the swap `handle` leaves the configuration alone. -/
theorem handle_versioned (b : Broadcaster) (env : Env) (os : Os) (ev : InputEvent) :
    (b.handle env os ev).1.versioned =
      if b.swaps ev then (b.swapMaster env os).1.versioned else b.versioned := by
  rw [handle_eq]
  by_cases ht : b.targets.isEmpty = true
  · rw [if_pos ht, if_neg (fun hs => hs.1 (List.isEmpty_iff.1 ht))]
    rfl
  · have hne : b.targets ≠ [] := fun h => ht (List.isEmpty_iff.2 h)
    rw [if_neg ht]
    by_cases hs : isSwapHotkey ev b.routes ∧ ev.kind = .keyDown
    · rw [if_pos ⟨hne, hs⟩, planOf, swap_alone (show isSwapHotkey ev (b.applied ev).routes from hs.1) hs.2]
      exact swapMaster_versioned env os rfl
    · have hno : ∀ a ∈ ((b.applied ev).planOf env ev).actions, a.kind ≠ .swapMaster := no_swap hs
      rw [if_neg (fun h => hs h.2)]
      have hu := congrArg versioned (foldl_act_uncounted env ev _ (b.applied ev, os) hno)
      exact hu

end Broadcaster

/-! ## The loop -/

/-- Where `run` is. -/
inductive RunLoop where
  | waiting
  | woken
  | draining
deriving DecidableEq

/-- The pipeline under the control of `run`, and what no code reads. `configs`
are the configurations by version, from the one a new broadcaster's copy has;
`copied` is the version of the copy; `outstanding` counts the publications it
does not have; `poppedAt` is the version at the last pop. -/
structure Draining extends Pipeline where
  pc : RunLoop := .waiting
  configs : List Config
  copied : Nat := 0
  outstanding : Nat
  poppedAt : Nat := 0

namespace Draining

inductive Label where
  | key (ts : UInt64) (msg : KeyMsg) (k : KbdLlHook)
  | mouse (ts : UInt64) (msg : MouseMsg) (m : MsLlHook)
  | publish (call : Publication)
  | wake
  | refreshConfig
  | pop
  | empty
  | handle (env : Env)

/-- A new broadcaster has version 0 of its configuration and publishes it as
version 1. -/
def start (cap : Capture) : Draining :=
  { Pipeline.start cap {} with configs := [{}, {}], outstanding := 1 }

/-- A publication completes. -/
def publish (s : Draining) (call : Publication) : Draining :=
  { s with
    bc := s.bc.publish call
    configs := s.configs ++ [(s.bc.publish call).pending]
    outstanding := s.outstanding + 1 }

/-- `refresh_config`. It takes 2^64 outstanding publications for none. -/
def refresh (s : Draining) : Draining :=
  { s with
    bc := s.bc.refreshConfig
    copied := if s.bc.configVersion = s.bc.seenVersion then s.copied else s.configs.length - 1
    outstanding := if s.outstanding % UInt64.size = 0 then s.outstanding else 0 }

/-- The swap callback, when one is set, and the refresh that follows. -/
def swap (s : Draining) (env : Env) : Draining :=
  match env.onSwap with
  | none => s.refresh
  | some call => (s.publish (.setTargets call.targets call.master)).refresh

def step (s : Draining) : Label → Option Draining
  | .key ts msg k => some { s with toFeed := s.key ts msg k }
  | .mouse ts msg m => some { s with toFeed := s.mouse ts msg m }
  | .publish call => some (s.publish call)
  | .wake => if s.pc = .waiting then some { s with pc := .woken } else none
  | .refreshConfig => if s.pc = .woken then some { s.refresh with pc := .draining } else none
  -- The loop goes on without a refresh while the ring has events.
  | .pop =>
    if s.pc = .draining then s.pop.map fun f => { s with toFeed := f, poppedAt := s.configs.length - 1 } else none
  | .empty =>
    match s.pc, s.popped, s.ring.pop with
    | .draining, none, none => some { s with pc := .waiting }
    | _, _, _ => none
  | .handle env =>
    match s.popped with
    | none => none
    | some ev =>
      -- The record follows a swap; the broadcaster is the one `handle` leaves.
      let (bc, os) := s.bc.handle env s.os ev
      let t := if s.bc.swaps ev then s.swap env else s
      some { t with toFeed := s.done, bc := bc, os := os }

/-- What a step does. -/
inductive Change (s : Draining) : Label → Draining → Prop where
  | hooked (l : Label) (f : Feed) (hl : ¬ l matches .pop) (hp : f.popped = s.popped) : Change s l { s with toFeed := f }
  | published (call : Publication) : Change s (.publish call) (s.publish call)
  | moved (l : Label) (pc : RunLoop) (hl : ¬ l matches .pop) : Change s l { s with pc := pc }
  | refreshed : Change s .refreshConfig { s.refresh with pc := .draining }
  | popped (f : Feed) (hf : s.pop = some f) :
      Change s .pop { s with toFeed := f, poppedAt := s.configs.length - 1 }
  | handled (env : Env) (ev : InputEvent) (bc : Broadcaster) (os : Os) (hp : s.popped = some ev)
      (hv : bc.versioned = (if s.bc.swaps ev then s.swap env else s).bc.versioned) :
      Change s (.handle env)
        { (if s.bc.swaps ev then s.swap env else s) with toFeed := s.done, bc := bc, os := os }

theorem swap_bc (s : Draining) (env : Env) (os : Os) : (s.swap env).bc = (s.bc.swapMaster env os).1 := by
  cases hcb : env.onSwap <;> simp only [swap, Broadcaster.swapMaster, hcb] <;> rfl

theorem change {s t : Draining} {l : Label} (h : step s l = some t) : Change s l t := by
  cases l with
  | key ts msg k => cases h; exact .hooked _ _ nofun rfl
  | mouse ts msg m => cases h; exact .hooked _ _ nofun rfl
  | publish call => cases h; exact .published call
  | wake =>
    simp only [step] at h
    split at h
    · cases h; exact .moved _ _ nofun
    · cases h
  | refreshConfig =>
    simp only [step] at h
    split at h
    · cases h; exact .refreshed
    · cases h
  | pop =>
    simp only [step] at h
    split at h
    · obtain ⟨f, hf, rfl⟩ := Option.map_eq_some_iff.1 h
      exact .popped f hf
    · cases h
  | empty =>
    simp only [step] at h
    split at h
    · cases h; exact .moved _ _ nofun
    · cases h
  | handle env =>
    simp only [step] at h
    split at h
    · cases h
    · next ev hp =>
      cases h
      refine .handled env ev _ _ hp ?_
      rw [s.bc.handle_versioned env s.os ev]
      split
      · rw [swap_bc s env s.os]
      · rfl

/-! ## The versions -/

/-- The configurations by version, with the copy and what is published. -/
structure Inv (s : Draining) : Prop where
  length : s.configs.length = s.copied + s.outstanding + 1
  pending : s.configs[s.copied + s.outstanding]? = some s.bc.pending
  active : s.configs[s.copied]? = some s.bc.active
  configVersion : s.bc.configVersion = UInt64.ofNat (s.copied + s.outstanding)
  seenVersion : s.bc.seenVersion = UInt64.ofNat s.copied

section Versions
variable {s t : Draining} {l : Label}

theorem inv_start (cap : Capture) : Inv (start cap) := ⟨rfl, rfl, rfl, rfl, rfl⟩

theorem inv_congr (hi : Inv s) (hc : t.configs = s.configs) (hn : t.copied = s.copied)
    (ho : t.outstanding = s.outstanding) (hv : t.bc.versioned = s.bc.versioned) : Inv t := by
  simp only [Broadcaster.versioned, Prod.mk.injEq] at hv
  obtain ⟨hp, ha, hcv, hsv⟩ := hv
  refine ⟨?_, ?_, ?_, ?_, ?_⟩
  · rw [hc, hn, ho, hi.length]
  · rw [hc, hn, ho, hi.pending, hp]
  · rw [hc, hn, hi.active, ha]
  · rw [hcv, hn, ho, hi.configVersion]
  · rw [hsv, hn, hi.seenVersion]

theorem publish_bc (b : Broadcaster) (call : Publication) :
    (b.publish call).active = b.active ∧ (b.publish call).configVersion = b.configVersion + 1 ∧
      (b.publish call).seenVersion = b.seenVersion := by
  cases call <;> exact ⟨rfl, rfl, rfl⟩

theorem inv_publish (hi : Inv s) (call : Publication) : Inv (s.publish call) := by
  obtain ⟨ha, hcv, hsv⟩ := publish_bc s.bc call
  have hlt : s.copied < s.configs.length := by rw [hi.length]; omega
  refine ⟨?_, ?_, ?_, ?_, ?_⟩
  · simp only [publish, List.length_append, hi.length, List.length_singleton, Nat.add_assoc]
  · change (s.configs ++ [_])[s.copied + s.outstanding + 1]? = _
    rw [← hi.length, List.getElem?_concat_length]
    rfl
  · change (s.configs ++ [_])[s.copied]? = some (s.bc.publish call).active
    rw [List.getElem?_append_left hlt, hi.active, ha]
  · change (s.bc.publish call).configVersion = UInt64.ofNat (s.copied + s.outstanding + 1)
    rw [hcv, hi.configVersion]
    exact (UInt64.ofNat_add (s.copied + s.outstanding) 1).symm
  · exact hsv.trans hi.seenVersion

theorem ofNat_add_eq_left (m n : Nat) : UInt64.ofNat (m + n) = UInt64.ofNat m ↔ n % UInt64.size = 0 := by
  rw [← UInt64.toNat_inj, UInt64.toNat_ofNat', UInt64.toNat_ofNat', UInt64.size]
  omega

/-- The versions agree when none is outstanding, and when they have come round. -/
theorem Inv.versions_agree (hi : Inv s) :
    s.bc.configVersion = s.bc.seenVersion ↔ s.outstanding % UInt64.size = 0 := by
  rw [hi.configVersion, hi.seenVersion, ofNat_add_eq_left]

theorem inv_refresh (hi : Inv s) : Inv s.refresh := by
  by_cases hv : s.bc.configVersion = s.bc.seenVersion
  · have ho := hi.versions_agree.1 hv
    refine inv_congr hi rfl ?_ ?_ ?_
    · exact if_pos hv
    · exact if_pos ho
    · simp only [refresh, Broadcaster.refreshConfig, if_pos hv]
  · -- The code copies exactly when the count says that something is outstanding.
    have ho := fun h => hv (hi.versions_agree.2 h)
    have hn : s.refresh.copied = s.copied + s.outstanding := by
      simp only [refresh, if_neg hv, hi.length, Nat.add_sub_cancel]
    have h0 : s.refresh.outstanding = 0 := if_neg ho
    have hb : s.refresh.bc.versioned = (s.bc.pending, s.bc.pending, s.bc.configVersion, s.bc.configVersion) := by
      simp only [refresh, Broadcaster.refreshConfig, if_neg hv]
      rfl
    simp only [Broadcaster.versioned, Prod.mk.injEq] at hb
    obtain ⟨hp, ha, hcv, hsv⟩ := hb
    refine ⟨?_, ?_, ?_, ?_, ?_⟩
    · rw [hn, h0]; exact hi.length
    · rw [hn, h0, hp]; exact hi.pending
    · rw [hn, ha]; exact hi.pending
    · rw [hn, h0, hcv]; exact hi.configVersion
    · rw [hn, hsv]; exact hi.configVersion

theorem inv_swap (hi : Inv s) (env : Env) : Inv (s.swap env) := by
  unfold swap
  split
  · exact inv_refresh hi
  · exact inv_refresh (inv_publish hi _)

theorem inv_change (hi : Inv s) (h : Change s l t) : Inv t := by
  cases h with
  | hooked l f hl hp => exact inv_congr hi rfl rfl rfl rfl
  | published call => exact inv_publish hi call
  | moved l pc hl => exact inv_congr hi rfl rfl rfl rfl
  | refreshed => exact inv_congr (inv_refresh hi) rfl rfl rfl rfl
  | popped f hf => exact inv_congr hi rfl rfl rfl rfl
  | handled env ev bc os hp hv =>
    have ht : Inv (if s.bc.swaps ev then s.swap env else s) := by
      split
      · exact inv_swap hi env
      · exact hi
    exact inv_congr ht rfl rfl rfl hv

end Versions

/-! ## Recency -/

/-- The event popped last meets a configuration that was published no earlier
than the last one complete at its pop. -/
def Recent (s : Draining) : Prop :=
  s.popped.isSome = true → s.poppedAt ≤ s.copied ∧ s.configs[s.copied]? = some s.bc.active

/-- No publication is outstanding when an event is popped. -/
def UpToDate (s : Draining) (l : Label) : Prop := l = .pop → (step s l).isSome = true → s.outstanding = 0

section Recency
variable {s t : Draining} {l : Label}

theorem copied_le_refresh (hi : Inv s) : s.copied ≤ s.refresh.copied := by
  simp only [refresh]
  split
  · exact le_rfl
  · rw [hi.length]; omega

theorem recent_step (hi : Inv s) (hr : Recent s) (hu : UpToDate s l) (h : step s l = some t) : Recent t := by
  have hit := inv_change hi (change h)
  intro hp
  refine ⟨?_, hit.active⟩
  cases change h with
  | hooked l f hl hf => exact (hr (by rw [← hf]; exact hp)).1
  | published call => exact (hr hp).1
  | moved l pc hl => exact (hr hp).1
  | refreshed => exact (hr hp).1.trans (copied_le_refresh hi)
  | popped f hf =>
    have h0 := hu rfl (by rw [h]; rfl)
    change s.configs.length - 1 ≤ s.copied
    rw [hi.length, h0]
    omega
  | handled env ev bc os hev hv => cases hp

/-- At a pop with publications outstanding the copy is older than the last of them. -/
theorem upToDate_of_recent (hi : Inv s) (h : step s l = some t) (hr : Recent t) : UpToDate s l := by
  rintro rfl -
  cases change h with
  | hooked l f hl hf => exact absurd rfl hl
  | moved l pc hl => exact absurd rfl hl
  | popped f hf =>
    obtain ⟨ev, ring, -, -, rfl⟩ := Feed.pop_eq_some hf
    have hle : s.configs.length - 1 ≤ s.copied := (hr rfl).1
    rw [hi.length] at hle
    omega

/-- In every interleaving: each event is handled with a configuration at least
as recent as the last publication complete at its pop, exactly when at each pop
no publication is outstanding. -/
theorem config_recent_iff (cap : Capture) (ls : List Label) :
    Always step Recent (start cap) ls ↔ AllSteps step UpToDate (start cap) ls := by
  refine always_iff_allSteps (fun s => Inv s ∧ Recent s) (fun s hs => hs.2) ?_ ?_ ?_ ⟨inv_start cap, nofun⟩
  · rintro s l t ⟨hi, hr⟩ hu h
    exact ⟨inv_change hi (change h), recent_step hi hr hu h⟩
  · rintro s l t ⟨hi, -⟩ h hr
    exact upToDate_of_recent hi h hr
  · rintro s l h rfl hsome
    rw [h] at hsome
    cases hsome

end Recency

/-- `A` is bound; `B` and `A` are pressed. Once `B` is handled the binding is
withdrawn, then `A` is popped. -/
def backlog : List Label :=
  [.publish (.setRoutes (some (Routes.addKey {} { vk := 0x41 }))), .publish (.setTargets [⟨some 100⟩, ⟨some 200⟩] 0),
    .key 1 .wmKeyDown { vkCode := 0x42 }, .key 2 .wmKeyDown { vkCode := 0x41 }, .wake, .refreshConfig, .pop,
    .handle {}, .publish (.setRoutes none), .pop]

/-- Nothing is bound any more when `A` is popped, and `A` is mirrored. -/
theorem stale_route : ∃ s t, run step (start {}) backlog = some s ∧ ¬ Recent s ∧ s.bc.pendingRoutes.keys = [] ∧
    step s (.handle { focus := fun _ => some 200 }) = some t ∧
    ⟨.deliver 1, .sendKey 0x41 0 true 0, some 200⟩ ∈ t.os.log := by
  have h : ((run step (start {}) backlog).bind fun s =>
      (step s (.handle { focus := fun _ => some 200 })).map fun t =>
        (s.popped.isSome, s.poppedAt, s.copied, s.bc.pendingRoutes.keys.length, t.os.log.head?)) =
      some (true, 4, 3, 0, some ⟨.deliver 1, .sendKey 0x41 0 true 0, some 200⟩) := by decide +kernel
  obtain ⟨s, hs, h⟩ := Option.bind_eq_some_iff.1 h
  obtain ⟨t, ht, h⟩ := Option.map_eq_some_iff.1 h
  simp only [Prod.mk.injEq] at h
  obtain ⟨hp, hn, hc, hk, hlog⟩ := h
  refine ⟨s, t, hs, ?_, List.length_eq_zero_iff.1 hk, ht, List.mem_of_head? hlog⟩
  intro hr
  have hle := (hr hp).1
  rw [hn, hc] at hle
  exact absurd hle (by decide)

end Draining

end MultiMadness
