import MultiMadness.RunLib.Runs
import MultiMadness.Broadcaster
/-!
# Publishing a configuration

Any number of threads call `set_routes` and `set_targets`; the broadcaster's
thread calls `refresh_config`. A step is what a thread does between two points
where another can come in. The version is incremented under the lock, and
loaded without it.

- `Inv`: how both versions follow the publications, at every point of every
  thread.
- `snapshot_coherent`: the broadcaster's copy is never torn and never misses a
  publication, as long as the version does not come round.
- `version_wraps`: after 2^64 - 1 publications it has come round to the version
  of a new broadcaster.
-/

namespace MultiMadness

open RunLib

/-- A call of `set_routes` or of `set_targets`. Null routes are an empty table. -/
inductive Publication where
  | setRoutes (routes : Option Routes)
  | setTargets (targets : List Target) (master : Nat)

/-- What is published: what the lock guards, and what the broadcaster copies. -/
structure Config where
  routes : Routes := {}
  targets : List Target := []
  master : Nat := 0

def Config.apply (c : Config) : Publication → Config
  | .setRoutes routes => { c with routes := routes.getD {} }
  | .setTargets targets master => { c with targets := targets, master := master }

namespace Broadcaster

def pending (b : Broadcaster) : Config := ⟨b.pendingRoutes, b.pendingTargets, b.pendingMaster⟩

/-- The broadcaster's own copy. -/
def active (b : Broadcaster) : Config := ⟨b.routes, b.targets, b.master⟩

def publish (b : Broadcaster) : Publication → Broadcaster
  | .setRoutes routes => b.setRoutes (routes.getD {})
  | .setTargets targets master => b.setTargets targets master

end Broadcaster

/-- Where a publishing thread is. -/
inductive Publisher where
  | idle
  | locked (call : Publication)
  | targetsWritten (targets : List Target) (master : Nat)
  | written
  | incremented

/-- Where `refresh_config` is, with the version it loaded. -/
inductive Refresher where
  | idle
  | loaded (v : UInt64)
  | stale (v : UInt64)
  | locked (v : UInt64)
  | copied (v : UInt64)
  | recorded

/-- Between the lock and the unlock. -/
def Refresher.inside : Refresher → Bool
  | .locked _ | .copied _ | .recorded => true
  | _ => false

/-- The copy is made. -/
def Refresher.done : Refresher → Bool
  | .copied _ | .recorded => true
  | _ => false

/-- The version that is still to be compared or recorded. -/
def Refresher.version : Refresher → Option UInt64
  | .loaded v | .stale v | .locked v | .copied v => some v
  | _ => none

/-- What a publication under way makes of the pending fields. -/
def Publisher.wrote : Publisher → Config → Config
  | .targetsWritten targets _, c => { c with targets := targets }
  | _, c => c

/-- The calls that are written and not counted. -/
def Publisher.uncounted : Publisher → Nat
  | .written => 1
  | _ => 0

inductive Thread where
  | publisher (i : Nat)
  | broadcaster

/-- The lock's holder, the threads, and what no code reads: the calls in the
order of the lock, the increments, and how many of them there were when
`refresh_config` last loaded, copied, and loaded what it recorded. -/
structure Refresh where
  bc : Broadcaster := {}
  holder : Option Thread := none
  pubs : Nat → Publisher := fun _ => .idle
  reader : Refresher := .idle
  published : List Publication := []
  versions : Nat := 0
  loadedAt : Nat := 0
  copiedAt : Nat := 0
  seenAt : Option Nat := none

namespace Refresh

inductive Label where
  | lock (i : Nat) (call : Publication)
  | write (i : Nat)
  | increment (i : Nat)
  | unlock (i : Nat)
  | load
  | compare
  | lockRefresh
  | copy
  | record
  | unlockRefresh

/-- The publisher `i` goes on to `p`. -/
def move (s : Refresh) (i : Nat) (p : Publisher) : Refresh := { s with pubs := Function.update s.pubs i p }

def step (s : Refresh) : Label → Option Refresh
  | .lock i call =>
    match s.pubs i, s.holder with
    | .idle, none => some { s.move i (.locked call) with holder := some (.publisher i) }
    | _, _ => none
  | .write i =>
    match s.pubs i with
    | .locked (.setRoutes routes) =>
      some { s.move i .written with
        bc := { s.bc with pendingRoutes := routes.getD {} }
        published := s.published ++ [.setRoutes routes] }
    -- Between its two assignments another thread can come in, but not take the lock.
    | .locked (.setTargets targets master) =>
      some { s.move i (.targetsWritten targets master) with bc := { s.bc with pendingTargets := targets } }
    | .targetsWritten targets master =>
      some { s.move i .written with
        bc := { s.bc with pendingMaster := master }
        published := s.published ++ [.setTargets targets master] }
    | _ => none
  | .increment i =>
    match s.pubs i with
    | .written =>
      some { s.move i .incremented with
        bc := { s.bc with configVersion := s.bc.configVersion + 1 }
        versions := s.versions + 1 }
    | _ => none
  | .unlock i =>
    match s.pubs i with
    | .incremented => some { s.move i .idle with holder := none }
    | _ => none
  -- The load needs no lock: publications can complete before the copy.
  | .load =>
    match s.reader with
    | .idle => some { s with reader := .loaded s.bc.configVersion, loadedAt := s.versions }
    | _ => none
  | .compare =>
    match s.reader with
    | .loaded v => some { s with reader := if v = s.bc.seenVersion then .idle else .stale v }
    | _ => none
  | .lockRefresh =>
    match s.reader, s.holder with
    | .stale v, none => some { s with reader := .locked v, holder := some .broadcaster }
    | _, _ => none
  | .copy =>
    match s.reader with
    | .locked v =>
      some { s with
        reader := .copied v
        bc := { s.bc with routes := s.bc.pendingRoutes, targets := s.bc.pendingTargets, master := s.bc.pendingMaster }
        copiedAt := s.versions }
    | _ => none
  | .record =>
    match s.reader with
    -- What is recorded is the version loaded, even if the copy is newer.
    | .copied v =>
      some { s with reader := .recorded, bc := { s.bc with seenVersion := v }, seenAt := some s.loadedAt }
    | _ => none
  | .unlockRefresh =>
    match s.reader with
    | .recorded => some { s with reader := .idle, holder := none }
    | _ => none

/-- The values the calls so far have published. -/
def latest (s : Refresh) : Config := s.published.foldl Config.apply {}

/-- Every step, with where its thread was and what it leaves. -/
inductive Change (s : Refresh) : Label → Refresh → Prop where
  | lock (i : Nat) (call : Publication) (hi : s.pubs i = .idle) (hh : s.holder = none) :
      Change s (.lock i call) { s.move i (.locked call) with holder := some (.publisher i) }
  | routes (i : Nat) (routes : Option Routes) (hi : s.pubs i = .locked (.setRoutes routes)) :
      Change s (.write i)
        { s.move i .written with
          bc := { s.bc with pendingRoutes := routes.getD {} }
          published := s.published ++ [.setRoutes routes] }
  | targets (i : Nat) (targets : List Target) (master : Nat) (hi : s.pubs i = .locked (.setTargets targets master)) :
      Change s (.write i)
        { s.move i (.targetsWritten targets master) with bc := { s.bc with pendingTargets := targets } }
  | master (i : Nat) (targets : List Target) (master : Nat) (hi : s.pubs i = .targetsWritten targets master) :
      Change s (.write i)
        { s.move i .written with
          bc := { s.bc with pendingMaster := master }
          published := s.published ++ [.setTargets targets master] }
  | increment (i : Nat) (hi : s.pubs i = .written) :
      Change s (.increment i)
        { s.move i .incremented with
          bc := { s.bc with configVersion := s.bc.configVersion + 1 }
          versions := s.versions + 1 }
  | unlock (i : Nat) (hi : s.pubs i = .incremented) : Change s (.unlock i) { s.move i .idle with holder := none }
  | load (hr : s.reader = .idle) :
      Change s .load { s with reader := .loaded s.bc.configVersion, loadedAt := s.versions }
  | upToDate (hr : s.reader = .loaded s.bc.seenVersion) : Change s .compare { s with reader := .idle }
  | behind (v : UInt64) (hr : s.reader = .loaded v) (hv : v ≠ s.bc.seenVersion) :
      Change s .compare { s with reader := .stale v }
  | lockRefresh (v : UInt64) (hr : s.reader = .stale v) (hh : s.holder = none) :
      Change s .lockRefresh { s with reader := .locked v, holder := some .broadcaster }
  | copy (v : UInt64) (hr : s.reader = .locked v) :
      Change s .copy
        { s with
          reader := .copied v
          bc := { s.bc with routes := s.bc.pendingRoutes, targets := s.bc.pendingTargets, master := s.bc.pendingMaster }
          copiedAt := s.versions }
  | record (v : UInt64) (hr : s.reader = .copied v) :
      Change s .record { s with reader := .recorded, bc := { s.bc with seenVersion := v }, seenAt := some s.loadedAt }
  | unlockRefresh (hr : s.reader = .recorded) : Change s .unlockRefresh { s with reader := .idle, holder := none }

theorem change {s t : Refresh} {l : Label} (h : step s l = some t) : Change s l t := by
  cases l with
  | lock i call =>
    simp only [step] at h
    split at h
    · next hi hh => cases h; exact .lock i call hi hh
    · cases h
  | write i =>
    simp only [step] at h
    split at h
    · next routes hi => cases h; exact .routes i routes hi
    · next targets master hi => cases h; exact .targets i targets master hi
    · next targets master hi => cases h; exact .master i targets master hi
    · cases h
  | increment i =>
    simp only [step] at h
    split at h
    · next hi => cases h; exact .increment i hi
    · cases h
  | unlock i =>
    simp only [step] at h
    split at h
    · next hi => cases h; exact .unlock i hi
    · cases h
  | load =>
    simp only [step] at h
    split at h
    · next hr => cases h; exact .load hr
    · cases h
  | compare =>
    simp only [step] at h
    split at h
    · next v hr =>
      by_cases hv : v = s.bc.seenVersion
      · rw [if_pos hv] at h
        cases h
        exact .upToDate (hv ▸ hr)
      · rw [if_neg hv] at h
        cases h
        exact .behind v hr hv
    · cases h
  | lockRefresh =>
    simp only [step] at h
    split at h
    · next v hr hh => cases h; exact .lockRefresh v hr hh
    · cases h
  | copy =>
    simp only [step] at h
    split at h
    · next v hr => cases h; exact .copy v hr
    · cases h
  | record =>
    simp only [step] at h
    split at h
    · next v hr => cases h; exact .record v hr
    · cases h
  | unlockRefresh =>
    simp only [step] at h
    split at h
    · next hr => cases h; exact .unlockRefresh hr
    · cases h

/-! ## The lock -/

/-- The lock's holder is the only thread between its lock and its unlock. -/
structure Exclusive (s : Refresh) : Prop where
  publisher : ∀ i, s.pubs i ≠ .idle → s.holder = some (.publisher i)
  refresher : s.reader.inside = true → s.holder = some .broadcaster

section Lock
variable {s t : Refresh} {l : Label}

@[simp] theorem move_same (s : Refresh) (i : Nat) (p : Publisher) : (s.move i p).pubs i = p := Function.update_self ..

theorem move_of_ne {i j : Nat} (h : j ≠ i) (p : Publisher) : (s.move i p).pubs j = s.pubs j := Function.update_of_ne h ..

theorem Exclusive.not_both (hx : Exclusive s) {i : Nat} (hi : s.pubs i ≠ .idle) : s.reader.inside = false := by
  by_contra hr
  have hb := hx.refresher (by simpa using hr)
  rw [hx.publisher i hi] at hb
  cases hb

theorem Exclusive.all_idle (hx : Exclusive s) (hh : ∀ i, s.holder ≠ some (.publisher i)) (i : Nat) :
    s.pubs i = .idle := by
  by_contra hi
  exact hh i (hx.publisher i hi)

/-- The holder goes on, inside the lock. -/
theorem exclusive_move (hx : Exclusive s) {i : Nat} (hi : s.pubs i ≠ .idle) {p : Publisher}
    (hpubs : t.pubs = (s.move i p).pubs) (hh : t.holder = s.holder) (hr : t.reader = s.reader) : Exclusive t := by
  refine ⟨?_, ?_⟩
  · intro j hj
    rw [hh]
    rcases eq_or_ne j i with rfl | hne
    · exact hx.publisher j hi
    · rw [hpubs, move_of_ne hne] at hj
      exact hx.publisher j hj
  · rw [hr, hh]
    exact hx.refresher

theorem exclusive_change (hx : Exclusive s) (h : Change s l t) : Exclusive t := by
  cases h with
  | lock i call hi hh =>
    have hidle := hx.all_idle (by simp [hh])
    refine ⟨?_, ?_⟩
    · intro j hj
      rcases eq_or_ne j i with rfl | hne
      · rfl
      · exact absurd ((move_of_ne hne _).trans (hidle j)) hj
    · intro hr
      have hb := hx.refresher hr
      rw [hh] at hb
      cases hb
  | routes i routes hi => exact exclusive_move hx (by simp [hi]) rfl rfl rfl
  | targets i targets master hi => exact exclusive_move hx (by simp [hi]) rfl rfl rfl
  | master i targets master hi => exact exclusive_move hx (by simp [hi]) rfl rfl rfl
  | increment i hi => exact exclusive_move hx (by simp [hi]) rfl rfl rfl
  | unlock i hi =>
    have hne : s.pubs i ≠ .idle := by simp [hi]
    -- Nobody else was inside, so nobody is left without the lock.
    refine ⟨?_, ?_⟩
    · intro j hj
      rcases eq_or_ne j i with rfl | hji
      · exact absurd (move_same s j .idle) hj
      · have hj' := hx.publisher j (by rw [← move_of_ne hji .idle]; exact hj)
        rw [hx.publisher i hne] at hj'
        cases hj'
        exact absurd rfl hji
    · intro hr
      have hout := hx.not_both hne
      exact absurd hr (by simp [move, hout])
  | load hr | upToDate hr => exact ⟨hx.publisher, by simp [Refresher.inside]⟩
  | behind v hr hv => exact ⟨hx.publisher, by simp [Refresher.inside]⟩
  | lockRefresh v hr hh =>
    have hidle := hx.all_idle (by simp [hh])
    exact ⟨fun i hi => absurd (hidle i) hi, fun _ => rfl⟩
  | copy v hr | record v hr =>
    exact ⟨hx.publisher, fun _ => hx.refresher (by simp [hr, Refresher.inside])⟩
  | unlockRefresh hr =>
    have hb := hx.refresher (by simp [hr, Refresher.inside])
    have hidle := hx.all_idle (by simp [hb])
    exact ⟨fun i hi => absurd (hidle i) hi, by simp [Refresher.inside]⟩

end Lock

/-! ## The publications -/

/-- The publisher inside the lock. -/
def writer (s : Refresh) : Publisher :=
  match s.holder with
  | some (.publisher i) => s.pubs i
  | _ => .idle

/-- The pending fields follow the calls, and the version counts them. Inside
the lock one call can be written by half, or written and not counted. -/
structure Written (s : Refresh) : Prop where
  pending : s.bc.pending = s.writer.wrote s.latest
  length : s.published.length = s.versions + s.writer.uncounted
  version : s.bc.configVersion = UInt64.ofNat (1 + s.versions)

section Writing
variable {s t : Refresh} {l : Label}

theorem writer_of {i : Nat} (h : s.holder = some (.publisher i)) : s.writer = s.pubs i := by simp only [writer, h]

theorem writer_free (h : ∀ i, s.holder ≠ some (.publisher i)) : s.writer = .idle := by
  unfold writer
  split
  · next i hi => exact absurd hi (h i)
  · rfl

theorem Exclusive.writer_idle (hx : Exclusive s) (hr : s.reader.inside = true) : s.writer = .idle :=
  writer_free (by simp [hx.refresher hr])

theorem latest_snoc {call : Publication} (h : t.published = s.published ++ [call]) :
    t.latest = s.latest.apply call := by
  simp [latest, h]

/-- The holder goes on to `p`. -/
theorem Exclusive.written_move (hx : Exclusive s) {i : Nat} (hi : s.pubs i ≠ .idle) {p : Publisher}
    (hpubs : t.pubs = (s.move i p).pubs) (hh : t.holder = s.holder) (hp : t.bc.pending = p.wrote t.latest)
    (hl : t.published.length = t.versions + p.uncounted)
    (hv : t.bc.configVersion = UInt64.ofNat (1 + t.versions)) : Written t := by
  have ht : t.writer = p := by rw [writer_of (hh.trans (hx.publisher i hi)), hpubs, move_same]
  exact ⟨by rw [ht, hp], by rw [ht, hl], hv⟩

/-- `refresh_config` writes none of it. -/
theorem Written.of_refresh (hw : Written s) (hbc : t.bc.pending = s.bc.pending)
    (hv : t.bc.configVersion = s.bc.configVersion) (hp : t.published = s.published) (hn : t.versions = s.versions)
    (hwr : t.writer = s.writer) : Written t := by
  refine ⟨?_, ?_, ?_⟩
  · rw [hbc, hw.pending, hwr, latest, latest, hp]
  · rw [hp, hn, hwr, hw.length]
  · rw [hv, hn, hw.version]

/-- What the publisher inside the lock has done so far. -/
theorem Written.inside (hw : Written s) (hx : Exclusive s) {i : Nat} {p : Publisher} (hi : s.pubs i = p)
    (hp : p ≠ .idle) : s.pubs i ≠ .idle ∧ s.bc.pending = p.wrote s.latest ∧
      s.published.length = s.versions + p.uncounted := by
  have hne : s.pubs i ≠ .idle := by rw [hi]; exact hp
  have hwr : s.writer = p := (writer_of (hx.publisher i hne)).trans hi
  exact ⟨hne, by rw [hw.pending, hwr], by rw [hw.length, hwr]⟩

theorem written_change (hx : Exclusive s) (hw : Written s) (h : Change s l t) : Written t := by
  cases h with
  | lock i call hi hh =>
    have h0 : s.writer = .idle := writer_free (by simp [hh])
    have ht : writer { s.move i (.locked call) with holder := some (.publisher i) } = .locked call :=
      (writer_of rfl).trans (move_same s i _)
    have hp := hw.pending
    have hl := hw.length
    rw [h0] at hp hl
    exact ⟨by rw [ht]; exact hp, by rw [ht]; exact hl, hw.version⟩
  | routes i routes hi =>
    obtain ⟨hne, hp, hl⟩ := hw.inside hx hi (by simp)
    have hp' : { s.bc.pending with routes := routes.getD {} } = s.latest.apply (.setRoutes routes) :=
      congrArg (fun c => { c with routes := routes.getD {} }) hp
    refine hx.written_move hne rfl rfl (hp'.trans (latest_snoc rfl).symm) ?_ hw.version
    rw [List.length_append, hl]
    rfl
  | targets i targets master hi =>
    obtain ⟨hne, hp, hl⟩ := hw.inside hx hi (by simp)
    exact hx.written_move hne rfl rfl (congrArg (fun c => { c with targets := targets }) hp) hl hw.version
  | master i targets master hi =>
    obtain ⟨hne, hp, hl⟩ := hw.inside hx hi (by simp)
    -- the other half of the call
    have hp' : { s.bc.pending with master := master } = s.latest.apply (.setTargets targets master) :=
      congrArg (fun c => { c with master := master }) hp
    refine hx.written_move hne rfl rfl (hp'.trans (latest_snoc rfl).symm) ?_ hw.version
    rw [List.length_append, hl]
    rfl
  | increment i hi =>
    obtain ⟨hne, hp, hl⟩ := hw.inside hx hi (by simp)
    refine hx.written_move hne rfl rfl hp hl ?_
    exact (congrArg (· + 1) hw.version).trans (UInt64.ofNat_add (1 + s.versions) 1).symm
  | unlock i hi =>
    obtain ⟨hne, hp, hl⟩ := hw.inside hx hi (by simp)
    exact ⟨hp, hl, hw.version⟩
  | load hr | upToDate hr | behind v hr hv | copy v hr | record v hr => exact hw.of_refresh rfl rfl rfl rfl rfl
  | lockRefresh v hr hh => exact hw.of_refresh rfl rfl rfl rfl (writer_free (by simp [hh])).symm
  | unlockRefresh hr =>
    exact hw.of_refresh rfl rfl rfl rfl (hx.writer_idle (by simp [hr, Refresher.inside])).symm

end Writing

/-! ## The copy -/

/-- `n` stands for the version after `n` increments; the version of a new
broadcaster's copy is one before the first. -/
def Seen (v : UInt64) : Option Nat → Prop
  | none => v = 0
  | some n => v = UInt64.ofNat (1 + n)

/-- The copy is what some first calls published. The version loaded and the
version recorded count no more than these calls. -/
structure Copied (s : Refresh) : Prop where
  active : s.bc.active = (s.published.take s.copiedAt).foldl Config.apply {}
  copied_le : s.copiedAt ≤ s.versions
  loaded : ∀ v, s.reader.version = some v → v = UInt64.ofNat (1 + s.loadedAt)
  loaded_le : s.loadedAt ≤ s.versions
  seen : Seen s.bc.seenVersion s.seenAt
  seen_le : ∀ n, s.seenAt = some n → n ≤ s.copiedAt
  done : s.reader.done = true → s.loadedAt ≤ s.copiedAt
  returned : s.versions + 1 < UInt64.size → s.reader = .idle → s.loadedAt ≤ s.copiedAt

/-- What only `refresh_config` writes. -/
def side (s : Refresh) : Config × UInt64 × Refresher × Nat × Nat × Option Nat :=
  (s.bc.active, s.bc.seenVersion, s.reader, s.loadedAt, s.copiedAt, s.seenAt)

def Label.publisher : Label → Bool
  | .lock _ _ | .write _ | .increment _ | .unlock _ => true
  | _ => false

section Copying
variable {s t : Refresh} {l : Label}

/-- A publication adds calls and increments, and leaves `refresh_config` alone. -/
theorem publisher_change (h : Change s l t) (hl : l.publisher = true) :
    t.side = s.side ∧ s.versions ≤ t.versions ∧ ∃ calls, t.published = s.published ++ calls := by
  cases h with
  | lock | targets | unlock => exact ⟨rfl, le_rfl, [], (List.append_nil _).symm⟩
  | routes | master => exact ⟨rfl, le_rfl, _, rfl⟩
  | increment => exact ⟨rfl, Nat.le_succ _, [], (List.append_nil _).symm⟩
  | load | upToDate | behind | lockRefresh | copy | record | unlockRefresh => cases hl

theorem Copied.of_publisher (hw : Written s) (hc : Copied s) (h : t.side = s.side ∧ s.versions ≤ t.versions ∧
    ∃ calls, t.published = s.published ++ calls) : Copied t := by
  obtain ⟨hside, hle, calls, hp⟩ := h
  simp only [side, Prod.mk.injEq] at hside
  obtain ⟨ha, hs, hr, hl, hcp, hsn⟩ := hside
  have htake : t.published.take t.copiedAt = s.published.take s.copiedAt := by
    have hlen : s.copiedAt ≤ s.published.length := hc.copied_le.trans (by rw [hw.length]; omega)
    rw [hp, hcp, List.take_append_of_le_length hlen]
  refine ⟨?_, ?_, ?_, ?_, ?_, ?_, ?_, ?_⟩
  · rw [ha, htake, hc.active]
  · rw [hcp]; exact hc.copied_le.trans hle
  · rw [hr, hl]; exact hc.loaded
  · rw [hl]; exact hc.loaded_le.trans hle
  · rw [hs, hsn]; exact hc.seen
  · rw [hsn, hcp]; exact hc.seen_le
  · rw [hr, hl, hcp]; exact hc.done
  · rw [hr, hl, hcp]
    intro hv
    exact hc.returned (by omega)

theorem ofNat_succ_inj {m n : Nat} (hm : m + 1 < UInt64.size) (hn : n + 1 < UInt64.size) :
    UInt64.ofNat (1 + m) = UInt64.ofNat (1 + n) ↔ m = n := by
  rw [← UInt64.toNat_inj, UInt64.toNat_ofNat_of_lt' (by omega), UInt64.toNat_ofNat_of_lt' (by omega)]
  omega

/-- The version recorded is the version after `n` increments only if the load
before it saw `n` increments. -/
theorem Seen.eq_some {v : UInt64} {o : Option Nat} (h : Seen v o) {n : Nat} (hn : n + 1 < UInt64.size)
    (hle : ∀ m, o = some m → m + 1 < UInt64.size) (hv : v = UInt64.ofNat (1 + n)) : o = some n := by
  cases o with
  | none =>
    have h0 : UInt64.ofNat (1 + n) = 0 := hv.symm.trans h
    rw [← UInt64.toNat_inj, UInt64.toNat_ofNat_of_lt' (by omega)] at h0
    exact absurd h0 (by simp)
  | some m => rw [(ofNat_succ_inj (hle m rfl) hn).1 (h.symm.trans hv)]

theorem copied_change (hx : Exclusive s) (hw : Written s) (hc : Copied s) (h : Change s l t) : Copied t := by
  have hpub := publisher_change h
  cases h with
  | lock | routes | targets | master | increment | unlock => exact hc.of_publisher hw (hpub rfl)
  | load hr =>
    refine ⟨hc.active, hc.copied_le, ?_, le_rfl, hc.seen, hc.seen_le, nofun, nofun⟩
    intro v hv
    cases hv
    exact hw.version
  | upToDate hr =>
    refine ⟨hc.active, hc.copied_le, nofun, hc.loaded_le, hc.seen, hc.seen_le, nofun, ?_⟩
    intro hv _
    -- Equal versions stand for equal counts, since neither has come round.
    have hle := hc.loaded_le
    have hcl := hc.copied_le
    have hv' : s.versions + 1 < UInt64.size := hv
    have hseen := hc.seen.eq_some (by omega) (fun m hm => by have := hc.seen_le m hm; omega)
      (hc.loaded _ (by rw [hr]; rfl))
    exact hc.seen_le _ hseen
  | behind v hr hv =>
    refine ⟨hc.active, hc.copied_le, ?_, hc.loaded_le, hc.seen, hc.seen_le, nofun, nofun⟩
    intro u hu
    exact hc.loaded u (by rw [hr]; exact hu)
  | lockRefresh v hr hh =>
    refine ⟨hc.active, hc.copied_le, ?_, hc.loaded_le, hc.seen, hc.seen_le, nofun, nofun⟩
    intro u hu
    exact hc.loaded u (by rw [hr]; exact hu)
  | copy v hr =>
    have hin : s.reader.inside = true := by rw [hr]; rfl
    have hidle := hx.writer_idle hin
    have hlen : s.published.length = s.versions := by rw [hw.length, hidle]; rfl
    refine ⟨?_, le_rfl, ?_, hc.loaded_le, hc.seen, ?_, fun _ => hc.loaded_le, nofun⟩
    · -- no publication is inside the lock: the pending fields are whole calls
      change s.bc.pending = _
      rw [hw.pending, hidle]
      exact (congrArg (List.foldl Config.apply {}) (by rw [← hlen, List.take_length])).symm
    · intro u hu
      exact hc.loaded u (by rw [hr]; exact hu)
    · intro n hn
      exact (hc.seen_le n hn).trans hc.copied_le
  | record v hr =>
    -- The copy was made after the load, so it is no older than what is recorded.
    have hdone : s.loadedAt ≤ s.copiedAt := hc.done (by rw [hr]; rfl)
    refine ⟨hc.active, hc.copied_le, nofun, hc.loaded_le, hc.loaded v (by rw [hr]; rfl), ?_, fun _ => hdone, nofun⟩
    intro n hn
    cases hn
    exact hdone
  | unlockRefresh hr =>
    exact ⟨hc.active, hc.copied_le, nofun, hc.loaded_le, hc.seen, hc.seen_le, nofun,
      fun _ _ => hc.done (by rw [hr]; rfl)⟩

end Copying

/-- What holds of both versions and of both copies between any two steps. -/
structure Inv (s : Refresh) : Prop where
  exclusive : Exclusive s
  written : Written s
  copied : Copied s

theorem inv_start : Inv {} :=
  ⟨⟨nofun, nofun⟩, ⟨rfl, rfl, rfl⟩, ⟨rfl, le_rfl, nofun, le_rfl, rfl, nofun, nofun, fun _ _ => le_rfl⟩⟩

theorem inv_step (s : Refresh) (l : Label) (t : Refresh) (hi : Inv s) (h : step s l = some t) : Inv t :=
  have hc := change h
  ⟨exclusive_change hi.exclusive hc, written_change hi.exclusive hi.written hc,
    copied_change hi.exclusive hi.written hi.copied hc⟩

theorem inv_run {ls : List Label} {s : Refresh} (h : run step {} ls = some s) : Inv s :=
  run_inv Inv inv_step inv_start h

/-! ## The snapshot -/

/-- Targets and master are those of one `set_targets`, or those from before. -/
theorem foldl_apply_pair (calls : List Publication) (c : Config) :
    (calls.foldl Config.apply c).targets = c.targets ∧ (calls.foldl Config.apply c).master = c.master ∨
      .setTargets (calls.foldl Config.apply c).targets (calls.foldl Config.apply c).master ∈ calls := by
  induction calls generalizing c with
  | nil => exact .inl ⟨rfl, rfl⟩
  | cons call calls ih =>
    rw [List.foldl_cons]
    rcases ih (c.apply call) with ⟨ht, hm⟩ | hmem
    · cases call with
      | setRoutes routes => exact .inl ⟨ht, hm⟩
      | setTargets targets master => exact .inr (by rw [ht, hm]; exact List.mem_cons_self)
    · exact .inr (List.mem_cons_of_mem _ hmem)

/-- The configuration the broadcaster works with, and what it knows of those
it does not have yet. -/
structure Coherent (s : Refresh) : Prop where
  /-- The pair stems from one call, or from the constructor. -/
  whole : s.bc.targets = [] ∧ s.bc.master = 0 ∨ .setTargets s.bc.targets s.bc.master ∈ s.published
  behind : s.bc.seenVersion ≤ s.bc.configVersion
  current : s.bc.seenVersion = s.bc.configVersion → (∀ i, s.pubs i = .idle) → s.bc.active = s.latest
  /-- What was incremented since the load of the version recorded is not taken
  for seen, whether the copy has it or not. -/
  missed : ∀ n, s.seenAt = some n → n < s.versions → s.bc.seenVersion < s.bc.configVersion
  /-- The next `refresh_config` then goes on to its copy. -/
  again : ∀ n, s.seenAt = some n → n < s.versions → s.reader = .idle →
    ∀ ps qs t, (∀ l ∈ ps, l.publisher = true) → (∀ l ∈ qs, l.publisher = true) →
      run step s (ps ++ .load :: (qs ++ [.compare])) = some t → t.versions + 1 < UInt64.size →
      ∃ v, t.reader = .stale v
  /-- A call of `refresh_config` that has returned left a copy with every
  publication that was incremented before its load. -/
  returned : s.reader = .idle → s.loadedAt ≤ s.copiedAt

section Coherence
variable {s t : Refresh}

theorem Inv.configVersion_toNat (hi : Inv s) (hv : s.versions + 1 < UInt64.size) :
    s.bc.configVersion.toNat = s.versions + 1 := by
  rw [hi.written.version, UInt64.toNat_ofNat_of_lt' (by omega), Nat.add_comm]

/-- The version recorded, without the wrap of the increments. -/
theorem Inv.seenVersion_toNat (hi : Inv s) (hv : s.versions + 1 < UInt64.size) :
    s.bc.seenVersion.toNat = (s.seenAt.map (· + 1)).getD 0 := by
  have hseen := hi.copied.seen
  have hle := hi.copied.seen_le
  have hcl := hi.copied.copied_le
  cases ho : s.seenAt with
  | none =>
    rw [ho] at hseen
    exact congrArg UInt64.toNat hseen
  | some n =>
    rw [ho] at hseen
    have := hle n ho
    rw [show s.bc.seenVersion = _ from hseen, UInt64.toNat_ofNat_of_lt' (by omega), Nat.add_comm]
    rfl

theorem Inv.behind (hi : Inv s) (hv : s.versions + 1 < UInt64.size) :
    s.bc.seenVersion.toNat ≤ s.copiedAt + 1 := by
  rw [hi.seenVersion_toNat hv]
  cases ho : s.seenAt with
  | none => exact Nat.zero_le _
  | some n => exact Nat.succ_le_succ (hi.copied.seen_le n ho)

theorem Inv.current (hi : Inv s) (hv : s.versions + 1 < UInt64.size) (he : s.bc.seenVersion = s.bc.configVersion)
    (hp : ∀ i, s.pubs i = .idle) : s.bc.active = s.latest := by
  have hidle : s.writer = .idle := by
    unfold writer
    split
    · exact hp _
    · rfl
  have hlen : s.published.length = s.versions := by rw [hi.written.length, hidle]; rfl
  have hb := hi.behind hv
  rw [he, hi.configVersion_toNat hv] at hb
  have hall : s.published.length ≤ s.copiedAt := by omega
  rw [hi.copied.active, List.take_of_length_le hall]
  rfl

theorem Inv.missed (hi : Inv s) (hv : s.versions + 1 < UInt64.size) {n : Nat} (hn : s.seenAt = some n)
    (hlt : n < s.versions) : s.bc.seenVersion < s.bc.configVersion := by
  rw [UInt64.lt_iff_toNat_lt, hi.configVersion_toNat hv, hi.seenVersion_toNat hv, hn]
  exact Nat.succ_lt_succ hlt

/-- Publications leave `refresh_config` where it is. -/
theorem run_publishers {ls : List Label} (hl : ∀ l ∈ ls, l.publisher = true) (h : run step s ls = some t) :
    t.side = s.side ∧ s.versions ≤ t.versions := by
  induction ls generalizing s with
  | nil => cases h; exact ⟨rfl, le_rfl⟩
  | cons l ls ih =>
    obtain ⟨u, hu, hrun⟩ := run_cons_some.1 h
    obtain ⟨hs, hle, -⟩ := publisher_change (change hu) (hl l List.mem_cons_self)
    obtain ⟨hs', hle'⟩ := ih (fun m hm => hl m (List.mem_cons_of_mem _ hm)) hrun
    exact ⟨hs'.trans hs, hle.trans hle'⟩

theorem Inv.again (hi : Inv s) {n : Nat} (hn : s.seenAt = some n) (hlt : n < s.versions) {ps qs : List Label}
    (hps : ∀ l ∈ ps, l.publisher = true) (hqs : ∀ l ∈ qs, l.publisher = true)
    (h : run step s (ps ++ .load :: (qs ++ [.compare])) = some t) (hv : t.versions + 1 < UInt64.size) :
    ∃ v, t.reader = .stale v := by
  obtain ⟨u, hu, h⟩ := run_append_some.1 h
  obtain ⟨w, hw, h⟩ := run_cons_some.1 h
  obtain ⟨x, hx, h⟩ := run_append_some.1 h
  obtain ⟨y, hy, h⟩ := run_cons_some.1 h
  cases h
  obtain ⟨hus, hule⟩ := run_publishers hps hu
  obtain ⟨hxs, hxle⟩ := run_publishers hqs hx
  have hiu := run_inv Inv inv_step hi hu
  simp only [side, Prod.mk.injEq] at hus hxs
  obtain ⟨-, -, -, -, -, hus⟩ := hus
  obtain ⟨-, hxseen, hxr, -⟩ := hxs
  have hcw := change hw
  have hcy := change hy
  cases hcw with
  | load hr =>
    cases hcy with
    | behind v hr hv => exact ⟨v, rfl⟩
    | upToDate hr' =>
      -- the version it loaded is later than the one recorded
      have huv : u.versions + 1 < UInt64.size := lt_of_le_of_lt (Nat.succ_le_succ hxle) hv
      have hlt' := hiu.missed huv (hus.trans hn) (lt_of_lt_of_le hlt hule)
      rw [hr', hxseen, Refresher.loaded.injEq] at hxr
      rw [← hxr] at hlt'
      exact absurd hlt' (UInt64.lt_irrefl _)

/-- In every interleaving of publications with `refresh_config` in which the
version has not come round, the snapshot is coherent. -/
theorem snapshot_coherent (ls : List Label) (s : Refresh) (h : run step {} ls = some s)
    (hv : s.versions + 1 < UInt64.size) : Coherent s := by
  have hi := inv_run h
  have hcl := hi.copied.copied_le
  refine ⟨?_, ?_, hi.current hv, fun n => hi.missed hv, ?_, hi.copied.returned hv⟩
  · have ha := hi.copied.active
    have hpair := foldl_apply_pair (s.published.take s.copiedAt) {}
    rw [← ha] at hpair
    exact hpair.imp_right List.mem_of_mem_take
  · rw [UInt64.le_iff_toNat_le, hi.configVersion_toNat hv]
    exact (hi.behind hv).trans (Nat.succ_le_succ hcl)
  · intro n hn hlt _ ps qs t hps hqs hrun ht
    exact hi.again hn hlt hps hqs hrun ht

/-- A publication falls between a load and the copy that goes with it. -/
def betweenLoadAndCopy : List Label :=
  [.load, .compare, .lock 1 (.setTargets [⟨some 7⟩] 0), .write 1, .write 1, .increment 1, .unlock 1, .lockRefresh,
    .copy, .record, .unlockRefresh]

theorem snapshot_coherent_between : ∃ s, run step {} betweenLoadAndCopy = some s ∧
    s.bc.targets = [⟨some 7⟩] ∧ s.bc.seenVersion < s.bc.configVersion ∧ Coherent s := by
  have h : ((run step {} betweenLoadAndCopy).map fun s =>
      (s.bc.targets, s.bc.seenVersion, s.bc.configVersion, s.versions)) = some ([⟨some 7⟩], 1, 2, 1) := by
    decide +kernel
  obtain ⟨s, hs, h'⟩ := Option.map_eq_some_iff.1 h
  simp only [Prod.mk.injEq] at h'
  obtain ⟨ht, hsn, hcv, hv⟩ := h'
  refine ⟨s, hs, ht, ?_, snapshot_coherent betweenLoadAndCopy s hs ?_⟩
  · rw [hsn, hcv]
    decide
  · rw [hv]
    decide

end Coherence

/-! ## Calls nobody interrupts -/

/-- The steps of one publication. -/
def publishing (i : Nat) : Publication → List Label
  | .setRoutes routes => [.lock i (.setRoutes routes), .write i, .increment i, .unlock i]
  | .setTargets targets master => [.lock i (.setTargets targets master), .write i, .write i, .increment i, .unlock i]

/-- The steps of one `refresh_config`. -/
def refreshing (b : Broadcaster) : List Label :=
  if b.configVersion = b.seenVersion then [.load, .compare]
  else [.load, .compare, .lockRefresh, .copy, .record, .unlockRefresh]

/-- What a publication leaves. -/
def completed (s : Refresh) (call : Publication) : Refresh :=
  { s with bc := s.bc.publish call, published := s.published ++ [call], versions := s.versions + 1 }

theorem run_publishing (s : Refresh) (i : Nat) (call : Publication) (hi : s.pubs i = .idle) (hh : s.holder = none) :
    run step s (publishing i call) = some (s.completed call) := by
  have hpubs : Function.update s.pubs i .idle = s.pubs := by rw [← hi, Function.update_eq_self]
  cases call with
  | setRoutes routes =>
    simp only [publishing, run_cons, step, hi, hh, move, Function.update_self, Function.update_idem, Option.bind_some,
      run_nil, hpubs, completed]
    rfl
  | setTargets targets master =>
    simp only [publishing, run_cons, step, hi, hh, move, Function.update_self, Function.update_idem, Option.bind_some,
      run_nil, hpubs, completed]
    rfl

theorem run_refreshing (s : Refresh) (hr : s.reader = .idle) (hh : s.holder = none) :
    ∃ t, run step s (refreshing s.bc) = some t ∧ t.bc = s.bc.refreshConfig := by
  by_cases hv : s.bc.configVersion = s.bc.seenVersion
  · simp only [refreshing, Broadcaster.refreshConfig, run_cons, step, hr, hv, if_true, Option.bind_some, run_nil]
    exact ⟨_, rfl, rfl⟩
  · simp only [refreshing, Broadcaster.refreshConfig, run_cons, step, hr, hh, hv, if_false, Option.bind_some, run_nil]
    exact ⟨_, rfl, rfl⟩

/-- One publication after another. -/
theorem run_publications (s : Refresh) (i : Nat) (calls : List Publication) (hi : s.pubs i = .idle)
    (hh : s.holder = none) : run step s (calls.flatMap (publishing i)) = some (calls.foldl completed s) := by
  induction calls generalizing s with
  | nil => rfl
  | cons call calls ih =>
    rw [List.flatMap_cons, run_append, run_publishing s i call hi hh, Option.bind_some, List.foldl_cons]
    exact ih (s.completed call) hi hh

/-! ## The version comes round -/

theorem foldl_completed (calls : List Publication) (s : Refresh) :
    (calls.foldl completed s).published = s.published ++ calls ∧ (calls.foldl completed s).pubs = s.pubs ∧
      (calls.foldl completed s).bc.configVersion = s.bc.configVersion + UInt64.ofNat calls.length ∧
      (calls.foldl completed s).bc.seenVersion = s.bc.seenVersion ∧
      (calls.foldl completed s).bc.active = s.bc.active := by
  induction calls generalizing s with
  | nil => exact ⟨(List.append_nil _).symm, rfl, (UInt64.add_zero _).symm, rfl, rfl⟩
  | cons call calls ih =>
    obtain ⟨hp, hi, hc, hs, ha⟩ := ih (s.completed call)
    rw [List.foldl_cons, hp, hi, hc, hs, ha, List.length_cons, Nat.add_comm, UInt64.ofNat_add, ← UInt64.add_assoc]
    cases call <;> exact ⟨by simp [completed], rfl, rfl, rfl, rfl⟩

/-- 2^64 - 1 publications of one thread, none of them refreshed. The version
is that of a new broadcaster's copy, which has none of them. -/
theorem version_wraps : ∃ s,
    run step {} ((List.replicate (UInt64.size - 1) (.setTargets [{}] 0)).flatMap (publishing 0)) = some s ∧
      s.published.length < UInt64.size ∧ (∀ i, s.pubs i = .idle) ∧ s.bc.seenVersion = s.bc.configVersion ∧
      s.bc.active ≠ s.latest := by
  have hn : UInt64.size - 1 = 18446744073709551614 + 1 := by decide
  obtain ⟨hp, hi, hc, hs, ha⟩ := foldl_completed (List.replicate (UInt64.size - 1) (.setTargets [{}] 0)) {}
  rw [List.nil_append] at hp
  rw [List.length_replicate] at hc
  refine ⟨_, run_publications {} 0 _ rfl rfl, ?_, fun i => congrFun hi i, ?_, ?_⟩
  · rw [hp, List.length_replicate]
    decide
  · rw [hs, hc]
    decide
  · intro h
    rw [ha, latest, hp, hn, List.replicate_succ', List.foldl_append] at h
    exact absurd (congrArg Config.targets h) (List.cons_ne_nil _ _).symm

end Refresh

end MultiMadness
