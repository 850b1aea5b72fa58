import MultiMadness.Broadcaster
/-!
# What `handle` sends

One lemma per function of the broadcaster about the log it leaves, up to
`handle_sent`: the deliveries of the event's rule, one chunk per target, then
the cursor and the held keys. The theorems about injections read off it, through
`Handled.entry` (where an entry of the log comes from) and `Handled.repaired`
(what the log of a focus cycle ends with).
-/

namespace MultiMadness.Broadcaster

open KeyState

/-- A focus call succeeds exactly when the target is a window and ends up in
the foreground. -/
theorem bringToForeground_iff {env : Env} {os : Os} {w : Option Hwnd} :
    (bringToForeground env os w).2 = true ↔ ∃ h, w = some h ∧ env.focus os.focusCalls = some h := by
  cases w <;> simp [bringToForeground]

/-! ## One delivery -/

/-- The calls of the `WindowMessage` branch. -/
def postOutputs (b : Broadcaster) (env : Env) (t : Nat) (ev : InputEvent) : List Output :=
  let p := b.mapped env t ev.x ev.y
  if isKey ev.kind then [.postKey (b.hwndOf t) ev.vk ev.scan (ev.kind = .keyDown) ev.flags]
  else if isMouseButton ev.kind then
    [.postMouseButton (b.hwndOf t) ev.vk (ev.kind = .mouseDown) (p.x - (b.clientOf env t).x) (p.y - (b.clientOf env t).y)]
  else if ev.kind = .wheel then [.postWheel (b.hwndOf t) ev.y ev.x p.x p.y]
  else []

/-- The calls of the `FocusCycle` branch once the target is in the foreground. -/
def sendOutputs (b : Broadcaster) (env : Env) (t : Nat) (ev : InputEvent) : List Output :=
  let p := b.mapped env t ev.x ev.y
  if isKey ev.kind then [.sendKey ev.vk ev.scan (ev.kind = .keyDown) ev.flags]
  else .sendMouseMoveAbs (toAbsolute env.virtualScreen p.x p.y) ::
    if isMouseButton ev.kind then [.sendMouseButton ev.vk (ev.kind = .mouseDown)]
    else if ev.kind = .wheel then [.sendWheel ev.y ev.x]
    else []

/-- A posted message names its window. -/
theorem mem_postOutputs {b : Broadcaster} {env : Env} {t : Nat} {ev : InputEvent} {o : Output}
    (h : o ∈ b.postOutputs env t ev) :
    (∃ down, o = .postKey (b.hwndOf t) ev.vk ev.scan down ev.flags) ∨
    (∃ down, o = .postMouseButton (b.hwndOf t) ev.vk down
      ((b.mapped env t ev.x ev.y).x - (b.clientOf env t).x) ((b.mapped env t ev.x ev.y).y - (b.clientOf env t).y)) ∨
    o = .postWheel (b.hwndOf t) ev.y ev.x (b.mapped env t ev.x ev.y).x (b.mapped env t ev.x ev.y).y := by
  unfold postOutputs at h
  dsimp only at h
  split at h
  · exact .inl ⟨_, List.mem_singleton.1 h⟩
  · split at h
    · exact .inr (.inl ⟨_, List.mem_singleton.1 h⟩)
    · split at h
      · exact .inr (.inr (List.mem_singleton.1 h))
      · cases h

/-- What a delivery to `t` leaves in the log: the posted messages, or, when the
target took the focus, the injections under its window, or nothing. -/
def Delivery (b : Broadcaster) (env : Env) (ev : InputEvent) (s : Strategy) (t : Nat) (es : List Sent) : Prop :=
  match s with
  | .windowMessage => ∃ fg, es = (b.postOutputs env t ev).map (⟨.deliver t, ·, fg⟩)
  | .focusCycle => es = [] ∨ ∃ h, b.hwndOf t = some h ∧ es = (b.sendOutputs env t ev).map (⟨.deliver t, ·, some h⟩)

theorem post_os (b : Broadcaster) (env : Env) (os : Os) (t : Nat) (ev : InputEvent) :
    (b.post env os t ev).1.log = os.log ++ (b.postOutputs env t ev).map (⟨.deliver t, ·, os.fg⟩) ∧
      (b.post env os t ev).1.fg = os.fg ∧ (b.post env os t ev).1.focusCalls = os.focusCalls := by
  unfold post postOutputs
  dsimp only
  split
  · exact ⟨rfl, rfl, rfl⟩
  · split
    · exact ⟨rfl, rfl, rfl⟩
    · split
      · exact ⟨rfl, rfl, rfl⟩
      · simp

theorem send_os (b : Broadcaster) (env : Env) (os : Os) (t : Nat) (ev : InputEvent) :
    (b.send env os t ev).1.log = os.log ++ (b.sendOutputs env t ev).map (⟨.deliver t, ·, os.fg⟩) ∧
      (b.send env os t ev).1.fg = os.fg ∧ (b.send env os t ev).1.focusCalls = os.focusCalls := by
  unfold send sendOutputs
  dsimp only
  split
  · exact ⟨rfl, rfl, rfl⟩
  · split
    · simp [emit]
    · split <;> simp [emit]

/-- A delivery by focus cycle makes one focus call, by window message none. -/
def focusCost : Strategy → Nat
  | .focusCycle => 1
  | .windowMessage => 0

theorem deliver_os (b : Broadcaster) (env : Env) (os : Os) (s : Strategy) (t : Nat) (ev : InputEvent)
    (ht : t < b.targets.length) :
    ∃ es, (b.deliver env os (deliverTo s t) ev).2.log = os.log ++ es ∧ b.Delivery env ev s t es ∧
      (b.deliver env os (deliverTo s t) ev).2.focusCalls = os.focusCalls + focusCost s := by
  have ht' : ¬ (deliverTo s t).target ≥ b.targets.length := Nat.not_le.2 ht
  cases s with
  | windowMessage =>
    have e : b.deliver env os (deliverTo .windowMessage t) ev = account env ev b (b.post env os t ev) := by
      unfold deliver; rw [if_neg ht']; rfl
    obtain ⟨hlog, -, hcalls⟩ := b.post_os env os t ev
    rw [e]
    exact ⟨_, hlog, ⟨os.fg, rfl⟩, hcalls⟩
  | focusCycle =>
    have e : b.deliver env os (deliverTo .focusCycle t) ev =
        if ¬ (bringToForeground env os (b.hwndOf t)).2 then (b.focusFailed, (bringToForeground env os (b.hwndOf t)).1)
        else account env ev b (b.send env (bringToForeground env os (b.hwndOf t)).1 t ev) := by
      unfold deliver; rw [if_neg ht']; rfl
    rw [e]
    by_cases hf : (bringToForeground env os (b.hwndOf t)).2 = true
    · obtain ⟨h, hh, hfg⟩ := bringToForeground_iff.1 hf
      obtain ⟨hlog, -, hcalls⟩ := b.send_os env (bringToForeground env os (b.hwndOf t)).1 t ev
      rw [if_neg (not_not.2 hf)]
      refine ⟨_, hlog, .inr ⟨h, hh, ?_⟩, hcalls⟩
      rw [show (bringToForeground env os (b.hwndOf t)).1.fg = env.focus os.focusCalls from rfl, hfg]
    · rw [if_pos hf]
      exact ⟨[], by simp [bringToForeground], .inl rfl, rfl⟩

/-! ## All deliveries of a plan -/

theorem act_deliver_targets (env : Env) (ev : InputEvent) (s : Broadcaster × Os) (st : Strategy) (t : Nat) :
    (act env ev s (deliverTo st t)).1.config = s.1.config :=
  act_config env ev s _ (by simp [deliverTo])

/-- Windows and positions only depend on the configuration. -/
theorem windows_config {b c : Broadcaster} (h : b.config = c.config) :
    b.hwndOf = c.hwndOf ∧ b.clientOf = c.clientOf ∧ b.mapped = c.mapped := by
  simp only [config, Prod.mk.injEq] at h
  obtain ⟨-, ht, hm, -⟩ := h
  have hw : b.hwndOf = c.hwndOf := by funext i; simp [hwndOf, ht]
  have hc : b.clientOf = c.clientOf := by funext env i; simp [clientOf, hw, ht]
  exact ⟨hw, hc, by funext env t x y; simp [mapped, hc, hm]⟩

theorem delivery_config {b c : Broadcaster} (h : b.config = c.config) : b.Delivery = c.Delivery := by
  obtain ⟨hw, hc, hp⟩ := windows_config h
  funext env ev s t es
  simp only [Delivery, postOutputs, sendOutputs, hw, hc, hp]

/-- The log of a list of deliveries: one chunk per target, in order. -/
theorem deliveries_os (env : Env) (ev : InputEvent) (st : Strategy) (l : List Nat) (s : Broadcaster × Os)
    (hl : ∀ t ∈ l, t < s.1.targets.length) :
    ∃ chunks, List.Forall₂ (s.1.Delivery env ev st) l chunks ∧
      ((l.map (deliverTo st)).foldl (act env ev) s).2.log = s.2.log ++ chunks.flatten ∧
      ((l.map (deliverTo st)).foldl (act env ev) s).2.focusCalls = s.2.focusCalls + l.length * focusCost st := by
  induction l generalizing s with
  | nil => exact ⟨[], .nil, by simp, by simp⟩
  | cons t l ih =>
    have hc := act_deliver_targets env ev s st t
    have htgt : (act env ev s (deliverTo st t)).1.targets = s.1.targets := by
      simp only [config, Prod.mk.injEq] at hc; exact hc.2.1
    obtain ⟨es, hes, hd, hn⟩ := s.1.deliver_os env s.2 st t ev (hl t List.mem_cons_self)
    obtain ⟨chunks, hch, hlog, hcalls⟩ := ih (act env ev s (deliverTo st t))
      (fun u hu => by rw [htgt]; exact hl u (List.mem_cons_of_mem _ hu))
    have hact : act env ev s (deliverTo st t) = s.1.deliver env s.2 (deliverTo st t) ev := rfl
    refine ⟨es :: chunks, .cons hd ?_, ?_, ?_⟩
    · rw [delivery_config hc] at hch; exact hch
    · rw [List.map_cons, List.foldl_cons, hlog, hact, hes, List.flatten_cons, List.append_assoc]
    · rw [List.map_cons, List.foldl_cons, hcalls, hact, hn, List.length_cons, Nat.add_mul, Nat.one_mul]
      omega

/-! ## The repairs -/

/-- The window that is in the foreground after `RestoreFocus`, given the number
of focus calls before it and the window that was there. -/
def restoredFg (b : Broadcaster) (env : Env) (calls : Nat) (fg : Option Hwnd) : Option Hwnd :=
  if b.master < b.targets.length then env.focus calls else fg

def heldSent (b : Broadcaster) (fg : Option Hwnd) : List Sent :=
  b.masterKeys.downKeys.map fun (i, k) => ⟨.reassertHeld, .sendKey (code i) k.scan true k.flags, fg⟩

theorem reassertHeld_os (b : Broadcaster) (env : Env) (os : Os) :
    (b.reassertHeld env os).log = os.log ++ b.heldSent os.fg ∧ (b.reassertHeld env os).fg = os.fg ∧
      (b.reassertHeld env os).focusCalls = os.focusCalls := by
  have h : ∀ (l : List (Fin 256 × Key)) (os : Os),
      let os' := l.foldl (fun os (i, k) => (emit env os .reassertHeld (.sendKey (code i) k.scan true k.flags)).1) os
      os'.log = os.log ++ (l.map fun (i, k) => (⟨.reassertHeld, .sendKey (code i) k.scan true k.flags, os.fg⟩ : Sent)) ∧
        os'.fg = os.fg ∧ os'.focusCalls = os.focusCalls := by
    intro l
    induction l with
    | nil => simp
    | cons x l ih =>
      intro os
      obtain ⟨h1, h2, h3⟩ := ih (emit env os .reassertHeld (.sendKey (code x.1) x.2.scan true x.2.flags)).1
      exact ⟨by rw [List.foldl_cons, h1]; simp [emit], h2, h3⟩
  exact h _ _

theorem mem_heldSent {b : Broadcaster} {fg : Option Hwnd} {e : Sent} :
    e ∈ b.heldSent fg ↔ ∃ i, (b.masterKeys.keys i).down = true ∧
      e = ⟨.reassertHeld, .sendKey (code i) (b.masterKeys.keys i).scan true (b.masterKeys.keys i).flags, fg⟩ := by
  simp only [heldSent, List.mem_map]
  constructor
  · rintro ⟨⟨i, k⟩, hk, rfl⟩
    obtain ⟨hd, rfl⟩ := mem_downKeys.1 hk
    exact ⟨i, hd, rfl⟩
  · rintro ⟨i, hd, rfl⟩
    exact ⟨(i, b.masterKeys.keys i), mem_downKeys.2 ⟨hd, rfl⟩, rfl⟩

theorem heldSent_nil {b : Broadcaster} (h : ¬ 0 < b.masterKeys.heldCount) (fg : Option Hwnd) : b.heldSent fg = [] := by
  rw [heldSent, List.map_eq_nil_iff, List.eq_nil_iff_forall_not_mem]
  rintro ⟨i, k⟩ hm
  exact h (heldCount_pos.2 ⟨i, (mem_downKeys.1 hm).1⟩)

theorem restoreFocus_os (b : Broadcaster) (env : Env) (os : Os) :
    (b.restoreFocus env os).2.log = os.log ∧
      (b.restoreFocus env os).2.fg = b.restoredFg env os.focusCalls os.fg := by
  unfold restoreFocus restoredFg
  split <;> exact ⟨rfl, rfl⟩

/-- What the cursor repair sends, for a mouse event. -/
def cursorSent (env : Env) (ev : InputEvent) (fg : Option Hwnd) : List Sent :=
  if isKey ev.kind then [] else [⟨.restoreCursor, .sendMouseMoveAbs (toAbsolute env.virtualScreen ev.x ev.y), fg⟩]

theorem mem_cursorSent {env : Env} {ev : InputEvent} {fg : Option Hwnd} {e : Sent} :
    e ∈ cursorSent env ev fg ↔ isKey ev.kind = false ∧
      e = ⟨.restoreCursor, .sendMouseMoveAbs (toAbsolute env.virtualScreen ev.x ev.y), fg⟩ := by
  unfold cursorSent
  cases isKey ev.kind <;> simp

theorem repairs_log (env : Env) (ev : InputEvent) (s : Broadcaster × Os) :
    ((repairs ev s.1.masterKeys).foldl (act env ev) s).2.log =
      s.2.log ++ cursorSent env ev s.2.fg ++ s.1.heldSent (s.1.restoredFg env s.2.focusCalls s.2.fg) := by
  have hcur : ∃ os, ((if isKey ev.kind then [] else [{ kind := .restoreCursor }] : List Action).foldl (act env ev) s) =
      (s.1, os) ∧ os.log = s.2.log ++ cursorSent env ev s.2.fg ∧ os.fg = s.2.fg ∧ os.focusCalls = s.2.focusCalls := by
    unfold cursorSent
    split
    · exact ⟨s.2, rfl, by simp, rfl, rfl⟩
    · exact ⟨_, rfl, rfl, rfl, rfl⟩
  obtain ⟨os, hos, hlog, hfg, hcalls⟩ := hcur
  obtain ⟨hl, hf⟩ := s.1.restoreFocus_os env os
  have hkeys := congrArg masterKeys (restoreFocus_uncounted s.1 env os)
  change (s.1.restoreFocus env os).1.masterKeys = s.1.masterKeys at hkeys
  unfold repairs
  rw [List.foldl_append, List.foldl_append, hos]
  by_cases hh : 0 < s.1.masterKeys.heldCount
  · rw [if_pos hh]
    change ((s.1.restoreFocus env os).1.reassertHeld env (s.1.restoreFocus env os).2).log = _
    rw [(reassertHeld_os _ env _).1, hl, hf, hlog, hcalls, hfg, heldSent, heldSent, hkeys]
  · rw [if_neg hh, heldSent_nil hh, List.append_nil]
    change (s.1.restoreFocus env os).2.log = _
    rw [hl, hlog]

/-! ## The whole call -/

/-- What one call of `handle` adds to the log. -/
inductive Handled (b : Broadcaster) (env : Env) (os : Os) (ev : InputEvent) : List Sent → Prop where
  | silent (hr : rule ev b.routes b.masterKeys = none ∨ b.targets = []) : Handled b env os ev []
  | mirrored (targets : TargetMask) (s : Strategy) (l : List Nat) (chunks : List (List Sent)) (rest : List Sent)
      (hr : rule ev b.routes b.masterKeys = some (targets, s))
      (hl : l = mirrorTargets targets (aliveMask env b.targets) b.master)
      (hch : List.Forall₂ (b.Delivery env ev s) l chunks)
      (hrest : if l ≠ [] ∧ s = .focusCycle then
          ∃ fg, rest = cursorSent env ev fg ++ b.heldSent (b.restoredFg env (os.focusCalls + l.length) fg)
        else rest = []) :
      Handled b env os ev (chunks.flatten ++ rest)

theorem swap_log (b : Broadcaster) (env : Env) (os : Os) : (b.swapMaster env os).2.log = os.log := by
  unfold swapMaster; split <;> rfl

/-- Executing an empty plan is doing nothing. -/
theorem handle_eq (b : Broadcaster) (env : Env) (os : Os) (ev : InputEvent) :
    b.handle env os ev =
      if b.targets.isEmpty then (b.applied ev, os)
      else ((b.applied ev).planOf env ev).actions.foldl (act env ev) (b.applied ev, os) := by
  have hex : ∀ c : Broadcaster, (if (c.planOf env ev).actions.isEmpty then (c, os)
      else c.execute env os (c.planOf env ev) ev) = (c.planOf env ev).actions.foldl (act env ev) (c, os) := by
    intro c
    split
    · next h => rw [List.isEmpty_iff.1 h]; rfl
    · rfl
  unfold handle
  dsimp only
  rw [hex]
  rfl

/-- The actions of a rule: the deliveries leave the configuration alone, so the
repairs find it as it was. -/
theorem ruleActions_sent (c : Broadcaster) (env : Env) (os : Os) (ev : InputEvent) {targets : TargetMask} {s : Strategy}
    (hr : rule ev c.routes c.masterKeys = some (targets, s)) :
    ∃ es, ((ruleActions ev (aliveMask env c.targets) c.master c.masterKeys (targets, s)).foldl (act env ev)
      (c, os)).2.log = os.log ++ es ∧ Handled c env os ev es := by
  simp only [ruleActions, List.foldl_append]
  generalize hl : mirrorTargets targets (aliveMask env c.targets) c.master = l
  have hlt : ∀ t ∈ l, t < c.targets.length := by subst hl; exact fun t => mirrorTargets_alive
  obtain ⟨chunks, hch, hlog, hcalls⟩ := deliveries_os env ev s l (c, os) hlt
  have hcfg := foldl_act_config env ev (l.map (deliverTo s)) (c, os) (by
    intro a ha
    obtain ⟨t, -, rfl⟩ := List.mem_map.1 ha
    simp [deliverTo])
  generalize (l.map (deliverTo s)).foldl (act env ev) (c, os) = m at hlog hcalls hcfg ⊢
  simp only [config, Prod.mk.injEq] at hcfg
  by_cases hc : l ≠ [] ∧ s = .focusCycle
  · rw [if_pos hc, ← hcfg.2.2.2]
    have hrep := repairs_log env ev m
    rw [hcalls, hc.2] at hrep
    have hheld : m.1.heldSent (m.1.restoredFg env (os.focusCalls + l.length * focusCost .focusCycle) m.2.fg) =
        c.heldSent (c.restoredFg env (os.focusCalls + l.length) m.2.fg) := by
      simp only [heldSent, restoredFg, hcfg.2.2.2, hcfg.2.2.1, hcfg.2.1, focusCost, Nat.mul_one]
    rw [hrep, hlog, hheld, List.append_assoc, List.append_assoc]
    exact ⟨_, rfl, .mirrored targets s l chunks _ hr hl.symm hch (by rw [if_pos hc]; exact ⟨m.2.fg, rfl⟩)⟩
  · rw [if_neg hc]
    refine ⟨chunks.flatten ++ [], by simpa using hlog, .mirrored targets s l chunks [] hr hl.symm hch ?_⟩
    rw [if_neg hc]

/-- Every call of `handle` is one of these, for the broadcaster that has
already applied the event. -/
theorem handle_sent (b : Broadcaster) (env : Env) (os : Os) (ev : InputEvent) :
    ∃ es, (b.handle env os ev).2.log = os.log ++ es ∧ Handled (b.applied ev) env os ev es := by
  rw [handle_eq]
  split
  · next ht => exact ⟨[], by simp, .silent (.inr (List.isEmpty_iff.1 ht))⟩
  · generalize b.applied ev = c
    rw [planOf, plan_actions]
    by_cases hs : isSwapHotkey ev c.routes
    · have hn : rule ev c.routes c.masterKeys = none := by simp [rule, hs.1, hs]
      rw [if_pos hs]
      refine ⟨[], ?_, .silent (.inl hn)⟩
      split
      · simpa [act] using swap_log c env os
      · simp
    · rw [if_neg hs]
      cases hr : rule ev c.routes c.masterKeys with
      | none => exact ⟨[], by simp, .silent (.inl hr)⟩
      | some r => exact ruleActions_sent c env os ev hr

/-! ## Entry by entry -/

theorem forall₂_flatten {α β : Type} {R : α → List β → Prop} {P : β → Prop} (h : ∀ a bs, R a bs → ∀ b ∈ bs, P b)
    {l : List α} {chunks : List (List β)} (hf : List.Forall₂ R l chunks) : ∀ b ∈ chunks.flatten, P b := by
  induction hf with
  | nil => simp
  | cons hab _ ih =>
    intro b hb
    rcases List.mem_append.1 (List.flatten_cons ▸ hb) with hb | hb
    · exact h _ _ hab b hb
    · exact ih b hb

/-- One entry of a delivery: sent for its target, and one of its calls. -/
theorem delivery_mem {b : Broadcaster} {env : Env} {ev : InputEvent} {s : Strategy} {t : Nat} {es : List Sent}
    (h : b.Delivery env ev s t es) : ∀ e ∈ es, e.sender = .deliver t ∧
      (e.out ∈ b.postOutputs env t ev ∨ e.out ∈ b.sendOutputs env t ev) := by
  intro e he
  cases s with
  | windowMessage =>
    obtain ⟨fg, rfl⟩ := h
    obtain ⟨o, ho, rfl⟩ := List.mem_map.1 he
    exact ⟨rfl, .inl ho⟩
  | focusCycle =>
    rcases h with rfl | ⟨w, -, rfl⟩
    · cases he
    · obtain ⟨o, ho, rfl⟩ := List.mem_map.1 he
      exact ⟨rfl, .inr ho⟩

section Entries
variable {b : Broadcaster} {env : Env} {os : Os} {ev : InputEvent} {es : List Sent}

/-- An entry of the log: part of a delivery, or of the repairs of an event that
makes the focus leave the master. -/
theorem Handled.entry (h : Handled b env os ev es) {e : Sent} (he : e ∈ es) :
    (∃ s t sent, b.Delivery env ev s t sent ∧ e ∈ sent) ∨
    ∃ targets fg, rule ev b.routes b.masterKeys = some (targets, .focusCycle) ∧
      mirrorTargets targets (aliveMask env b.targets) b.master ≠ [] ∧
      (e ∈ cursorSent env ev fg ∨ e ∈ b.heldSent (b.restoredFg env
        (os.focusCalls + (mirrorTargets targets (aliveMask env b.targets) b.master).length) fg)) := by
  cases h with
  | silent => cases he
  | mirrored targets s l chunks rest hr hl hch hrest =>
    subst hl
    rcases List.mem_append.1 he with he | he
    · exact .inl (forall₂_flatten (P := fun e => ∃ s t sent, b.Delivery env ev s t sent ∧ e ∈ sent)
        (fun t sent hd e he => ⟨s, t, sent, hd, he⟩) hch e he)
    · split at hrest
      · next hc =>
        obtain ⟨hne, rfl⟩ := hc
        obtain ⟨fg, rfl⟩ := hrest
        exact .inr ⟨targets, fg, hr, hne, List.mem_append.1 he⟩
      · subst hrest; cases he

/-- The log of an event that makes the focus leave the master ends with the repairs. -/
theorem Handled.repaired (h : Handled b env os ev es) {targets : TargetMask}
    (hr : rule ev b.routes b.masterKeys = some (targets, .focusCycle))
    (hne : mirrorTargets targets (aliveMask env b.targets) b.master ≠ []) :
    ∃ sent fg, es = sent ++ (cursorSent env ev fg ++ b.heldSent (b.restoredFg env
      (os.focusCalls + (mirrorTargets targets (aliveMask env b.targets) b.master).length) fg)) := by
  cases h with
  | silent hs =>
    rcases hs with hs | hs
    · rw [hr] at hs; cases hs
    · -- A live slave is a target.
      obtain ⟨t, ht⟩ := List.exists_mem_of_ne_nil _ hne
      have hlt := mirrorTargets_alive ht
      rw [hs] at hlt
      exact absurd hlt (Nat.not_lt_zero _)
  | mirrored targets' s l chunks rest hr' hl hch hrest =>
    cases hr.symm.trans hr'
    subst hl
    rw [if_pos ⟨hne, rfl⟩] at hrest
    obtain ⟨fg, rfl⟩ := hrest
    exact ⟨_, fg, rfl⟩

/-- A call of `handle` re-asserts the held keys, all of them, exactly when the
event makes the focus leave the master. -/
theorem handled_reasserts (h : Handled b env os ev es) :
    (∀ e ∈ es, e.sender = .reassertHeld →
      cycles ev b.routes (aliveMask env b.targets) b.master b.masterKeys ∧ ∃ fg, e ∈ b.heldSent fg) ∧
    (cycles ev b.routes (aliveMask env b.targets) b.master b.masterKeys → ∃ fg, ∀ e ∈ b.heldSent fg, e ∈ es) := by
  constructor
  · intro e he hs
    rcases h.entry he with ⟨s, t, sent, hd, hm⟩ | ⟨targets, fg, hr, hne, hc | hheld⟩
    · rw [(delivery_mem hd e hm).1] at hs
      cases hs
    · rw [(mem_cursorSent.1 hc).2] at hs
      cases hs
    · exact ⟨⟨targets, hr, hne⟩, _, hheld⟩
  · rintro ⟨targets, hr, hne⟩
    obtain ⟨sent, fg, rfl⟩ := h.repaired hr hne
    exact ⟨_, fun e he => List.mem_append_right _ (List.mem_append_right _ he)⟩

end Entries

end MultiMadness.Broadcaster
