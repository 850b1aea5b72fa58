import MultiMadness.Args
import MultiMadness.KeyNames
import MultiMadness.Plans
/-!
# The options of `run`

What `cmd_run` reads out of its command line. The first value of an option counts.
`--keys` lists the keys that are mirrored, `--mouse-modifier` is the key that lets
the mouse through, `--swap-key` the hotkey and `--strategy` the way to deliver; a
name that `parse_key` does not know is passed over.

- `getInt_toDigits`: a number is read as it is written.
- `splitList_eq`: what `split_list` makes of a list.
- `find_routesOf`: which keys have a binding, and which one.
- `options_obeyed`: what a plan and the hook do under the routes of a command line.
-/

namespace MultiMadness

open KeyState Capture

open NumeralLib

def Args.getOr (args : Args) (key default : Token) : Token := (args.get key).getD default

/-! ## Numbers -/

def isSpace (c : Char) : Bool := c = ' ' || ('\t' ≤ c && c ≤ '\r')

/-- Whether there is a minus sign, and what follows the sign. -/
def signed : Token → Bool × Token
  | '-' :: s => (true, s)
  | '+' :: s => (false, s)
  | s => (false, s)

/-- The base that a prefix stands for, and what follows it. A hexadecimal prefix
is one only before a digit. -/
def based : Token → Nat × Token
  | '0' :: x :: c :: s =>
    if (x = 'x' ∨ x = 'X') ∧ (digit 16 c.toUpper).isSome then (16, c :: s) else (8, '0' :: x :: c :: s)
  | '0' :: s => (8, '0' :: s)
  | s => (10, s)

/-- A `long` has 32 bits here, and a number that it cannot hold is the nearest one that it can. -/
def saturate (negative : Bool) (n : Nat) : Int :=
  if negative then max (-2147483648) (-n) else min 2147483647 n

def magnitude (b : Nat) (s : Token) : Nat := readPrefix (fun c => digit b c.toUpper) b s 0

/-- `strtol` where it finds the base out. -/
def strtol (s : Token) : Int :=
  let (negative, s) := signed (s.dropWhile isSpace)
  let (b, s) := based s
  saturate negative (magnitude b s)

def atoi (s : Token) : Int :=
  let (negative, s) := signed (s.dropWhile isSpace)
  saturate negative (magnitude 10 s)

def Args.getInt (args : Args) (key : Token) (default : Int) : Int :=
  match args.get key with
  | none | some [] => default
  | some v => strtol v

/-- A number is written with a digit first, and only 0 with a zero. -/
theorem head_toDigits (n : Nat) : ∃ c cs, Nat.toDigits 10 n = c :: cs ∧ ('0' ≤ c ∧ c ≤ '9') ∧ (c = '0' → n = 0) := by
  induction n using Nat.strong_induction_on with
  | _ n ih =>
    by_cases hn : n < 10
    · have hsmall : ∀ n < 10, ('0' ≤ n.digitChar ∧ n.digitChar ≤ '9') ∧ (n.digitChar = '0' → n = 0) := by decide
      exact ⟨_, [], Nat.toDigits_of_lt_base hn, hsmall n hn⟩
    · obtain ⟨c, cs, he, hc, h0⟩ := ih (n / 10) (by omega)
      refine ⟨c, cs ++ [(n % 10).digitChar], by rw [Nat.toDigits_of_base_le (by decide) (by omega), he]; rfl, hc, ?_⟩
      intro hz
      have hlead := h0 hz
      omega

/-- A number is written without a space or a sign before it. -/
theorem signed_toDigits (n : Nat) : signed ((Nat.toDigits 10 n).dropWhile isSpace) = (false, Nat.toDigits 10 n) := by
  obtain ⟨c, cs, he, hc, -⟩ := head_toDigits n
  have hdigit : isSpace c = false ∧ c ≠ '-' ∧ c ≠ '+' :=
    of_all (fun c => isSpace c = false ∧ c ≠ '-' ∧ c ≠ '+') (by decide) (mem_decimal.2 hc)
  obtain ⟨hspace, hminus, hplus⟩ := hdigit
  simp only [he, List.dropWhile_cons, hspace, Bool.false_eq_true, if_false]
  unfold signed
  split
  · next h => cases h; exact absurd rfl hminus
  · next h => cases h; exact absurd rfl hplus
  · rfl

theorem magnitude_toDigits (n : Nat) : magnitude 10 (Nat.toDigits 10 n) = n := by
  have hd : Denotes (fun c => digit 10 c.toUpper) 10 ((Nat.toDigits 10 n).map id) n :=
    denotes_toDigits (by decide) (by decide) n
  rw [List.map_id] at hd
  have h : magnitude 10 (Nat.toDigits 10 n ++ []) = n := readPrefix_append (reads_zero.2 hd) (by simp)
  rwa [List.append_nil] at h

theorem saturate_mem (negative : Bool) (n : Nat) :
    -2147483648 ≤ saturate negative n ∧ saturate negative n ≤ 2147483647 := by
  cases negative <;> simp only [saturate, Bool.false_eq_true, if_false, if_true] <;> omega

theorem saturate_small {n : Nat} (hn : n ≤ 2147483647) : saturate false n = n := by
  simp only [saturate, Bool.false_eq_true, if_false]
  omega

/-- A number is read as it is written in decimal. -/
theorem strtol_toDigits {n : Nat} (hn : n ≤ 2147483647) : strtol (Nat.toDigits 10 n) = n := by
  by_cases h0 : n = 0
  · rw [h0]
    decide
  · obtain ⟨c, cs, he, hc, hz⟩ := head_toDigits n
    have hbased : based (Nat.toDigits 10 n) = (10, Nat.toDigits 10 n) := by
      rw [he]
      unfold based
      split
      · next h => cases h; exact absurd (hz rfl) h0
      · next h => cases h; exact absurd (hz rfl) h0
      · rfl
    simp only [strtol, signed_toDigits, hbased, magnitude_toDigits]
    exact saturate_small hn

theorem atoi_toDigits {n : Nat} (hn : n ≤ 2147483647) : atoi (Nat.toDigits 10 n) = n := by
  simp only [atoi, signed_toDigits, magnitude_toDigits]
  exact saturate_small hn

theorem atoi_mem (s : Token) : -2147483648 ≤ atoi s ∧ atoi s ≤ 2147483647 := saturate_mem _ _

theorem getInt_mem (args : Args) (key : Token) : -2147483648 ≤ args.getInt key 0 ∧ args.getInt key 0 ≤ 2147483647 := by
  unfold Args.getInt
  split
  · exact ⟨by decide, by decide⟩
  · exact ⟨by decide, by decide⟩
  · exact saturate_mem _ _

/-- What the values of an option mean, the first of which counts. -/
theorem getInt_toDigits {args : Args} {key : Token} {n : Nat} (h : args.get key = some (Nat.toDigits 10 n))
    (hn : n ≤ 2147483647) (default : Int) : args.getInt key default = n := by
  have hne : Nat.toDigits 10 n ≠ [] := by
    obtain ⟨c, cs, he, -⟩ := head_toDigits n
    rw [he]
    exact List.cons_ne_nil c cs
  unfold Args.getInt
  split
  · next he => rw [h] at he; cases he
  · next he => exact absurd (Option.some.inj (h.symm.trans he)) hne
  · next v hv he =>
    cases h.symm.trans he
    exact strtol_toDigits hn

example : strtol " -0x1Fz".toList = -31 ∧ strtol "0x".toList = 0 ∧ strtol "019".toList = 1 ∧
    strtol "99999999999".toList = 2147483647 ∧ atoi "08".toList = 8 := by decide

/-! ## Lists -/

/-- One character of the loop of `split_list`: what is out, and the current piece. -/
def splitChar (sep : Char) (s : List Token × Token) (c : Char) : List Token × Token :=
  if c = sep then (if s.2 = [] then s.1 else s.1 ++ [s.2], [])
  else if c ≠ ' ' then (s.1, s.2 ++ [c])
  else s

def splitList (s : Token) (sep : Char) : List Token :=
  let (out, cur) := s.foldl (splitChar sep) ([], [])
  if cur = [] then out else out ++ [cur]

/-! ## The routes -/

def strategyOf (args : Args) : Strategy :=
  if args.getOr "strategy".toList "focus".toList = "post".toList then .windowMessage else .focusCycle

/-- One for each known name; an unknown one draws a warning only. -/
def keyBindings (args : Args) : List KeyBinding :=
  (splitList (args.getOr "keys".toList []) ',').filterMap fun k =>
    (parseKey k).map fun vk => { vk, targets := kAllTargets, strategy := strategyOf args, swallow := false }

def routesOf (args : Args) : Routes :=
  let routes := Routes.addKeys {} (keyBindings args)
  let routes : Routes :=
    match (args.get "mouse-modifier".toList).bind parseKey with
    | some vk => { routes with mouseTargets := kAllTargets, mouseModifierVk := vk, mouseStrategy := strategyOf args }
    | none => routes
  match parseKey (args.getOr "swap-key".toList "F12".toList) with
  | some vk => { routes with swapHotkeyVk := vk }
  | none => routes

/-! ## What the options say -/

/-- The text is a name of the key. -/
def Names (text : Token) (vk : UInt16) : Prop := KeyText (upper text) vk

/-- The key is on the list; blanks do not count, not even within a name. -/
def Listed (args : Args) (vk : UInt16) : Prop :=
  ∃ piece ∈ (args.getOr "keys".toList []).splitOn ',', Names (piece.filter (· ≠ ' ')) vk

/-- The key is the hotkey; there is none for the code 0. -/
def Hotkey (args : Args) (vk : UInt16) : Prop := Names (args.getOr "swap-key".toList "F12".toList) vk ∧ vk ≠ 0

/-- The mouse is let through; a modifier of code 0 does so without being held. -/
def MouseOpen (args : Args) (ks : KeyState) : Prop :=
  ∃ text vk, args.get "mouse-modifier".toList = some text ∧ Names text vk ∧ (vk = 0 ∨ ks.isDown vk = true)

/-- What is done for an event that goes to all live slaves. -/
def toAll (args : Args) (ev : InputEvent) (alive : TargetMask) (master : Nat) (ks : KeyState) : List Action :=
  ruleActions ev alive master ks (kAllTargets, strategyOf args)

/-! ## What a list holds -/

theorem splitChar_sep (sep : Char) (s : List Token × Token) :
    splitChar sep s sep = (s.1 ++ [s.2].filter (· ≠ []), []) := by
  unfold splitChar
  by_cases h : s.2 = [] <;> simp [h]

theorem splitChar_other {sep c : Char} (h : c ≠ sep) (s : List Token × Token) :
    splitChar sep s c = (s.1, s.2 ++ [c].filter (· ≠ ' ')) := by
  unfold splitChar
  rw [if_neg h]
  by_cases hc : c = ' ' <;> simp [hc]

/-- The pieces between the separators, without blanks and without the empty ones. -/
theorem splitList_eq (s : Token) (sep : Char) :
    splitList s sep = ((s.splitOn sep).map (·.filter (· ≠ ' '))).filter (· ≠ []) := by
  -- `acc` is the current piece with its blanks, backwards.
  have hloop : ∀ (s acc : Token) (out : List Token),
      let r := s.foldl (splitChar sep) (out, acc.reverse.filter (· ≠ ' '))
      r.1 ++ [r.2].filter (· ≠ []) =
        out ++ ((s.splitOnPPrepend (· == sep) acc).map (·.filter (· ≠ ' '))).filter (· ≠ []) := by
    intro s
    induction s with
    | nil => intro acc out; rfl
    | cons c s ih =>
      intro acc out
      dsimp only
      rw [List.foldl_cons]
      by_cases hc : c = sep
      · subst hc
        have hrest := ih [] (out ++ [acc.reverse.filter (· ≠ ' ')].filter (· ≠ []))
        rw [splitChar_sep, List.splitOnPPrepend_cons_pos (p := (· == c)) (beq_self_eq_true c)]
        refine hrest.trans ?_
        rw [List.map_cons, List.append_assoc, ← List.filter_append, List.singleton_append, List.splitOnPPrepend_nil_right]
      · rw [splitChar_other hc, List.splitOnPPrepend_cons_neg (p := (· == sep)) (beq_eq_false_iff_ne.2 hc), ← ih (c :: acc) out]
        dsimp only
        rw [List.reverse_cons, List.filter_append]
  have hstart := hloop s [] []
  rw [List.nil_append, List.splitOnPPrepend_nil_right, ← List.splitOn_eq_splitOnP] at hstart
  rw [← hstart]
  unfold splitList
  by_cases h : (s.foldl (splitChar sep) ([], [])).2 = [] <;> simp [h]

/-- Blanks go, even within a piece. -/
example : splitList "W,A, S,,num pad 1".toList ',' = [['W'], ['A'], ['S'], "numpad1".toList] := by decide

/-! ## The bindings -/

theorem names_iff {text : Token} {vk : UInt16} : Names text vk ↔ parseKey text = some vk := (parseKey_iff text vk).symm

theorem names_inj {text : Token} {v w : UInt16} (hv : Names text v) (hw : Names text w) : v = w :=
  Option.some.inj ((names_iff.1 hv).symm.trans (names_iff.1 hw))

theorem listed_iff {args : Args} {vk : UInt16} :
    Listed args vk ↔ ∃ k ∈ splitList (args.getOr "keys".toList []) ',', parseKey k = some vk := by
  rw [splitList_eq]
  constructor
  · rintro ⟨piece, hp, hn⟩
    have hk := names_iff.1 hn
    refine ⟨_, List.mem_filter.2 ⟨List.mem_map_of_mem hp, decide_eq_true ?_⟩, hk⟩
    intro h0
    rw [h0] at hk
    cases hk
  · rintro ⟨k, hk, hvk⟩
    obtain ⟨piece, hp, rfl⟩ := List.mem_map.1 (List.mem_filter.1 hk).1
    exact ⟨piece, hp, names_iff.2 hvk⟩

/-- All bindings are alike. -/
def mirrored (args : Args) (vk : UInt16) : KeyBinding :=
  { vk, targets := kAllTargets, strategy := strategyOf args, swallow := false }

theorem mem_keyBindings {args : Args} {b : KeyBinding} :
    b ∈ keyBindings args ↔ Listed args b.vk ∧ b = mirrored args b.vk := by
  unfold keyBindings
  rw [listed_iff, List.mem_filterMap]
  constructor
  · rintro ⟨k, hk, hb⟩
    obtain ⟨vk, hvk, rfl⟩ := Option.map_eq_some_iff.1 hb
    exact ⟨⟨k, hk, hvk⟩, rfl⟩
  · rintro ⟨⟨k, hk, hvk⟩, hb⟩
    exact ⟨k, hk, by rw [hvk]; exact congrArg some hb.symm⟩

/-- The settings do not touch the bindings. -/
theorem routesOf_find (args : Args) (vk : UInt16) :
    (routesOf args).find vk = (Routes.addKeys {} (keyBindings args)).find vk := by
  unfold routesOf
  cases (args.get "mouse-modifier".toList).bind parseKey <;>
    cases parseKey (args.getOr "swap-key".toList "F12".toList) <;> rfl

theorem find_routesOf {args : Args} {vk : UInt16} {b : KeyBinding} :
    (routesOf args).find vk = some b ↔ Listed args vk ∧ b = mirrored args vk := by
  rw [routesOf_find, (Routes.finiteMap_addKeys rfl (keyBindings args)).find]
  constructor
  · intro h
    split at h
    · have hvk : b.vk = vk := by simpa using List.find?_some h
      subst hvk
      exact mem_keyBindings.1 (List.mem_reverse.1 (List.mem_of_find?_eq_some h))
    · cases h
  · rintro ⟨hl, rfl⟩
    obtain ⟨k, -, hk⟩ := listed_iff.1 hl
    have hlt : vk < 256 := UInt16.lt_of_le_of_lt (keyText_le (names_iff.2 hk)) (by decide)
    rw [if_pos hlt]
    have hmem : mirrored args vk ∈ (keyBindings args).reverse := List.mem_reverse.2 (mem_keyBindings.2 ⟨hl, rfl⟩)
    cases hf : (keyBindings args).reverse.find? fun b => b.vk = vk with
    | none => exact absurd (List.find?_eq_none.1 hf _ hmem) (by simp [mirrored])
    | some c =>
      have hc : c.vk = vk := by simpa using List.find?_some hf
      rw [(mem_keyBindings.1 (List.mem_reverse.1 (List.mem_of_find?_eq_some hf))).2, hc]

theorem settings_addKeys (r : Routes) (bs : List KeyBinding) : (r.addKeys bs).settings = r.settings := by
  induction bs generalizing r with
  | nil => rfl
  | cons b bs ih => exact (ih (r.addKey b)).trans (Routes.addKey_settings r b)

/-- The mouse's settings, and the hotkey. -/
theorem settings_routesOf (args : Args) : (routesOf args).settings =
    (match (args.get "mouse-modifier".toList).bind parseKey with
      | some vk => (kAllTargets, vk, strategyOf args, (parseKey (args.getOr "swap-key".toList "F12".toList)).getD 0)
      | none => (0, 0, .focusCycle, (parseKey (args.getOr "swap-key".toList "F12".toList)).getD 0)) := by
  have hfresh := settings_addKeys {} (keyBindings args)
  unfold routesOf
  generalize Routes.addKeys {} (keyBindings args) = routes at hfresh
  simp only [Routes.settings, Prod.mk.injEq] at hfresh ⊢
  obtain ⟨h1, h2, h3, h4⟩ := hfresh
  cases (args.get "mouse-modifier".toList).bind parseKey <;>
    cases parseKey (args.getOr "swap-key".toList "F12".toList) <;> simp [h1, h2, h3, h4]

theorem hotkey_iff {args : Args} {vk : UInt16} :
    Hotkey args vk ↔ (routesOf args).swapHotkeyVk ≠ 0 ∧ vk = (routesOf args).swapHotkeyVk := by
  have hset := settings_routesOf args
  have hswap : (routesOf args).swapHotkeyVk = (parseKey (args.getOr "swap-key".toList "F12".toList)).getD 0 := by
    cases hm : (args.get "mouse-modifier".toList).bind parseKey <;>
      simp only [hm, Routes.settings, Prod.mk.injEq] at hset <;> exact hset.2.2.2
  rw [hswap, Hotkey, names_iff]
  cases parseKey (args.getOr "swap-key".toList "F12".toList) with
  | none => simp
  | some v =>
    rw [Option.some.injEq, Option.getD_some]
    constructor
    · rintro ⟨rfl, h0⟩
      exact ⟨h0, rfl⟩
    · rintro ⟨h0, rfl⟩
      exact ⟨rfl, h0⟩

/-! ## The rule of an event -/

section Rules
variable {args : Args} {ev : InputEvent} {ks : KeyState}

theorem isKey_of_mouse (h : isMouseButton ev.kind = true ∨ ev.kind = .wheel) : ¬ isKey ev.kind = true := by
  rcases h with h | h
  · rw [isKey_of_isMouseButton h]
    exact Bool.false_ne_true
  · rw [h]
    decide

theorem rule_key (hk : isKey ev.kind = true) (hs : ¬ Hotkey args ev.vk) : rule ev (routesOf args) ks =
    ((routesOf args).find ev.vk).map fun b => (b.targets, b.strategy) := by
  rw [rule, if_pos hk, if_neg fun h => hs (hotkey_iff.2 h.2)]

/-- The mouse gate is open exactly when the options say so. -/
theorem rule_mouse (hk : isMouseButton ev.kind = true ∨ ev.kind = .wheel) :
    (MouseOpen args ks → rule ev (routesOf args) ks = some (kAllTargets, strategyOf args)) ∧
      (¬ MouseOpen args ks → rule ev (routesOf args) ks = none) := by
  have hset := settings_routesOf args
  rw [rule, if_neg (isKey_of_mouse hk), if_pos hk]
  cases hm : (args.get "mouse-modifier".toList).bind parseKey with
  | none =>
    simp only [hm, Routes.settings, Prod.mk.injEq] at hset
    have hclosed : mouseGate (routesOf args) ks = false := by simp [mouseGate, hset.1]
    refine ⟨?_, fun _ => by simp [hclosed]⟩
    rintro ⟨text, vk, ht, hn, -⟩
    rw [ht, Option.bind_some, names_iff.1 hn] at hm
    cases hm
  | some vk =>
    simp only [hm, Routes.settings, Prod.mk.injEq] at hset
    obtain ⟨h1, h2, h3, -⟩ := hset
    obtain ⟨text, ht, hvk⟩ := Option.bind_eq_some_iff.1 hm
    have hgate : mouseGate (routesOf args) ks = true ↔ MouseOpen args ks := by
      have hall : kAllTargets ≠ 0 := by decide
      simp only [mouseGate, h1, h2, hall, ne_eq, not_false_eq_true, decide_true, Bool.true_and, Bool.or_eq_true,
        decide_eq_true_eq]
      constructor
      · exact fun h => ⟨text, vk, ht, names_iff.2 hvk, h⟩
      · rintro ⟨text', vk', ht', hn, h⟩
        cases ht.symm.trans ht'
        obtain rfl := names_inj (names_iff.2 hvk) hn
        exact h
    rw [h1, h3]
    exact ⟨fun h => if_pos (hgate.2 h), fun h => if_neg fun hg => h (hgate.1 hg)⟩

end Rules

/-! ## The plan and the hook -/

/-- What the options promise about an event. -/
structure Obeyed (args : Args) (ev : InputEvent) (alive : TargetMask) (master : Nat) (ks : KeyState) : Prop where
  hotkey : isKey ev.kind = true → Hotkey args ev.vk → (plan ev (routesOf args) alive master ks).actions =
    if ev.kind = .keyDown then [{ kind := .swapMaster }] else []
  listed : isKey ev.kind = true → ¬ Hotkey args ev.vk → Listed args ev.vk →
    (plan ev (routesOf args) alive master ks).actions = toAll args ev alive master ks
  unlisted : isKey ev.kind = true → ¬ Hotkey args ev.vk → ¬ Listed args ev.vk →
    (plan ev (routesOf args) alive master ks).actions = []
  mouse : isMouseButton ev.kind = true ∨ ev.kind = .wheel → MouseOpen args ks →
    (plan ev (routesOf args) alive master ks).actions = toAll args ev alive master ks
  noMouse : isMouseButton ev.kind = true ∨ ev.kind = .wheel → ¬ MouseOpen args ks →
    (plan ev (routesOf args) alive master ks).actions = []
  /-- A mouse move, or an event that is none. -/
  other : ¬ isKey ev.kind = true → ¬ (isMouseButton ev.kind = true ∨ ev.kind = .wheel) →
    (plan ev (routesOf args) alive master ks).actions = []

/-- Under the routes of any command line, the keys on the list go to every live
slave, the mouse does while its modifier is held, and nothing else goes anywhere.
The hotkey swaps, and is the only key that the hook keeps from the master. -/
theorem options_obeyed (args : Args) : (∀ ev alive master ks, Obeyed args ev alive master ks) ∧
    ∀ acceptForeign i, (swallowTable (routesOf args) { acceptForeign }).swallow i = true ↔ Hotkey args (code i) := by
  refine ⟨fun ev alive master ks => ⟨?_, ?_, ?_, ?_, ?_, ?_⟩, ?_⟩
  · intro hk hs
    rw [plan_actions, if_pos ⟨hk, hotkey_iff.1 hs⟩]
  · intro hk hs hl
    rw [plan_actions, if_neg fun h => hs (hotkey_iff.2 h.2), rule_key hk hs, find_routesOf.2 ⟨hl, rfl⟩]
    rfl
  · intro hk hs hl
    have hnone : (routesOf args).find ev.vk = none :=
      Option.eq_none_iff_forall_ne_some.2 fun b hb => hl (find_routesOf.1 hb).1
    rw [plan_actions, if_neg fun h => hs (hotkey_iff.2 h.2), rule_key hk hs, hnone]
    rfl
  · intro hm ho
    rw [plan_actions, if_neg fun h => isKey_of_mouse hm h.1, (rule_mouse hm).1 ho]
    rfl
  · intro hm ho
    rw [plan_actions, if_neg fun h => isKey_of_mouse hm h.1, (rule_mouse hm).2 ho]
    rfl
  · intro hk hm
    have hnone : rule ev (routesOf args) ks = none := by rw [rule, if_neg hk, if_neg hm]
    rw [plan_actions, if_neg fun h => hk h.1, hnone]
    rfl
  · intro acceptForeign i
    -- No binding swallows its key.
    have hkeys : ¬ ∃ b ∈ (routesOf args).keys, b.vk = code i ∧ b.swallow = true := by
      rintro ⟨b, hb, -, hsw⟩
      rw [(find_routesOf.1 (Routes.find_eq_some.2 hb)).2] at hsw
      cases hsw
    rw [swallowTable_swallow, Routes.swallows_iff, or_iff_left hkeys, hotkey_iff]
    constructor
    · rintro ⟨h, h0⟩
      exact ⟨h ▸ h0, h⟩
    · rintro ⟨h0, h⟩
      exact ⟨h, h ▸ h0⟩

end MultiMadness
