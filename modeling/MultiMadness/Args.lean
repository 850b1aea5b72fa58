import Mathlib.Data.List.Basic
/-!
# The command line

`Args` of `args.hpp`. An option takes the next token as its value unless that
one starts with `--`, so what a token means depends on its neighbours. A token
is the list of its characters.

- `Renders`: the ways to write a list of items as tokens.
- `args_roundtrip`: the constructor gives the items back.
-/

namespace MultiMadness

abbrev Token := List Char

structure Args where
  kv : List (Token × Token) := []
  positional : List Token := []
deriving DecidableEq

/-- `substr(0, 2) == "--"`. -/
def dashes (t : Token) : Bool := t.take 2 = ['-', '-']

namespace Args

/-- The loop of the constructor over the tokens that are left. -/
def scan : List Token → Args → Args
  | [], args => args
  | a :: rest, args =>
    if a.length > 2 ∧ dashes a then
      let key := a.drop 2
      match key.idxOf? '=' with
      | some eq => scan rest { args with kv := args.kv ++ [(key.take eq, key.drop (eq + 1))] }
      | none =>
        match rest with
        | [] => { args with kv := args.kv ++ [(key, [])] }
        | b :: rest' =>
          if ¬ dashes b then scan rest' { args with kv := args.kv ++ [(key, b)] }
          else scan (b :: rest') { args with kv := args.kv ++ [(key, [])] }
    else scan rest { args with positional := args.positional ++ [a] }

/-- `Args(argc, argv, first)`. -/
def ofArgv (argv : List Token) (first : Nat) : Args := scan (argv.drop first) {}

def has (args : Args) (key : Token) : Bool := args.kv.any fun p => p.1 = key

def get (args : Args) (key : Token) : Option Token := (args.kv.find? fun p => p.1 = key).map (·.2)

def all (args : Args) (key : Token) : List Token := (args.kv.filter fun p => p.1 = key).map (·.2)

end Args

/-! ## Items and their renderings -/

inductive Item where
  | option (k v : Token)
  | positional (p : Token)
deriving DecidableEq

/-- The options of a list of items, in order. -/
def options : List Item → List (Token × Token) := List.filterMap fun
  | .option k v => some (k, v)
  | .positional _ => none

def positionals : List Item → List Token := List.filterMap fun
  | .option _ _ => none
  | .positional p => some p

/-- The values given for a key, in order. -/
def values (key : Token) : List Item → List Token := List.filterMap fun
  | .option k v => if k = key then some v else none
  | .positional _ => none

/-- A key one can write. -/
structure KeyOk (k : Token) : Prop where
  nonempty : k ≠ []
  noEq : '=' ∉ k

/-- `toks` writes the items, each in one of its ways. -/
inductive Renders : List Item → List Token → Prop where
  | nil : Renders [] []
  | joined (k v : Token) {items toks} (hk : KeyOk k) (h : Renders items toks) :
      Renders (.option k v :: items) (('-' :: '-' :: (k ++ '=' :: v)) :: toks)
  | pair (k v : Token) {items toks} (hk : KeyOk k) (hv : dashes v = false) (h : Renders items toks) :
      Renders (.option k v :: items) (('-' :: '-' :: k) :: v :: toks)
  | flag (k : Token) {items toks} (hk : KeyOk k) (hn : ∀ t ∈ toks.head?, dashes t = true) (h : Renders items toks) :
      Renders (.option k [] :: items) (('-' :: '-' :: k) :: toks)
  | positional (p : Token) {items toks} (hp : ¬ (p.length > 2 ∧ dashes p)) (h : Renders items toks) :
      Renders (.positional p :: items) (p :: toks)

namespace Args

/-! ## One item -/

theorem option_token {k : Token} (hk : KeyOk k) (v : Token) :
    ('-' :: '-' :: (k ++ v)).length > 2 ∧ dashes ('-' :: '-' :: (k ++ v)) := by
  have hlen := List.length_pos_iff.2 hk.nonempty
  refine ⟨?_, rfl⟩
  simp only [List.length_cons, List.length_append]
  omega

/-- A character that `k` does not have is found after it. -/
theorem idxOf_split {c : Char} {k : Token} (hk : c ∉ k) (v : Token) : (k ++ c :: v).idxOf? c = some k.length := by
  rw [List.idxOf?_eq_some_iff]
  refine ⟨by simp, by simp, ?_⟩
  intro j hj heq
  rw [List.getElem_append_left hj] at heq
  exact hk (heq ▸ List.getElem_mem hj)

theorem drop_split (k : Token) (c : Char) (v : Token) : (k ++ c :: v).drop (k.length + 1) = v := by
  rw [← List.drop_drop, List.drop_left]
  rfl

/-- The first `=` is the one after the key. -/
theorem idxOf_eq {k : Token} (hk : KeyOk k) (v : Token) : (k ++ '=' :: v).idxOf? '=' = some k.length :=
  idxOf_split hk.noEq v

theorem idxOf_none {k : Token} (hk : KeyOk k) : k.idxOf? '=' = none := List.idxOf?_eq_none_iff.2 hk.noEq

theorem scan_joined {k : Token} (hk : KeyOk k) (v : Token) (toks : List Token) (args : Args) :
    scan (('-' :: '-' :: (k ++ '=' :: v)) :: toks) args = scan toks { args with kv := args.kv ++ [(k, v)] } := by
  have hdrop : ('-' :: '-' :: (k ++ '=' :: v)).drop 2 = k ++ '=' :: v := rfl
  rw [scan, if_pos (option_token hk ('=' :: v)), hdrop]
  simp only [idxOf_eq hk v, List.take_left, drop_split]

/-- An option without `=`. -/
theorem scan_bare {k : Token} (hk : KeyOk k) (toks : List Token) (args : Args) :
    scan (('-' :: '-' :: k) :: toks) args =
      match toks with
      | [] => { args with kv := args.kv ++ [(k, [])] }
      | b :: rest =>
        if ¬ dashes b then scan rest { args with kv := args.kv ++ [(k, b)] }
        else scan (b :: rest) { args with kv := args.kv ++ [(k, [])] } := by
  have htok := option_token hk []
  rw [List.append_nil] at htok
  have hdrop : ('-' :: '-' :: k).drop 2 = k := rfl
  rw [scan, if_pos htok, hdrop]
  simp only [idxOf_none hk]

theorem scan_pair {k v : Token} (hk : KeyOk k) (hv : dashes v = false) (toks : List Token) (args : Args) :
    scan (('-' :: '-' :: k) :: v :: toks) args = scan toks { args with kv := args.kv ++ [(k, v)] } := by
  rw [scan_bare hk]
  simp only [hv, Bool.false_eq_true, not_false_eq_true, if_true]

theorem scan_flag {k : Token} (hk : KeyOk k) {toks : List Token} (hn : ∀ t ∈ toks.head?, dashes t = true) (args : Args) :
    scan (('-' :: '-' :: k) :: toks) args = scan toks { args with kv := args.kv ++ [(k, [])] } := by
  rw [scan_bare hk]
  cases toks with
  | nil => rfl
  | cons b rest =>
    have hb : dashes b = true := hn b rfl
    simp only [hb, not_true_eq_false, if_false]

theorem scan_positional {p : Token} (hp : ¬ (p.length > 2 ∧ dashes p)) (toks : List Token) (args : Args) :
    scan (p :: toks) args = scan toks { args with positional := args.positional ++ [p] } := by
  rw [scan, if_neg hp]

/-! ## All items -/

theorem scan_renders {items : List Item} {toks : List Token} (h : Renders items toks) (args : Args) :
    scan toks args =
      { kv := args.kv ++ options items, positional := args.positional ++ positionals items } := by
  induction h generalizing args with
  | nil => simp [scan, options, positionals]
  | joined k v hk h ih => rw [scan_joined hk, ih]; simp [options, positionals]
  | pair k v hk hv h ih => rw [scan_pair hk hv, ih]; simp [options, positionals]
  | flag k hk hn h ih => rw [scan_flag hk hn, ih]; simp [options, positionals]
  | positional p hp h ih => rw [scan_positional hp, ih]; simp [options, positionals]

theorem values_options (key : Token) (items : List Item) :
    ((options items).filter fun p => p.1 = key).map (·.2) = values key items := by
  induction items with
  | nil => rfl
  | cons item items ih =>
    cases item with
    | option k v =>
      by_cases hk : k = key <;> simpa [options, values, List.filter_cons, hk] using ih
    | positional p => exact ih

theorem has_eq_all (args : Args) (key : Token) : args.has key = !(args.all key).isEmpty := by
  rw [has, all, List.isEmpty_map]
  induction args.kv with
  | nil => rfl
  | cons p kv ih =>
    rw [List.any_cons, List.filter_cons, ih]
    by_cases hk : p.1 = key <;> simp [hk]

theorem get_eq_head (args : Args) (key : Token) : args.get key = (args.all key).head? := by
  rw [get, all, List.head?_map, List.head?_filter]

/-- Whatever comes before `first`, the constructor gives back the items: `all`
the values of a key in order, `get` the first of them, and `has` whether there
are any. -/
theorem args_roundtrip (before : List Token) {items : List Item} {toks : List Token} (h : Renders items toks) :
    let args := ofArgv (before ++ toks) before.length
    args.kv = options items ∧ args.positional = positionals items ∧
      (∀ key, args.all key = values key items) ∧ (∀ key, args.get key = (values key items).head?) ∧
      ∀ key, args.has key = !(values key items).isEmpty := by
  intro args
  have hscan : args = { kv := options items, positional := positionals items } := by
    have h := scan_renders h {}
    rw [List.nil_append, List.nil_append] at h
    have hdrop : (before ++ toks).drop before.length = toks := List.drop_left
    exact (congrArg (scan · {}) hdrop).trans h
  have hall : ∀ key, args.all key = values key items := by
    intro key
    rw [hscan]
    exact values_options key items
  refine ⟨by rw [hscan], by rw [hscan], hall, ?_, ?_⟩
  · intro key
    rw [get_eq_head, hall]
  · intro key
    rw [has_eq_all, hall]

def mixedItems : List Item := [.option "keys".toList "W=A|S".toList, .option "n".toList "-1".toList,
  .option "borderless".toList [], .positional "--".toList, .positional []]

def mixedTokens : List Token := ["--keys=W=A|S".toList, "--n".toList, "-1".toList, "--borderless".toList, "--".toList, []]

/-- One item in each of the ways to write it. -/
theorem args_roundtrip_mixed :
    let args := ofArgv (["mm_core".toList] ++ mixedTokens) ["mm_core".toList].length
    args.kv = options mixedItems ∧ args.positional = positionals mixedItems ∧
      (∀ key, args.all key = values key mixedItems) ∧ (∀ key, args.get key = (values key mixedItems).head?) ∧
      ∀ key, args.has key = !(values key mixedItems).isEmpty :=
  args_roundtrip ["mm_core".toList]
    (.joined "keys".toList "W=A|S".toList ⟨by decide, by decide⟩
      (.pair "n".toList "-1".toList ⟨by decide, by decide⟩ (by decide)
        (.flag "borderless".toList ⟨by decide, by decide⟩ (by decide)
          (.positional "--".toList (by decide) (.positional [] (by decide) .nil)))))

end Args

end MultiMadness
