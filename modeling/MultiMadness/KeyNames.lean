import MultiMadness.Bindings
import MultiMadness.Capture
import MultiMadness.NumeralLib.Numeral
/-!
# Key names

`key_names.hpp`: `parse_key` tries a single letter or digit, a hexadecimal code,
a function key and the table of names, in this order. A malformed code is final;
a malformed function key still goes to the table. A string is the list of its
characters.

- `KeyText`: the grammar, class by class.
- `parse_exact`: what `parse_key` accepts, and the way back through `key_name`.
-/

namespace MultiMadness

open KeyState NumeralLib

/-- `detail::NamedKey`. -/
structure NamedKey where
  name : String
  vk : UInt16
deriving DecidableEq

def kNamedKeys : List NamedKey := [
  ⟨"LBUTTON", 0x01⟩, ⟨"RBUTTON", 0x02⟩, ⟨"MBUTTON", 0x04⟩, ⟨"XBUTTON1", 0x05⟩, ⟨"XBUTTON2", 0x06⟩,
  ⟨"BACKSPACE", 0x08⟩, ⟨"TAB", 0x09⟩, ⟨"ENTER", 0x0D⟩, ⟨"RETURN", 0x0D⟩,
  ⟨"SHIFT", 0x10⟩, ⟨"CTRL", 0x11⟩, ⟨"CONTROL", 0x11⟩, ⟨"ALT", 0x12⟩, ⟨"MENU", 0x12⟩,
  ⟨"PAUSE", 0x13⟩, ⟨"CAPSLOCK", 0x14⟩, ⟨"ESC", 0x1B⟩, ⟨"ESCAPE", 0x1B⟩, ⟨"SPACE", 0x20⟩,
  ⟨"PAGEUP", 0x21⟩, ⟨"PAGEDOWN", 0x22⟩, ⟨"END", 0x23⟩, ⟨"HOME", 0x24⟩,
  ⟨"LEFT", 0x25⟩, ⟨"UP", 0x26⟩, ⟨"RIGHT", 0x27⟩, ⟨"DOWN", 0x28⟩,
  ⟨"INSERT", 0x2D⟩, ⟨"DELETE", 0x2E⟩,
  ⟨"LWIN", 0x5B⟩, ⟨"RWIN", 0x5C⟩,
  ⟨"NUMPAD0", 0x60⟩, ⟨"NUMPAD1", 0x61⟩, ⟨"NUMPAD2", 0x62⟩, ⟨"NUMPAD3", 0x63⟩, ⟨"NUMPAD4", 0x64⟩,
  ⟨"NUMPAD5", 0x65⟩, ⟨"NUMPAD6", 0x66⟩, ⟨"NUMPAD7", 0x67⟩, ⟨"NUMPAD8", 0x68⟩, ⟨"NUMPAD9", 0x69⟩,
  ⟨"MULTIPLY", 0x6A⟩, ⟨"ADD", 0x6B⟩, ⟨"SUBTRACT", 0x6D⟩, ⟨"DECIMAL", 0x6E⟩, ⟨"DIVIDE", 0x6F⟩,
  ⟨"NUMLOCK", 0x90⟩, ⟨"SCROLLLOCK", 0x91⟩,
  ⟨"LSHIFT", 0xA0⟩, ⟨"RSHIFT", 0xA1⟩, ⟨"LCTRL", 0xA2⟩, ⟨"RCTRL", 0xA3⟩, ⟨"LALT", 0xA4⟩, ⟨"RALT", 0xA5⟩,
  ⟨"SEMICOLON", 0xBA⟩, ⟨"EQUALS", 0xBB⟩, ⟨"COMMA", 0xBC⟩, ⟨"MINUS", 0xBD⟩, ⟨"PERIOD", 0xBE⟩,
  ⟨"SLASH", 0xBF⟩, ⟨"GRAVE", 0xC0⟩, ⟨"TILDE", 0xC0⟩, ⟨"LBRACKET", 0xDB⟩, ⟨"BACKSLASH", 0xDC⟩,
  ⟨"RBRACKET", 0xDD⟩, ⟨"QUOTE", 0xDE⟩]

/-- `detail::upper`; the C locale knows the letters `a` to `z`. -/
def upper (s : List Char) : List Char := s.map Char.toUpper

/-- The digit of the hexadecimal loop, as `uint32_t`. -/
def hexDigit (c : Char) : Option UInt32 :=
  if '0' ≤ c ∧ c ≤ '9' then some (c.val - '0'.val)
  else if 'A' ≤ c ∧ c ≤ 'F' then some (c.val - 'A'.val + 10)
  else none

/-- The hexadecimal loop over the characters that are left. -/
def hexLoop : List Char → UInt32 → Option UInt32
  | [], v => some v
  | c :: cs, v =>
    match hexDigit c with
    | none => none
    | some d => if v * 16 + d > 0xFF then none else hexLoop cs (v * 16 + d)

/-- The loop over the number of a function key; -1 for anything but digits. -/
def functionLoop : List Char → Int → Int
  | [], n => n
  | c :: cs, n => if c < '0' ∨ '9' < c then -1 else functionLoop cs (n * 10 + (c.toNat - '0'.toNat))

/-- `parse_key` after the conversion. -/
def parseUpper (s : List Char) : Option UInt16 :=
  if s.length = 1 then
    s[0]?.bind fun c => if 'A' ≤ c ∧ c ≤ 'Z' ∨ '0' ≤ c ∧ c ≤ '9' then some (UInt16.ofNat c.toNat) else none
  else if s.length > 2 ∧ s[0]? = some '0' ∧ s[1]? = some 'X' then (hexLoop (s.drop 2) 0).map (·.toUInt16)
  else
    let n := if s[0]? = some 'F' ∧ s.length ≤ 3 then functionLoop (s.drop 1) 0 else 0
    if 1 ≤ n ∧ n ≤ 24 then some (UInt16.ofInt (0x70 + n - 1))
    else (kNamedKeys.find? fun k => k.name.toList = s).map (·.vk)

def parseKey (text : List Char) : Option UInt16 := if text.isEmpty then none else parseUpper (upper text)

/-- `%02X`. -/
def hex02 (n : Nat) : List Char :=
  let digits := (Nat.toDigits 16 n).map Char.toUpper
  List.replicate (2 - digits.length) '0' ++ digits

def keyName (vk : UInt16) : List Char :=
  if 0x41 ≤ vk ∧ vk ≤ 0x5A ∨ 0x30 ≤ vk ∧ vk ≤ 0x39 then [Char.ofNat vk.toNat]
  else if 0x70 ≤ vk ∧ vk ≤ 0x87 then 'F' :: Nat.toDigits 10 (vk.toNat - 0x70 + 1)
  else
    match kNamedKeys.find? (·.vk = vk) with
    | some k => k.name.toList
    | none => '0' :: 'x' :: hex02 vk.toNat

/-! ## The grammar -/

def digitChars : List Char := "0123456789ABCDEF".toList

/-- The digits of base `b`, by their place. -/
def digit (b : Nat) (c : Char) : Option Nat := (digitChars.take b).idxOf? c

/-- The texts of key codes, in upper case. -/
inductive KeyText : List Char → UInt16 → Prop where
  | single (c : Char) (h : 'A' ≤ c ∧ c ≤ 'Z' ∨ '0' ≤ c ∧ c ≤ '9') : KeyText [c] (UInt16.ofNat c.toNat)
  | hex (cs : List Char) (n : Nat) (hne : cs ≠ []) (hd : Denotes (digit 16) 16 cs n) (hn : n ≤ 0xFF) :
      KeyText ('0' :: 'X' :: cs) (UInt16.ofNat n)
  | function (cs : List Char) (n : Nat) (hlen : cs.length = 1 ∨ cs.length = 2) (hd : Denotes (digit 10) 10 cs n)
      (hn : 1 ≤ n ∧ n ≤ 24) : KeyText ('F' :: cs) (UInt16.ofNat (0x6F + n))
  | name (k : NamedKey) (hk : k ∈ kNamedKeys) : KeyText k.name.toList k.vk

/-! ## Digits -/

/-- A character in a range, by its code. -/
theorem range_codes {lo hi c : Char} (h : lo ≤ c ∧ c ≤ hi) :
    lo.toNat ≤ c.toNat ∧ c.toNat ≤ hi.toNat ∧ Char.ofNat c.toNat = c :=
  ⟨UInt32.le_iff_toNat_le.1 h.1, UInt32.le_iff_toNat_le.1 h.2, c.ofNat_toNat⟩

/-- A property of the characters of a list, by evaluation. -/
theorem of_all (p : Char → Prop) [DecidablePred p] {cs : List Char} (h : cs.all (fun c => decide (p c)) = true)
    {c : Char} (hc : c ∈ cs) : p c :=
  of_decide_eq_true (List.all_eq_true.1 h c hc)

theorem mem_decimal {c : Char} : c ∈ digitChars.take 10 ↔ '0' ≤ c ∧ c ≤ '9' := by
  have hcodes : ∀ n < 58, 48 ≤ n → Char.ofNat n ∈ digitChars.take 10 := by decide
  constructor
  · exact of_all (fun c => '0' ≤ c ∧ c ≤ '9') (by decide)
  · intro h
    obtain ⟨hlo, hhi, hc⟩ := range_codes h
    exact hc ▸ hcodes c.toNat (Nat.lt_succ_of_le hhi) hlo

theorem mem_digitChars {c : Char} : c ∈ digitChars ↔ ('0' ≤ c ∧ c ≤ '9') ∨ ('A' ≤ c ∧ c ≤ 'F') := by
  have hcodes : ∀ n < 71, 65 ≤ n → Char.ofNat n ∈ digitChars := by decide
  constructor
  · exact of_all (fun c => ('0' ≤ c ∧ c ≤ '9') ∨ ('A' ≤ c ∧ c ≤ 'F')) (by decide)
  · rintro (h | h)
    · exact List.mem_of_mem_take (mem_decimal.2 h)
    · obtain ⟨hlo, hhi, hc⟩ := range_codes h
      exact hc ▸ hcodes c.toNat (Nat.lt_succ_of_le hhi) hlo

theorem digit_eq_none {b : Nat} {c : Char} : digit b c = none ↔ c ∉ digitChars.take b := List.idxOf?_eq_none_iff

theorem digit_lt {b d : Nat} {c : Char} (h : digit b c = some d) : d < b := by
  obtain ⟨hlt, -⟩ := List.idxOf?_eq_some_iff.1 h
  exact hlt.trans_le (List.length_take_le b digitChars)

/-- The digit of the hexadecimal loop is the place of the character. -/
theorem hexDigit_digit (c : Char) : (hexDigit c).map UInt32.toNat = digit 16 c := by
  by_cases h : c ∈ digitChars
  · exact of_all (fun c => (hexDigit c).map UInt32.toNat = digit 16 c) (by decide) h
  · have hd : digit 16 c = none := digit_eq_none.2 h
    rw [mem_digitChars, not_or] at h
    rw [hd, hexDigit, if_neg h.1, if_neg h.2]
    rfl

theorem decimal_digit {c : Char} (h : '0' ≤ c ∧ c ≤ '9') : digit 10 c = some (c.toNat - '0'.toNat) :=
  of_all (fun c => digit 10 c = some (c.toNat - '0'.toNat)) (by decide) (mem_decimal.2 h)

/-! ## The two loops -/

/-- The accumulator is at most 0xFF before a step, so the step does not wrap. -/
theorem hexStep_toNat {v d : UInt32} (hv : v.toNat ≤ 0xFF) (hd : d.toNat < 16) :
    (v * 16 + d).toNat = v.toNat * 16 + d.toNat := by
  rw [UInt32.toNat_add, UInt32.toNat_mul]
  simp only [UInt32.reduceToNat]
  omega

theorem hexLoop_eq (cs : List Char) (v : UInt32) (hv : v.toNat ≤ 0xFF) :
    (hexLoop cs v).map UInt32.toNat = readUpTo (digit 16) 16 0xFF cs v.toNat := by
  induction cs generalizing v with
  | nil => rfl
  | cons c cs ih =>
    have hc := hexDigit_digit c
    rw [hexLoop, readUpTo, ← hc]
    cases hd : hexDigit c with
    | none => rfl
    | some d =>
      rw [hd] at hc
      have hstep := hexStep_toNat hv (digit_lt hc.symm)
      have hgt : v * 16 + d > 0xFF ↔ 0xFF < v.toNat * 16 + d.toNat := by
        rw [gt_iff_lt, UInt32.lt_iff_toNat_lt, hstep]
        rfl
      simp only [Option.map_some, Option.bind_some, hgt]
      split
      · rfl
      · next hle => rw [ih _ (by omega), hstep]

theorem functionLoop_iff {cs : List Char} {v w : Nat} :
    functionLoop cs v = (w : Int) ↔ Reads (digit 10) 10 v cs w := by
  induction cs generalizing v with
  | nil =>
    rw [functionLoop, reads_nil, Int.natCast_inj]
    exact eq_comm
  | cons c cs ih =>
    rw [functionLoop, reads_cons]
    by_cases hc : '0' ≤ c ∧ c ≤ '9'
    · have hn : ¬ (c < '0' ∨ '9' < c) := by
        rintro (h | h)
        · exact absurd hc.1 (Char.not_le.2 h)
        · exact absurd hc.2 (Char.not_le.2 h)
      have hlo := (range_codes hc).1
      have hcast : (v : Int) * 10 + ((c.toNat : Int) - ('0'.toNat : Int)) = ((v * 10 + (c.toNat - '0'.toNat) : Nat) : Int) := by
        omega
      rw [if_neg hn, hcast, ih, decimal_digit hc]
      simp
    · have hn : c < '0' ∨ '9' < c := by
        rw [not_and_or, Char.not_le, Char.not_le] at hc
        exact hc
      have hnone : digit 10 c = none := digit_eq_none.2 (mem_decimal.not.2 hc)
      rw [if_pos hn, hnone]
      simp

/-! ## The classes -/

theorem parseUpper_single (c : Char) :
    parseUpper [c] = if 'A' ≤ c ∧ c ≤ 'Z' ∨ '0' ≤ c ∧ c ≤ '9' then some (UInt16.ofNat c.toNat) else none := rfl

theorem parseUpper_hex {cs : List Char} (h : cs ≠ []) :
    parseUpper ('0' :: 'X' :: cs) = (hexLoop cs 0).map (·.toUInt16) := by
  have hlen := List.length_pos_iff.2 h
  have h2 : ('0' :: 'X' :: cs).length > 2 ∧ ('0' :: 'X' :: cs)[0]? = some '0' ∧ ('0' :: 'X' :: cs)[1]? = some 'X' :=
    ⟨by simp only [List.length_cons]; omega, rfl, rfl⟩
  rw [parseUpper, if_neg (by simp only [List.length_cons]; omega), if_pos h2]
  rfl

/-- What is neither a single character nor a hexadecimal code. -/
structure Plain (s : List Char) : Prop where
  length : s.length ≠ 1
  noHex : ¬ (s.length > 2 ∧ s[0]? = some '0' ∧ s[1]? = some 'X')

/-- The number of a function key, or one that is in no range. -/
def functionNumber (s : List Char) : Int := if s[0]? = some 'F' ∧ s.length ≤ 3 then functionLoop (s.drop 1) 0 else 0

def named (s : List Char) : Option UInt16 := (kNamedKeys.find? fun k => k.name.toList = s).map (·.vk)

theorem parseUpper_plain {s : List Char} (h : Plain s) :
    parseUpper s =
      if 1 ≤ functionNumber s ∧ functionNumber s ≤ 24 then some (UInt16.ofInt (0x70 + functionNumber s - 1)) else named s := by
  rw [parseUpper, if_neg h.length, if_neg h.noHex]
  rfl

theorem hexText_iff {cs : List Char} {v : UInt16} :
    (hexLoop cs 0).map (·.toUInt16) = some v ↔
      ∃ n, Denotes (digit 16) 16 cs n ∧ n ≤ 0xFF ∧ v = UInt16.ofNat n := by
  have hiff : ∀ n, (hexLoop cs 0).map UInt32.toNat = some n ↔ Denotes (digit 16) 16 cs n ∧ n ≤ 0xFF := by
    intro n
    rw [hexLoop_eq cs 0 (Nat.zero_le _), ← reads_zero]
    exact readUpTo_iff (by decide) (Nat.zero_le _)
  constructor
  · intro h
    obtain ⟨u, hu, rfl⟩ := Option.map_eq_some_iff.1 h
    obtain ⟨hd, hn⟩ := (hiff u.toNat).1 (by rw [hu]; rfl)
    exact ⟨u.toNat, hd, hn, by simp⟩
  · rintro ⟨n, hd, hn, rfl⟩
    obtain ⟨u, hu, rfl⟩ := Option.map_eq_some_iff.1 ((hiff n).2 ⟨hd, hn⟩)
    rw [hu, Option.map_some]
    simp

theorem functionText_iff {s : List Char} (hlen : s.length ≠ 1) {n : Nat} (hn : 1 ≤ n) :
    functionNumber s = n ↔
      ∃ cs, s = 'F' :: cs ∧ (cs.length = 1 ∨ cs.length = 2) ∧ Denotes (digit 10) 10 cs n := by
  unfold functionNumber
  constructor
  · intro h
    split at h
    · next hf =>
      cases s with
      | nil => cases hf.1
      | cons c cs =>
        simp only [List.length_cons, List.getElem?_cons_zero, Option.some.injEq] at hlen hf
        obtain ⟨rfl, hle⟩ := hf
        refine ⟨cs, rfl, by omega, reads_zero.1 (functionLoop_iff.1 h)⟩
    · omega
  · rintro ⟨cs, rfl, hcs, hd⟩
    rw [if_pos ⟨rfl, by simp only [List.length_cons]; omega⟩]
    exact functionLoop_iff.2 (reads_zero.2 hd)

theorem function_code {n : Nat} (hn : n ≤ 24) : UInt16.ofInt (0x70 + (n : Int) - 1) = UInt16.ofNat (0x6F + n) :=
  congrArg UInt16.ofNat (by omega)

/-- The names are none of the other classes, and no two are equal. -/
theorem named_keys : ∀ k ∈ kNamedKeys, k.name.toList.length ≠ 1 ∧ k.name.toList[0]? ≠ some '0' ∧
    k.name.toList[0]? ≠ some 'F' ∧ named k.name.toList = some k.vk := by
  decide +kernel

theorem keyText_of_named {s : List Char} {v : UInt16} (h : named s = some v) : KeyText s v := by
  obtain ⟨k, hk, rfl⟩ := Option.map_eq_some_iff.1 h
  have hname : k.name.toList = s := by simpa using List.find?_some hk
  exact hname ▸ .name k (List.mem_of_find?_eq_some hk)

/-- A plain text is a function key or a name, and it cannot be both. -/
theorem plain_iff {s : List Char} (h : Plain s) {v : UInt16} : parseUpper s = some v ↔ KeyText s v := by
  rw [parseUpper_plain h]
  constructor
  · intro hp
    split at hp
    · next hn =>
      obtain ⟨n, hfn⟩ := Int.eq_ofNat_of_zero_le (show 0 ≤ functionNumber s by omega)
      have hn' : 1 ≤ n ∧ n ≤ 24 := by omega
      obtain ⟨cs, rfl, hlen, hd⟩ := (functionText_iff h.length hn'.1).1 hfn
      rw [hfn, function_code hn'.2] at hp
      cases hp
      exact .function cs n hlen hd hn'
    · exact keyText_of_named hp
  · intro hk
    cases hk with
    | single c hc => exact absurd rfl h.length
    | hex cs n hne hd hn =>
      have hlen := List.length_pos_iff.2 hne
      exact absurd ⟨by simp only [List.length_cons]; omega, rfl, rfl⟩ h.noHex
    | function cs n hlen hd hn =>
      have hfn : functionNumber ('F' :: cs) = n := (functionText_iff h.length hn.1).2 ⟨cs, rfl, hlen, hd⟩
      rw [hfn, if_pos (by omega), function_code hn.2]
    | name k hk =>
      obtain ⟨-, -, hF, hnamed⟩ := named_keys k hk
      have hfn : functionNumber k.name.toList = 0 := if_neg fun hc => hF hc.1
      rw [hfn, if_neg (by omega), hnamed]

theorem single_iff {c : Char} {v : UInt16} : parseUpper [c] = some v ↔ KeyText [c] v := by
  rw [parseUpper_single]
  constructor
  · intro h
    split at h
    · next hc => cases h; exact .single c hc
    · cases h
  · intro hk
    generalize hs : [c] = s at hk
    cases hk with
    | single d hd => cases hs; rw [if_pos hd]
    | hex cs n hne hd hn => cases hs
    | function cs n hlen hd hn => cases hs; simp at hlen
    | name k hk => exact absurd (hs ▸ rfl) (named_keys k hk).1

theorem hex_iff {cs : List Char} (hne : cs ≠ []) {v : UInt16} :
    parseUpper ('0' :: 'X' :: cs) = some v ↔ KeyText ('0' :: 'X' :: cs) v := by
  rw [parseUpper_hex hne, hexText_iff]
  constructor
  · rintro ⟨n, hd, hn, rfl⟩
    exact .hex cs n hne hd hn
  · intro hk
    generalize hs : '0' :: 'X' :: cs = s at hk
    cases hk with
    | single d hd => cases hs
    | hex cs' n hne' hd hn => cases hs; exact ⟨n, hd, hn, rfl⟩
    | function cs' n hlen hd hn => cases hs
    | name k hk => exact absurd (hs ▸ rfl) (named_keys k hk).2.1

theorem parseUpper_iff (s : List Char) (v : UInt16) : parseUpper s = some v ↔ KeyText s v := by
  by_cases hlen : s.length = 1
  · obtain ⟨c, rfl⟩ := List.length_eq_one_iff.1 hlen
    exact single_iff
  · by_cases hx : s.length > 2 ∧ s[0]? = some '0' ∧ s[1]? = some 'X'
    · match s, hx with
      | a :: b :: cs, ⟨hl, ha, hb⟩ =>
        obtain rfl : a = '0' := Option.some.inj ha
        obtain rfl : b = 'X' := Option.some.inj hb
        refine hex_iff ?_
        rintro rfl
        exact absurd hl (by decide)
    · exact plain_iff ⟨hlen, hx⟩

theorem parseKey_iff (t : List Char) (v : UInt16) : parseKey t = some v ↔ KeyText (upper t) v := by
  rw [← parseUpper_iff, parseKey]
  cases t with
  | nil =>
    have hnone : parseUpper (upper []) = none := by decide
    rw [hnone]
    rfl
  | cons c t => rfl

/-! ## What is accepted -/

/-- The codes accepted have a place in every table of key codes. -/
theorem keyText_le {s : List Char} {v : UInt16} (h : KeyText s v) : v ≤ 0xFF := by
  have hnames : ∀ k ∈ kNamedKeys, k.vk ≤ 0xFF := by decide
  have hcode : ∀ n ≤ 0xFF, UInt16.ofNat n ≤ 0xFF := by
    intro n hn
    rw [UInt16.ofNat_le_iff (Nat.lt_of_le_of_lt hn (by decide))]
    exact hn
  cases h with
  | single c hc =>
    refine hcode _ ?_
    rcases hc with hc | hc
    · exact (range_codes hc).2.1.trans (by decide)
    · exact (range_codes hc).2.1.trans (by decide)
  | hex cs n hne hd hn => exact hcode n hn
  | function cs n hlen hd hn => exact hcode _ (by omega)
  | name k hk => exact hnames k hk

theorem slot_of_le {v : UInt16} (h : v ≤ 0xFF) : ∃ i, slot v = some i :=
  Option.isSome_iff_exists.1 ((isSome_slot v).trans (decide_eq_true (UInt16.lt_of_le_of_lt h (by decide))))

/-- No table drops the code. -/
structure Kept (v : UInt16) : Prop where
  range : v ≤ 0xFF
  addKey : ∀ (r : Routes) (b : KeyBinding), b.vk = v → (r.addKey b).find v = some b
  setSwallow : ∀ (c : Capture) (on : Bool), ∃ i, v = code i ∧ (c.setSwallow v on).swallow i = on
  keyState : ∀ (ks : KeyState) (scan flags : UInt16), (ks.apply .keyDown v scan flags).1.isDown v = true

theorem kept {v : UInt16} (h : v ≤ 0xFF) : Kept v := by
  obtain ⟨i, hi⟩ := slot_of_le h
  have hv := slot_eq_some.1 hi
  refine ⟨h, ?_, ?_, ?_⟩
  · rintro r b rfl
    rw [Routes.find_eq_lookup, Routes.addKey_keys, hi]
    simp only [Option.isSome_some, if_true, MapLib.lookup_put]
  · intro c on
    refine ⟨i, hv, ?_⟩
    rw [Capture.setSwallow, hi]
    exact Function.update_self i on c.swallow
  · intro ks scan flags
    rw [hv, isDown_code]
    unfold KeyState.apply
    rw [slot_code]
    dsimp only
    split
    · next hd => exact hd
    · simp

/-- The accumulator, wherever the loop is, takes the next digit without wrapping. -/
theorem hexLoop_step {pre post : List Char} {c : Char} {v d : UInt32} (hv : hexLoop pre 0 = some v)
    (hd : hexDigit c = some d) :
    (v * 16 + d).toNat = v.toNat * 16 + d.toNat ∧
      hexLoop (pre ++ c :: post) 0 = if v * 16 + d > 0xFF then none else hexLoop post (v * 16 + d) := by
  have happend : ∀ (cs : List Char) (u : UInt32), hexLoop (cs ++ c :: post) u = (hexLoop cs u).bind (hexLoop (c :: post)) := by
    intro cs
    induction cs with
    | nil => exact fun _ => rfl
    | cons e cs ih =>
      intro u
      rw [List.cons_append, hexLoop, hexLoop]
      cases hexDigit e with
      | none => rfl
      | some k =>
        dsimp only
        split
        · rfl
        · exact ih _
  constructor
  · have hread := hexLoop_eq pre 0 (Nat.zero_le _)
    rw [hv, Option.map_some] at hread
    have hle := ((readUpTo_iff (by decide) (Nat.zero_le _)).1 hread.symm).2
    have hdigit := hexDigit_digit c
    rw [hd] at hdigit
    exact hexStep_toNat hle (digit_lt hdigit.symm)
  · rw [happend, hv, Option.bind_some, hexLoop, hd]

/-! ## The way back -/

theorem upper_name {k : NamedKey} (hk : k ∈ kNamedKeys) : upper k.name.toList = k.name.toList := by
  have hall : ∀ k ∈ kNamedKeys, upper k.name.toList = k.name.toList := by decide +kernel
  exact hall k hk

/-- The code of a letter or a digit, in upper case already. -/
theorem single_code {n : Nat} (h : 0x41 ≤ n ∧ n ≤ 0x5A ∨ 0x30 ≤ n ∧ n ≤ 0x39) :
    (Char.ofNat n).toUpper = Char.ofNat n ∧ (Char.ofNat n).toNat = n ∧
      ('A' ≤ Char.ofNat n ∧ Char.ofNat n ≤ 'Z' ∨ '0' ≤ Char.ofNat n ∧ Char.ofNat n ≤ '9') := by
  have hcodes : ∀ n < 0x5B, (0x41 ≤ n ∧ n ≤ 0x5A ∨ 0x30 ≤ n ∧ n ≤ 0x39) → (Char.ofNat n).toUpper = Char.ofNat n ∧
      (Char.ofNat n).toNat = n ∧
      ('A' ≤ Char.ofNat n ∧ Char.ofNat n ≤ 'Z' ∨ '0' ≤ Char.ofNat n ∧ Char.ofNat n ≤ '9') := by
    decide +kernel
  exact hcodes n (by omega) h

/-- What `%02X` writes denotes the number. -/
theorem hex02_denotes (n : Nat) : Denotes (digit 16) 16 (upper (hex02 n)) n := by
  have hdigits : Denotes (digit 16) 16 ((Nat.toDigits 16 n).map (Char.toUpper ∘ Char.toUpper)) n :=
    denotes_toDigits (by decide) (by decide) n
  rw [hex02, upper, List.map_append, List.map_replicate, List.map_map]
  exact hdigits.zeros (by decide) _

theorem hex02_ne_nil (n : Nat) : upper (hex02 n) ≠ [] := by
  simp [upper, hex02]

/-- A function key from 1 to 24 has one digit or two. -/
theorem function_denotes {n : Nat} (hn : n ≤ 24) :
    ((upper (Nat.toDigits 10 n)).length = 1 ∨ (upper (Nat.toDigits 10 n)).length = 2) ∧
      Denotes (digit 10) 10 (upper (Nat.toDigits 10 n)) n := by
  refine ⟨?_, denotes_toDigits (by decide) (by decide) n⟩
  have hpos : 0 < (Nat.toDigits 10 n).length := Nat.length_toDigits_pos
  have hle : (Nat.toDigits 10 n).length ≤ 2 := (Nat.length_toDigits_le_iff (by decide) (by decide)).2 (by omega)
  rw [upper, List.length_map]
  omega

/-- The name of a code is one of its texts. -/
theorem keyText_keyName {v : UInt16} (h : v ≤ 0xFF) : KeyText (upper (keyName v)) v := by
  have hv : UInt16.ofNat v.toNat = v := UInt16.ofNat_toNat
  have hle : v.toNat ≤ 0xFF := UInt16.le_iff_toNat_le.1 h
  unfold keyName
  split
  · next hc =>
    simp only [UInt16.le_iff_toNat_le] at hc
    obtain ⟨hup, hcode, hrange⟩ := single_code hc
    have hk := KeyText.single _ hrange
    rw [hcode, hv] at hk
    rwa [upper, List.map_singleton, hup]
  · split
    · next hf =>
      simp only [UInt16.le_iff_toNat_le, UInt16.reduceToNat] at hf
      obtain ⟨hlen, hd⟩ := function_denotes (n := v.toNat - 0x70 + 1) (by omega)
      have hcode : 0x6F + (v.toNat - 0x70 + 1) = v.toNat := by omega
      have hk := KeyText.function _ _ hlen hd (by omega)
      rwa [hcode, hv] at hk
    · split
      · next k hk =>
        obtain rfl : k.vk = v := by simpa using List.find?_some hk
        have hmem := List.mem_of_find?_eq_some hk
        rw [upper_name hmem]
        exact .name k hmem
      · have hk := KeyText.hex _ _ (hex02_ne_nil v.toNat) (hex02_denotes v.toNat) hle
        rwa [hv] at hk

theorem parseKey_keyName {v : UInt16} (h : v ≤ 0xFF) : parseKey (keyName v) = some v :=
  (parseKey_iff _ v).2 (keyText_keyName h)

/-- What `parse_key` does with a text. -/
structure ParseExact (t : List Char) : Prop where
  grammar : ∀ v, parseKey t = some v ↔ KeyText (upper t) v
  unambiguous : ∀ v w, KeyText (upper t) v → KeyText (upper t) w → v = w
  caseless : ∀ t', upper t' = upper t → parseKey t' = parseKey t
  kept : ∀ v, parseKey t = some v → Kept v
  roundtrip : ∀ v, parseKey t = some v → parseKey (keyName v) = some v
  -- `v` is the accumulator when the loop is at `c`.
  noWrap : ∀ pre c post v d, (upper t).drop 2 = pre ++ c :: post → hexLoop pre 0 = some v → hexDigit c = some d →
    (v * 16 + d).toNat = v.toNat * 16 + d.toNat ∧
      hexLoop ((upper t).drop 2) 0 = if v * 16 + d > 0xFF then none else hexLoop post (v * 16 + d)

theorem parse_exact (t : List Char) : ParseExact t := by
  have hle : ∀ v, parseKey t = some v → v ≤ 0xFF := fun v hv => keyText_le ((parseKey_iff t v).1 hv)
  refine ⟨parseKey_iff t, ?_, ?_, fun v hv => kept (hle v hv), ?_, ?_⟩
  · intro v w hv hw
    rw [← parseUpper_iff] at hv hw
    exact Option.some.inj (hv.symm.trans hw)
  · intro t' ht
    ext v
    rw [parseKey_iff, parseKey_iff, ht]
  · intro v hv
    exact parseKey_keyName (hle v hv)
  · intro pre c post v d ht hv hd
    rw [ht]
    exact hexLoop_step hv hd

example : ["w", "f12", "0x0020", "0x1FF", "F25"].map (fun t => parseKey t.toList) =
    [some 0x57, some 0x7B, some 0x20, none, none] := by decide +kernel

end MultiMadness
