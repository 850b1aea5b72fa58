import MultiMadness.RunLib.Fifo
import Mathlib.Data.Nat.Bitwise
/-!
# The single-producer single-consumer ring

`SpscRing` of `spsc_ring.hpp`, one memory access a step, with `w`-bit counters
that wrap. The state also keeps what no code reads (its history): the values
whose push returned true, the values popped, the rejected pushes, and, with
each snapshot of the other side's index, the true occupancy at that moment.

- `moved`: what every step does.
- `inv_step`: what every step keeps.
- `ring_correct`: the ring is a bounded first-in first-out queue in every
  interleaving.
- `ring_refines_fifo`: its runs are runs of the library's bounded queue.
-/

namespace MultiMadness.SpscRing

open RunLib

/-- The assertions on `Capacity`, for a `w`-bit `size_t`. -/
structure Sized (w cap : Nat) : Prop where
  pow : ∃ k, cap = 2 ^ k
  two_le : 2 ≤ cap
  le : cap ≤ 2 ^ (w - 1)

/-- Where the producer is in `push`. `n` is the occupancy when it loaded `tail_`. -/
inductive Producer (T : Type) (w : Nat) where
  | idle
  | loadedHead (v : T) (h : BitVec w)
  | loadedTail (v : T) (h t : BitVec w) (n : Nat)
  | written (v : T) (h : BitVec w)

/-- Where the consumer is in `pop`. `n` is the occupancy when it loaded `head_`. -/
inductive Consumer (T : Type) (w : Nat) where
  | idle
  | loadedTail (t : BitVec w)
  | loadedHead (t h : BitVec w) (n : Nat)
  | read (t : BitVec w) (out : T)

structure State (T : Type) (w : Nat) where
  head : BitVec w
  tail : BitVec w
  dropped : BitVec w
  buf : Nat → T
  prod : Producer T w
  cons : Consumer T w
  pushed : List T
  popped : List T
  rejected : Nat

/-- The atomic steps of `push` and of `pop`. -/
inductive Move (T : Type) where
  | push (v : T)
  | loadTail
  | store
  | publishHead
  | pop
  | loadHead
  | read
  | publishTail

variable {T : Type} {w : Nat}

def State.init [Inhabited T] : State T w :=
  ⟨0, 0, 0, fun _ => default, .idle, .idle, [], [], 0⟩

def kMask (w cap : Nat) : BitVec w := BitVec.ofNat w cap - 1

/-- `buf_[i & kMask]`. -/
def slot (cap : Nat) (i : BitVec w) : Nat := (i &&& kMask w cap).toNat

/-- How many elements the ring holds: pushed and not popped yet. -/
def State.occupancy (s : State T w) : Nat := s.pushed.length - s.popped.length

def step (cap : Nat) (s : State T w) : Move T → Option (State T w)
  | .push v =>
    match s.prod with
    | .idle => some { s with prod := .loadedHead v s.head }
    | _ => none
  | .loadTail =>
    match s.prod with
    | .loadedHead v h => some { s with prod := .loadedTail v h s.tail s.occupancy }
    | _ => none
  | .store =>
    match s.prod with
    | .loadedTail v h t _ =>
      if h - t = BitVec.ofNat w cap then
        some { s with prod := .idle, dropped := s.dropped + 1, rejected := s.rejected + 1 }
      else some { s with prod := .written v h, buf := Function.update s.buf (slot cap h) v }
    | _ => none
  | .publishHead =>
    match s.prod with
    | .written v h => some { s with prod := .idle, head := h + 1, pushed := s.pushed ++ [v] }
    | _ => none
  | .pop =>
    match s.cons with
    | .idle => some { s with cons := .loadedTail s.tail }
    | _ => none
  | .loadHead =>
    match s.cons with
    | .loadedTail t => some { s with cons := .loadedHead t s.head s.occupancy }
    | _ => none
  | .read =>
    match s.cons with
    | .loadedHead t h _ =>
      if h = t then some { s with cons := .idle } else some { s with cons := .read t (s.buf (slot cap t)) }
    | _ => none
  | .publishTail =>
    match s.cons with
    | .read t out => some { s with cons := .idle, tail := t + 1, popped := s.popped ++ [out] }
    | _ => none

/-- The slot the producer is writing: it found room, and has not published yet. -/
def writing (cap : Nat) (s : State T w) : Option Nat :=
  match s.prod with
  | .loadedTail _ h t _ => if h - t = BitVec.ofNat w cap then none else some (slot cap h)
  | .written _ h => some (slot cap h)
  | _ => none

/-- The slot the consumer is reading: it found an element, and has not released it yet. -/
def reading (cap : Nat) (s : State T w) : Option Nat :=
  match s.cons with
  | .loadedHead t h _ => if h = t then none else some (slot cap t)
  | .read t _ => some (slot cap t)
  | _ => none

/-! ## Wrapping counters -/

section Counters
variable {cap : Nat}

theorem Sized.lt (hc : Sized w cap) : cap < 2 ^ w := by
  have h := hc.le
  have h2 := hc.two_le
  have hw : w ≠ 0 := by
    rintro rfl
    simp at h
    omega
  have : 2 ^ (w - 1) < 2 ^ w := Nat.pow_lt_pow_right (by decide) (by omega)
  omega

theorem Sized.dvd (hc : Sized w cap) : cap ∣ 2 ^ w := by
  obtain ⟨k, rfl⟩ := hc.pow
  have h := hc.lt
  exact Nat.pow_dvd_pow 2 (Nat.le_of_lt ((Nat.pow_lt_pow_iff_right (by decide)).1 h))

/-- A counter's slot is its true value modulo the capacity, however often it wrapped. -/
theorem slot_ofNat (hc : Sized w cap) (n : Nat) : slot cap (BitVec.ofNat w n) = n % cap := by
  have hlt := hc.lt
  have hm : (kMask w cap).toNat = cap - 1 := by
    have h2 := hc.two_le
    rw [kMask, BitVec.toNat_sub_of_le]
    · simp [Nat.mod_eq_of_lt hlt, Nat.mod_eq_of_lt (show 1 < 2 ^ w by omega)]
    · simp [BitVec.le_def, Nat.mod_eq_of_lt hlt, Nat.mod_eq_of_lt (show 1 < 2 ^ w by omega)]
      omega
  obtain ⟨k, hk⟩ := hc.pow
  rw [slot, BitVec.toNat_and, hm, BitVec.toNat_ofNat]
  have hd := hc.dvd
  subst hk
  rw [Nat.and_two_pow_sub_one_eq_mod, Nat.mod_mod_of_dvd _ hd]

/-- Every access to `buf_` is in range. -/
theorem slot_lt (hc : Sized w cap) (i : BitVec w) : slot cap i < cap := by
  have h := slot_ofNat hc i.toNat
  rw [BitVec.ofNat_toNat, BitVec.setWidth_eq] at h
  rw [h]
  exact Nat.mod_lt _ (by have := hc.two_le; omega)

theorem ofNat_sub_ofNat {a b : Nat} (h : b ≤ a) : BitVec.ofNat w a - BitVec.ofNat w b = BitVec.ofNat w (a - b) := by
  obtain ⟨d, rfl⟩ := Nat.exists_eq_add_of_le h
  rw [BitVec.ofNat_add, Nat.add_sub_cancel_left, BitVec.add_comm, BitVec.add_sub_cancel]

/-- Counts up to the capacity do not wrap. -/
theorem ofNat_inj (hc : Sized w cap) {a b : Nat} (ha : a ≤ cap) (hb : b ≤ cap) :
    BitVec.ofNat w a = BitVec.ofNat w b ↔ a = b := by
  have hlt := hc.lt
  rw [← BitVec.toNat_inj, BitVec.toNat_ofNat, BitVec.toNat_ofNat, Nat.mod_eq_of_lt (by omega),
    Nat.mod_eq_of_lt (by omega)]

/-- Positions less than a capacity apart have different slots. -/
theorem mod_ne {a b : Nat} (h : b < a) (hlt : a - b < cap) : a % cap ≠ b % cap := by
  intro he
  have := Nat.sub_mod_eq_zero_of_mod_eq he
  rw [Nat.mod_eq_of_lt hlt] at this
  omega

end Counters

/-! ## The invariant -/

/-- The producer's snapshot of `tail_` may be stale, but only behind. -/
def ProducerOk (cap : Nat) (s : State T w) : Prop :=
  match s.prod with
  | .idle => True
  | .loadedHead _ h => h = s.head
  | .loadedTail _ h t n =>
    h = s.head ∧ n ≤ cap ∧ n ≤ s.pushed.length ∧ s.pushed.length - n ≤ s.popped.length ∧
      t = BitVec.ofNat w (s.pushed.length - n)
  | .written v h => h = s.head ∧ s.occupancy < cap ∧ s.buf (s.pushed.length % cap) = v

/-- The consumer's snapshot of `head_` may be stale, but only behind. -/
def ConsumerOk (cap : Nat) (s : State T w) : Prop :=
  match s.cons with
  | .idle => True
  | .loadedTail t => t = s.tail
  | .loadedHead t h n =>
    t = s.tail ∧ n ≤ cap ∧ s.popped.length + n ≤ s.pushed.length ∧ h = BitVec.ofNat w (s.popped.length + n)
  | .read t out => t = s.tail ∧ s.pushed[s.popped.length]? = some out

structure Inv (cap : Nat) (s : State T w) : Prop where
  head : s.head = BitVec.ofNat w s.pushed.length
  tail : s.tail = BitVec.ofNat w s.popped.length
  order : s.popped <+: s.pushed
  bound : s.occupancy ≤ cap
  cells : ∀ i v, s.popped.length ≤ i → s.pushed[i]? = some v → s.buf (i % cap) = v
  drops : s.dropped = BitVec.ofNat w s.rejected
  producer : ProducerOk cap s
  consumer : ConsumerOk cap s

theorem inv_init [Inhabited T] (cap : Nat) : Inv cap (State.init : State T w) where
  head := rfl
  tail := rfl
  order := List.prefix_refl []
  bound := Nat.zero_le _
  cells := by simp [State.init]
  drops := rfl
  producer := trivial
  consumer := trivial

/-- The producer is about to report a full ring only if the ring was full when
it loaded `tail_`. -/
theorem full_iff {cap : Nat} (hc : Sized w cap) {s : State T w} (hi : Inv cap s) {v : T} {h t : BitVec w} {n : Nat}
    (hp : s.prod = .loadedTail v h t n) : h - t = BitVec.ofNat w cap ↔ n = cap := by
  have ok := hi.producer
  simp only [ProducerOk, hp] at ok
  obtain ⟨rfl, hn, hle, -, rfl⟩ := ok
  rw [hi.head, ofNat_sub_ofNat (Nat.sub_le _ _), Nat.sub_sub_self hle, ofNat_inj hc hn (Nat.le_refl _)]

/-- The consumer is about to report an empty ring only if the ring was empty
when it loaded `head_`. -/
theorem empty_iff {cap : Nat} (hc : Sized w cap) {s : State T w} (hi : Inv cap s) {h t : BitVec w} {n : Nat}
    (hp : s.cons = .loadedHead t h n) : h = t ↔ n = 0 := by
  have ok := hi.consumer
  simp only [ConsumerOk, hp] at ok
  obtain ⟨rfl, hn, -, rfl⟩ := ok
  rw [hi.tail, ← ofNat_inj hc hn (Nat.zero_le _), BitVec.ofNat_add]
  constructor
  · intro h
    have := congrArg (fun x => x - BitVec.ofNat w s.popped.length) h
    simpa [BitVec.add_comm, BitVec.add_sub_cancel] using this
  · intro h
    rw [h]; simp

/-! ## Every step keeps it -/

/-- A step, with where its side was and what it leaves. -/
inductive Moved (cap : Nat) (s : State T w) : Move T → State T w → Prop where
  | push (v : T) (hp : s.prod = .idle) : Moved cap s (.push v) { s with prod := .loadedHead v s.head }
  | loadTail (v : T) (h : BitVec w) (hp : s.prod = .loadedHead v h) :
      Moved cap s .loadTail { s with prod := .loadedTail v h s.tail s.occupancy }
  | reject (v : T) (h t : BitVec w) (n : Nat) (hp : s.prod = .loadedTail v h t n) (hf : h - t = BitVec.ofNat w cap) :
      Moved cap s .store { s with prod := .idle, dropped := s.dropped + 1, rejected := s.rejected + 1 }
  | store (v : T) (h t : BitVec w) (n : Nat) (hp : s.prod = .loadedTail v h t n) (hf : h - t ≠ BitVec.ofNat w cap) :
      Moved cap s .store { s with prod := .written v h, buf := Function.update s.buf (slot cap h) v }
  | publishHead (v : T) (h : BitVec w) (hp : s.prod = .written v h) :
      Moved cap s .publishHead { s with prod := .idle, head := h + 1, pushed := s.pushed ++ [v] }
  | pop (hp : s.cons = .idle) : Moved cap s .pop { s with cons := .loadedTail s.tail }
  | loadHead (t : BitVec w) (hp : s.cons = .loadedTail t) :
      Moved cap s .loadHead { s with cons := .loadedHead t s.head s.occupancy }
  | empty (t h : BitVec w) (n : Nat) (hp : s.cons = .loadedHead t h n) (he : h = t) :
      Moved cap s .read { s with cons := .idle }
  | read (t h : BitVec w) (n : Nat) (hp : s.cons = .loadedHead t h n) (he : h ≠ t) :
      Moved cap s .read { s with cons := .read t (s.buf (slot cap t)) }
  | publishTail (t : BitVec w) (out : T) (hp : s.cons = .read t out) :
      Moved cap s .publishTail { s with cons := .idle, tail := t + 1, popped := s.popped ++ [out] }

section Steps
variable {cap : Nat} {s t : State T w}

theorem moved {m : Move T} (h : step cap s m = some t) : Moved cap s m t := by
  cases m with
  | push v =>
    simp only [step] at h
    split at h
    · next hp => cases h; exact .push v hp
    · cases h
  | loadTail =>
    simp only [step] at h
    split at h
    · next v hd hp => cases h; exact .loadTail v hd hp
    · cases h
  | store =>
    simp only [step] at h
    split at h
    · next v hd tl n hp =>
      split at h
      · next hf => cases h; exact .reject v hd tl n hp hf
      · next hf => cases h; exact .store v hd tl n hp hf
    · cases h
  | publishHead =>
    simp only [step] at h
    split at h
    · next v hd hp => cases h; exact .publishHead v hd hp
    · cases h
  | pop =>
    simp only [step] at h
    split at h
    · next hp => cases h; exact .pop hp
    · cases h
  | loadHead =>
    simp only [step] at h
    split at h
    · next tl hp => cases h; exact .loadHead tl hp
    · cases h
  | read =>
    simp only [step] at h
    split at h
    · next tl hd n hp =>
      split at h
      · next he => cases h; exact .empty tl hd n hp he
      · next he => cases h; exact .read tl hd n hp he
    · cases h
  | publishTail =>
    simp only [step] at h
    split at h
    · next tl out hp => cases h; exact .publishTail tl out hp
    · cases h

theorem inv_loadTail (hi : Inv cap s) {v : T} {h : BitVec w} (hp : s.prod = .loadedHead v h) :
    Inv cap { s with prod := .loadedTail v h s.tail s.occupancy } := by
  have ok := hi.producer
  simp only [ProducerOk, hp] at ok
  have hlen := hi.order.length_le
  refine { hi with producer := ⟨ok, hi.bound, Nat.sub_le _ _, ?_, ?_⟩ }
  · simp only [State.occupancy]
    omega
  · rw [hi.tail]
    simp only [State.occupancy]
    congr 1
    omega

/-- The producer found room, so it has room still: the consumer only makes more. -/
theorem room (hc : Sized w cap) (hi : Inv cap s) {v : T} {h t : BitVec w} {n : Nat}
    (hp : s.prod = .loadedTail v h t n) (hf : h - t ≠ BitVec.ofNat w cap) :
    h = s.head ∧ slot cap h = s.pushed.length % cap ∧ s.occupancy < cap := by
  have hfull := full_iff hc hi hp
  have ok := hi.producer
  simp only [ProducerOk, hp] at ok
  obtain ⟨rfl, hn, hle, hpop, -⟩ := ok
  have hlt : n < cap := Nat.lt_of_le_of_ne hn fun e => hf (hfull.2 e)
  refine ⟨rfl, by rw [hi.head, slot_ofNat hc], ?_⟩
  simp only [State.occupancy]
  omega

/-- The consumer found an element, and it is there still: the producer only adds more. -/
theorem element (hc : Sized w cap) (hi : Inv cap s) {t h : BitVec w} {n : Nat} (hp : s.cons = .loadedHead t h n)
    (he : h ≠ t) : t = s.tail ∧ slot cap t = s.popped.length % cap ∧ s.popped.length < s.pushed.length := by
  have hempty := empty_iff hc hi hp
  have ok := hi.consumer
  simp only [ConsumerOk, hp] at ok
  obtain ⟨rfl, -, hle, -⟩ := ok
  have hn : n ≠ 0 := fun e => he (hempty.2 e)
  exact ⟨rfl, by rw [hi.tail, slot_ofNat hc], by omega⟩

theorem inv_reject (hi : Inv cap s) :
    Inv cap { s with prod := .idle, dropped := s.dropped + 1, rejected := s.rejected + 1 } := by
  refine { hi with drops := ?_, producer := trivial }
  show s.dropped + 1 = BitVec.ofNat w (s.rejected + 1)
  rw [hi.drops, BitVec.ofNat_add]
  rfl

theorem inv_store (hc : Sized w cap) (hi : Inv cap s) {v : T} {h t : BitVec w} {n : Nat}
    (hp : s.prod = .loadedTail v h t n) (hf : h - t ≠ BitVec.ofNat w cap) :
    Inv cap { s with prod := .written v h, buf := Function.update s.buf (slot cap h) v } := by
  obtain ⟨hhead, hslot, hocc⟩ := room hc hi hp hf
  rw [hslot]
  refine { hi with cells := ?_, producer := ⟨hhead, hocc, Function.update_self ..⟩, consumer := hi.consumer }
  -- The written slot is a capacity away from none of the live ones.
  intro i x hle hx
  have hix : i < s.pushed.length := (List.getElem?_eq_some_iff.1 hx).1
  change s.popped.length ≤ i at hle
  simp only [State.occupancy] at hocc
  have hne : i % cap ≠ s.pushed.length % cap := (mod_ne hix (by omega)).symm
  dsimp only
  rw [Function.update_of_ne hne]
  exact hi.cells i x hle hx

theorem inv_publishHead (hi : Inv cap s) {v : T} {h : BitVec w} (hp : s.prod = .written v h) :
    Inv cap { s with prod := .idle, head := h + 1, pushed := s.pushed ++ [v] } := by
  have ok := hi.producer
  simp only [ProducerOk, hp] at ok
  obtain ⟨rfl, hocc, hbuf⟩ := ok
  have hlen := hi.order.length_le
  refine { hi with head := ?_, order := ?_, bound := ?_, cells := ?_, producer := trivial, consumer := ?_ }
  · show s.head + 1 = BitVec.ofNat w (s.pushed ++ [v]).length
    rw [hi.head, List.length_append, List.length_singleton, BitVec.ofNat_add]
    rfl
  · exact hi.order.trans (List.prefix_append _ _)
  · simp only [State.occupancy, List.length_append, List.length_singleton] at hocc ⊢
    omega
  · intro i x hle hx
    by_cases hi' : i < s.pushed.length
    · rw [List.getElem?_append_left hi'] at hx
      exact hi.cells i x hle hx
    · -- The new element is in the slot that was written.
      have hi'' : i = s.pushed.length := by
        have := (List.getElem?_eq_some_iff.1 hx).1
        simp at this
        omega
      subst hi''
      simp at hx
      rw [← hx]
      exact hbuf
  · have ok := hi.consumer
    simp only [ConsumerOk] at ok ⊢
    split
    · trivial
    · next hp' => simpa only [hp'] using ok
    · next hp' =>
      simp only [hp'] at ok
      obtain ⟨h1, h2, h3, h4⟩ := ok
      exact ⟨h1, h2, by rw [List.length_append]; omega, h4⟩
    · next hp' =>
      simp only [hp'] at ok
      obtain ⟨h1, h2⟩ := ok
      exact ⟨h1, by rw [List.getElem?_append_left (List.getElem?_eq_some_iff.1 h2).1, h2]⟩

theorem inv_loadHead (hi : Inv cap s) {t : BitVec w} (hp : s.cons = .loadedTail t) :
    Inv cap { s with cons := .loadedHead t s.head s.occupancy } := by
  have ok := hi.consumer
  simp only [ConsumerOk, hp] at ok
  have hlen := hi.order.length_le
  refine { hi with consumer := ⟨ok, hi.bound, ?_, ?_⟩ }
  · simp only [State.occupancy]
    omega
  · rw [hi.head]
    simp only [State.occupancy]
    congr 1
    omega

theorem inv_read (hc : Sized w cap) (hi : Inv cap s) {t h : BitVec w} {n : Nat} (hp : s.cons = .loadedHead t h n)
    (he : h ≠ t) : Inv cap { s with cons := .read t (s.buf (slot cap t)) } := by
  obtain ⟨htail, hslot, hlt⟩ := element hc hi hp he
  have hget : s.pushed[s.popped.length]? = some s.pushed[s.popped.length] := List.getElem?_eq_getElem hlt
  rw [hslot, hi.cells _ _ (Nat.le_refl _) hget]
  exact { hi with consumer := ⟨htail, hget⟩ }

theorem inv_publishTail (hi : Inv cap s) {t : BitVec w} {out : T} (hp : s.cons = .read t out) :
    Inv cap { s with cons := .idle, tail := t + 1, popped := s.popped ++ [out] } := by
  have ok := hi.consumer
  simp only [ConsumerOk, hp] at ok
  obtain ⟨rfl, hout⟩ := ok
  have hlt := (List.getElem?_eq_some_iff.1 hout).1
  obtain ⟨rest, hrest⟩ := hi.order
  refine { hi with tail := ?_, order := ?_, bound := ?_, cells := ?_, producer := ?_, consumer := trivial }
  · show s.tail + 1 = BitVec.ofNat w (s.popped ++ [out]).length
    rw [hi.tail, List.length_append, List.length_singleton, BitVec.ofNat_add]
    rfl
  · -- The popped element is the next one of what was pushed.
    rw [← hrest, List.getElem?_append_right (Nat.le_refl _), Nat.sub_self] at hout
    cases rest with
    | nil => cases hout
    | cons x rest => cases hout; exact ⟨rest, by rw [← hrest]; simp⟩
  · have := hi.bound
    simp only [State.occupancy, List.length_append, List.length_singleton] at this ⊢
    omega
  · intro i x hle hx
    rw [List.length_append] at hle
    exact hi.cells i x (by omega) hx
  · have ok := hi.producer
    simp only [ProducerOk, State.occupancy] at ok ⊢
    split
    · trivial
    · next hp' => simpa only [hp'] using ok
    · next hp' =>
      simp only [hp'] at ok
      obtain ⟨h1, h2, h3, h4, h5⟩ := ok
      exact ⟨h1, h2, h3, by rw [List.length_append]; omega, h5⟩
    · next hp' =>
      simp only [hp'] at ok
      obtain ⟨h1, h2, h3⟩ := ok
      exact ⟨h1, by rw [List.length_append]; omega, h3⟩

/-- Every atomic step of either side keeps the invariant. -/
theorem inv_step (hc : Sized w cap) {m : Move T} (hi : Inv cap s) (h : step cap s m = some t) : Inv cap t := by
  cases moved h with
  | push v hp => exact { hi with producer := rfl }
  | loadTail v h hp => exact inv_loadTail hi hp
  | reject v h t n hp hf => exact inv_reject hi
  | store v h t n hp hf => exact inv_store hc hi hp hf
  | publishHead v h hp => exact inv_publishHead hi hp
  | pop hp => exact { hi with consumer := rfl }
  | loadHead t hp => exact inv_loadHead hi hp
  | empty t h n hp he => exact { hi with consumer := trivial }
  | read t h n hp he => exact inv_read hc hi hp he
  | publishTail t out hp => exact inv_publishTail hi hp

end Steps

/-! ## The ring is a bounded queue -/

/-- What holds of the ring between any two steps. -/
structure BoundedFifo (cap : Nat) (s : State T w) : Prop where
  /-- No loss, duplication or reordering. -/
  order : s.popped <+: s.pushed
  occupancy : s.popped.length ≤ s.pushed.length ∧ s.occupancy ≤ cap
  counters : (s.head - s.tail).toNat = s.occupancy
  noRace : ∀ i, writing cap s = some i → reading cap s ≠ some i
  /-- The step with which `push` returns false, and the occupancy when it loaded `tail_`. -/
  full : ∀ t, step cap s .store = some t → t.prod = .idle → ∃ v h tl, s.prod = .loadedTail v h tl cap
  /-- The same for `pop` and `head_`. -/
  empty : ∀ t, step cap s .read = some t → t.cons = .idle → ∃ tl h, s.cons = .loadedHead tl h 0
  drops : s.dropped = BitVec.ofNat w s.rejected

theorem writing_slot {cap : Nat} (hc : Sized w cap) {s : State T w} (hi : Inv cap s) {i : Nat}
    (h : writing cap s = some i) : i = s.pushed.length % cap ∧ s.occupancy < cap := by
  unfold writing at h
  split at h
  · next v hd tl n hp =>
    split at h
    · cases h
    · next hf =>
      cases h
      exact (room hc hi hp hf).2
  · next v hd hp =>
    have ok := hi.producer
    simp only [ProducerOk, hp] at ok
    obtain ⟨rfl, hocc, -⟩ := ok
    cases h
    exact ⟨by rw [hi.head, slot_ofNat hc], hocc⟩
  · cases h

theorem reading_slot {cap : Nat} (hc : Sized w cap) {s : State T w} (hi : Inv cap s) {i : Nat}
    (h : reading cap s = some i) : i = s.popped.length % cap ∧ s.popped.length < s.pushed.length := by
  unfold reading at h
  split at h
  · next tl hd n hp =>
    split at h
    · cases h
    · next he =>
      cases h
      exact (element hc hi hp he).2
  · next tl out hp =>
    have ok := hi.consumer
    simp only [ConsumerOk, hp] at ok
    obtain ⟨rfl, hout⟩ := ok
    cases h
    exact ⟨by rw [hi.tail, slot_ofNat hc], (List.getElem?_eq_some_iff.1 hout).1⟩
  · cases h

/-- A push that returns false found the ring full. -/
theorem full_of_reject {cap : Nat} (hc : Sized w cap) {s t : State T w} (hi : Inv cap s) (h : step cap s .store = some t)
    (ht : t.prod = .idle) : ∃ v h tl, s.prod = .loadedTail v h tl cap := by
  cases moved h with
  | reject v hd tl n hp hf =>
    obtain rfl := (full_iff hc hi hp).1 hf
    exact ⟨v, hd, tl, hp⟩
  | store v hd tl n hp hf => cases ht

/-- A pop that returns false found the ring empty. -/
theorem empty_of_idle {cap : Nat} (hc : Sized w cap) {s t : State T w} (hi : Inv cap s) (h : step cap s .read = some t)
    (ht : t.cons = .idle) : ∃ tl h, s.cons = .loadedHead tl h 0 := by
  cases moved h with
  | empty tl hd n hp he =>
    obtain rfl := (empty_iff hc hi hp).1 he
    exact ⟨tl, hd, hp⟩
  | read tl hd n hp he => cases ht

theorem inv_boundedFifo {cap : Nat} (hc : Sized w cap) {s : State T w} (hi : Inv cap s) : BoundedFifo cap s where
  order := hi.order
  occupancy := ⟨hi.order.length_le, hi.bound⟩
  counters := by
    have hlt := hc.lt
    have hb := hi.bound
    rw [hi.head, hi.tail, ofNat_sub_ofNat hi.order.length_le, BitVec.toNat_ofNat]
    exact Nat.mod_eq_of_lt (Nat.lt_of_le_of_lt hb hlt)
  noRace i hw hr := by
    obtain ⟨rfl, hocc⟩ := writing_slot hc hi hw
    obtain ⟨he, hlt⟩ := reading_slot hc hi hr
    exact mod_ne hlt hocc he
  full _ := full_of_reject hc hi
  empty _ := empty_of_idle hc hi
  drops := hi.drops

/-- In every interleaving of the steps of one producer and one consumer, of any
length, the ring is a bounded first-in first-out queue. -/
theorem ring_correct [Inhabited T] (cap : Nat) (hc : Sized w cap) (ms : List (Move T)) (s : State T w)
    (h : run (step cap) State.init ms = some s) : BoundedFifo cap s :=
  inv_boundedFifo hc (run_inv (Inv cap) (fun _ _ _ hi => inv_step hc hi) (inv_init cap) h)

/-- One value through a ring of two slots with two-bit counters. -/
theorem ring_correct_once :
    ∃ s : State Nat 2, run (step 2) State.init [.push 7, .loadTail, .store, .publishHead, .pop, .loadHead, .read,
      .publishTail] = some s ∧ s.popped = [7] ∧ BoundedFifo 2 s :=
  ⟨_, rfl, rfl, ring_correct 2 ⟨⟨1, rfl⟩, by decide, by decide⟩
    [.push 7, .loadTail, .store, .publishHead, .pop, .loadHead, .read, .publishTail] _ rfl⟩

/-! ## The ring refines the library's queue -/

/-- A rejected push takes effect when it loads `tail_`, before it is counted. -/
def pendingReject (cap : Nat) (s : State T w) : Nat :=
  match s.prod with
  | .loadedTail _ _ _ n => if n = cap then 1 else 0
  | _ => 0

def abs (cap : Nat) (s : State T w) : FifoHistory T cap where
  queue := ⟨(s.pushed.drop s.popped.length).take cap, List.length_take_le _ _⟩
  accepted := s.pushed
  taken := s.popped
  rejected := s.rejected + pendingReject cap s

/-- The queue steps a ring step takes effect with. -/
def effect (cap : Nat) (s : State T w) : Move T → List (FifoStep T)
  | .publishHead =>
    match s.prod with
    | .written v _ => [.push v]
    | _ => []
  | .loadTail => if s.occupancy = cap then [.reject] else []
  | .publishTail => [.pop]
  | _ => []

theorem abs_items {cap : Nat} {s : State T w} (hi : Inv cap s) :
    (abs cap s).queue.items = s.pushed.drop s.popped.length := by
  have hb := hi.bound
  exact List.take_of_length_le (by rw [List.length_drop]; exact hb)

theorem abs_step {cap : Nat} (hc : Sized w cap) {s t : State T w} {m : Move T} (hi : Inv cap s)
    (h : step cap s m = some t) : run fifoStep (abs cap s) (effect cap s m) = some (abs cap t) := by
  have hitems := abs_items hi
  have hitems' := abs_items (inv_step hc hi h)
  cases moved h with
  | push v hp => simp [effect, abs, pendingReject, hp]
  | loadTail v hd hp =>
    simp only [effect]
    split
    · next hfull =>
      have hlen : (abs cap s).queue.items.length = cap := by rw [hitems, List.length_drop]; exact hfull
      simp only [run_cons, fifoStep, hlen, if_true, Option.bind_some, run_nil]
      simp [abs, pendingReject, hp, hfull]
    · next hfull => simp [abs, pendingReject, hp, hfull]
  | reject v hd tl n hp hf =>
    -- The rejection took effect before; here it is counted.
    simp [effect, abs, pendingReject, hp, (full_iff hc hi hp).1 hf]
  | store v hd tl n hp hf =>
    have hn : n ≠ cap := fun e => hf ((full_iff hc hi hp).2 e)
    simp [effect, abs, pendingReject, hp, hn]
  | publishHead v hd hp =>
    have ok := hi.producer
    simp only [ProducerOk, hp] at ok
    have hok : ((abs cap s).queue.push v).2 = true := by
      rw [Fifo.push_ok, decide_eq_true_eq, hitems, List.length_drop]
      exact ok.2.1
    simp only [effect, hp, run_cons, fifoStep, hok, if_true, Option.bind_some, run_nil, Option.some.injEq]
    have hq : ((abs cap s).queue.push v).1 = (abs cap
        { s with prod := .idle, head := hd + 1, pushed := s.pushed ++ [v] }).queue := by
      apply Fifo.ext
      rw [Fifo.push_items, if_pos hok, hitems, hitems', List.drop_append_of_le_length hi.order.length_le]
    rw [hq]
    simp [abs, pendingReject, hp]
  | pop hp => rfl
  | loadHead tl hp => rfl
  | empty tl hd n hp he => rfl
  | read tl hd n hp he => rfl
  | publishTail tl out hp =>
    have ok := hi.consumer
    simp only [ConsumerOk, hp] at ok
    obtain ⟨hlt, hout⟩ := List.getElem?_eq_some_iff.1 ok.2
    have hpop : (abs cap s).queue.pop = some (out, (abs cap
        { s with cons := .idle, tail := tl + 1, popped := s.popped ++ [out] }).queue) := by
      rw [Fifo.pop_eq_some, hitems, hitems', List.length_append, List.length_singleton,
        List.drop_eq_getElem_cons hlt, hout]
    simp only [effect, run_cons, fifoStep, hpop, Option.bind_some, run_nil]
    rfl

/-- Every run of the ring is a run of the bounded queue with the same history. -/
theorem ring_refines_fifo [Inhabited T] (cap : Nat) (hc : Sized w cap) (ms : List (Move T)) (s : State T w)
    (h : run (step cap) State.init ms = some s) :
    ∃ qs, run fifoStep (FifoHistory.init : FifoHistory T cap) qs = some (abs cap s) := by
  have h0 : abs cap (State.init : State T w) = FifoHistory.init := by
    simp only [abs, State.init, pendingReject, FifoHistory.init]
    congr 1
    exact Fifo.ext (by simp)
  rw [← h0]
  exact run_simulates (Inv cap) (abs cap) (effect cap) (fun _ _ _ hi => inv_step hc hi)
    (fun _ _ _ hi => abs_step hc hi) (inv_init cap) h

/-- What was pushed is what was popped, followed by what the queue holds. -/
theorem ring_contents [Inhabited T] (cap : Nat) (hc : Sized w cap) (ms : List (Move T)) (s : State T w)
    (h : run (step cap) State.init ms = some s) : s.pushed = s.popped ++ (abs cap s).queue.items := by
  obtain ⟨qs, hqs⟩ := ring_refines_fifo cap hc ms s h
  exact history_split hqs

end MultiMadness.SpscRing
