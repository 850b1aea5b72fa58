import MultiMadness.SpscRing
/-!
# The size of the ring

`SpscRing::size` loads `head_` and then `tail_`, and the two sides go on in
between, except the one whose thread is asking.

- `observed_inv`: what the head loaded first says about the ring later on.
- `size_in_range`: asked on the producer's or the consumer's thread the size is
  at most the capacity; asked elsewhere it is unless the consumer overtook the
  head that was loaded.
- `third_thread_wraps`: then it wraps around.
-/

namespace MultiMadness.SpscRing

open RunLib

/-- The thread `size` runs on. -/
inductive Observer where
  | producer
  | consumer
  | third
deriving DecidableEq

/-- Where `size` is. `pushed` is what no code reads: the pushes done when it
loaded `head_`. -/
inductive SizeCall (w : Nat) where
  | idle
  | loadedHead (h : BitVec w) (pushed : Nat)

/-- An answer of `size`, with the pushes done at its first load and the pops done
at its second. -/
structure Answer (w : Nat) where
  size : BitVec w
  pushed : Nat
  popped : Nat

/-- `empty`. -/
def Answer.empty {w : Nat} (a : Answer w) : Bool := a.size = 0

structure Observed (T : Type) (w : Nat) where
  ring : State T w
  call : SizeCall w
  answers : List (Answer w)

inductive ObservedMove (T : Type) where
  | ring (m : Move T)
  | sizeHead
  | sizeTail

def Move.ofProducer {T : Type} : Move T → Bool
  | .push _ | .loadTail | .store | .publishHead => true
  | .pop | .loadHead | .read | .publishTail => false

variable {T : Type} {w : Nat}

def Observed.init [Inhabited T] : Observed T w := ⟨State.init, .idle, []⟩

/-- The observer's thread is in neither `push` nor `pop`. -/
def atRest (who : Observer) (s : State T w) : Bool :=
  match who, s.prod, s.cons with
  | .producer, .idle, _ | .consumer, _, .idle | .third, _, _ => true
  | _, _, _ => false

/-- The move is one of the observer's own thread. -/
def ownMove (who : Observer) (m : Move T) : Bool :=
  match who with
  | .producer => m.ofProducer
  | .consumer => !m.ofProducer
  | .third => false

/-- The steps of the ring and of one observer, which calls `size` again and
again; its thread does nothing else during a call. -/
def observe (who : Observer) (cap : Nat) (s : Observed T w) : ObservedMove T → Option (Observed T w)
  | .ring m =>
    match s.call with
    | .idle => (step cap s.ring m).map fun r => { s with ring := r }
    | .loadedHead _ _ => if ownMove who m then none else (step cap s.ring m).map fun r => { s with ring := r }
  | .sizeHead =>
    match s.call with
    | .idle => if atRest who s.ring then some { s with call := .loadedHead s.ring.head s.ring.pushed.length } else none
    | .loadedHead _ _ => none
  | .sizeTail =>
    match s.call with
    | .idle => none
    | .loadedHead h n =>
      some { s with call := .idle, answers := s.answers ++ [⟨h - s.ring.tail, n, s.ring.popped.length⟩] }

/-! ## What a step of the ring does to the two counts -/

section Counts
variable {cap : Nat} {s t : State T w}

theorem counts_mono {m : Move T} (h : step cap s m = some t) :
    s.pushed.length ≤ t.pushed.length ∧ s.popped.length ≤ t.popped.length := by
  cases moved h with
  | publishHead v h hp => exact ⟨by simp, Nat.le_refl _⟩
  | publishTail t out hp => exact ⟨Nat.le_refl _, by simp⟩
  | _ => exact ⟨Nat.le_refl _, Nat.le_refl _⟩

/-- Only the producer pushes. -/
theorem pushed_eq {m : Move T} (hm : m.ofProducer = false) (h : step cap s m = some t) : t.pushed = s.pushed := by
  cases moved h with
  | publishHead v h hp => cases hm
  | _ => rfl

/-- Only the consumer pops. -/
theorem popped_eq {m : Move T} (hm : m.ofProducer = true) (h : step cap s m = some t) : t.popped = s.popped := by
  cases moved h with
  | publishTail t out hp => cases hm
  | _ => rfl

end Counts

/-! ## The invariant -/

/-- `n` pushes had been done when `size` loaded `head_`. -/
structure Loaded (who : Observer) (cap : Nat) (s : State T w) (h : BitVec w) (n : Nat) : Prop where
  value : h = BitVec.ofNat w n
  le : n ≤ s.pushed.length
  near : n ≤ s.popped.length + cap
  producer : who = .producer → n = s.pushed.length
  consumer : who = .consumer → s.popped.length ≤ n

structure AnswerOk (who : Observer) (cap : Nat) (a : Answer w) : Prop where
  value : a.size = BitVec.ofNat w a.pushed - BitVec.ofNat w a.popped
  near : a.pushed ≤ a.popped + cap
  own : who ≠ .third → a.popped ≤ a.pushed

def CallOk (who : Observer) (cap : Nat) (s : Observed T w) : Prop :=
  match s.call with
  | .idle => True
  | .loadedHead h n => Loaded who cap s.ring h n

structure ObservedInv (who : Observer) (cap : Nat) (s : Observed T w) : Prop where
  ring : Inv cap s.ring
  call : CallOk who cap s
  answers : ∀ a ∈ s.answers, AnswerOk who cap a

section Steps
variable {who : Observer} {cap : Nat}

theorem loaded_head {s : State T w} (hi : Inv cap s) : Loaded who cap s s.head s.pushed.length := by
  have hlen := hi.order.length_le
  have hb := hi.bound
  simp only [State.occupancy] at hb
  exact ⟨hi.head, Nat.le_refl _, by omega, fun _ => rfl, fun _ => hlen⟩

/-- The other side's steps leave what was loaded true. -/
theorem loaded_step {s t : State T w} {m : Move T} {h : BitVec w} {n : Nat} (hl : Loaded who cap s h n)
    (hm : ownMove who m = false) (hst : step cap s m = some t) : Loaded who cap t h n := by
  obtain ⟨hpush, hpop⟩ := counts_mono hst
  obtain ⟨hv, hle, hnear, hprod, hcons⟩ := hl
  refine ⟨hv, by omega, by omega, ?_, ?_⟩
  · rintro rfl
    rw [pushed_eq hm hst]
    exact hprod rfl
  · rintro rfl
    rw [popped_eq (by simpa [ownMove] using hm) hst]
    exact hcons rfl

theorem answer_tail {s : State T w} (hi : Inv cap s) {h : BitVec w} {n : Nat} (hl : Loaded who cap s h n) :
    AnswerOk who cap ⟨h - s.tail, n, s.popped.length⟩ := by
  refine ⟨by rw [hl.value, hi.tail], hl.near, ?_⟩
  intro hw
  have hlen := hi.order.length_le
  cases who with
  | producer => exact (hl.producer rfl).symm ▸ hlen
  | consumer => exact hl.consumer rfl
  | third => exact absurd rfl hw

theorem observed_inv (hc : Sized w cap) (s : Observed T w) (m : ObservedMove T) (t : Observed T w)
    (hi : ObservedInv who cap s) (h : observe who cap s m = some t) : ObservedInv who cap t := by
  obtain ⟨hr, hcall, ha⟩ := hi
  cases m with
  | ring m =>
    simp only [observe] at h
    split at h
    · next hidle =>
      obtain ⟨r, hr', rfl⟩ := Option.map_eq_some_iff.1 h
      exact ⟨inv_step hc hr hr', by simp only [CallOk, hidle], ha⟩
    · next hd n hloaded =>
      simp only [CallOk, hloaded] at hcall
      split at h
      · cases h
      · next hown =>
        obtain ⟨r, hr', rfl⟩ := Option.map_eq_some_iff.1 h
        refine ⟨inv_step hc hr hr', ?_, ha⟩
        simp only [CallOk, hloaded]
        exact loaded_step hcall (Bool.eq_false_iff.2 hown) hr'
  | sizeHead =>
    simp only [observe] at h
    split at h
    · split at h
      · cases h; exact ⟨hr, loaded_head hr, ha⟩
      · cases h
    · cases h
  | sizeTail =>
    simp only [observe] at h
    split at h
    · cases h
    · next hd n hloaded =>
      simp only [CallOk, hloaded] at hcall
      cases h
      refine ⟨hr, trivial, ?_⟩
      intro a hm
      rcases List.mem_append.1 hm with hm | hm
      · exact ha a hm
      · rw [List.mem_singleton.1 hm]
        exact answer_tail hr hcall

/-! ## The answers -/

/-- What an answer of `size` says. -/
structure Meaningful (who : Observer) (cap : Nat) (a : Answer w) : Prop where
  own : who ≠ .third → a.size.toNat ≤ cap
  behind : a.popped ≤ a.pushed → a.size.toNat = a.pushed - a.popped ∧ a.size.toNat ≤ cap
  empty : a.popped ≤ a.pushed → (a.empty = true ↔ a.pushed = a.popped)
  overtaken : a.pushed < a.popped → a.popped - a.pushed < 2 ^ w - cap → cap < a.size.toNat

theorem meaningful (hc : Sized w cap) {a : Answer w} (h : AnswerOk who cap a) : Meaningful who cap a := by
  have hlt := hc.lt
  obtain ⟨hv, hnear, hown⟩ := h
  have hbehind : a.popped ≤ a.pushed → a.size.toNat = a.pushed - a.popped ∧ a.size.toNat ≤ cap := by
    intro hle
    rw [hv, ofNat_sub_ofNat hle, BitVec.toNat_ofNat, Nat.mod_eq_of_lt (by omega)]
    omega
  refine ⟨fun hw => (hbehind (hown hw)).2, hbehind, ?_, ?_⟩
  · intro hle
    have hsize := (hbehind hle).1
    have hzero : (0 : BitVec w).toNat = 0 := BitVec.toNat_zero
    rw [Answer.empty, decide_eq_true_eq, ← BitVec.toNat_inj, hsize, hzero]
    omega
  intro hgt hfew
  -- The difference is negative, and not by so much that it comes round to the range again.
  have hneg : a.size = -(BitVec.ofNat w (a.popped - a.pushed)) := by
    rw [hv, ← ofNat_sub_ofNat (Nat.le_of_lt hgt), BitVec.neg_sub, BitVec.sub_eq_add_neg, BitVec.add_comm]
  have hd : (BitVec.ofNat w (a.popped - a.pushed)).toNat = a.popped - a.pushed := by
    rw [BitVec.toNat_ofNat, Nat.mod_eq_of_lt (by omega)]
  rw [hneg, BitVec.toNat_neg, hd, Nat.mod_eq_of_lt (by omega)]
  omega

/-- In every interleaving with the ring's steps, of any length, `size` answers at
most the capacity on the threads of the ring. Elsewhere it does unless more was
popped by its second load than pushed by its first. -/
theorem size_in_range [Inhabited T] (who : Observer) (cap : Nat) (hc : Sized w cap) (ms : List (ObservedMove T))
    (s : Observed T w) (h : run (observe who cap) Observed.init ms = some s) :
    ∀ a ∈ s.answers, Meaningful who cap a := by
  have h0 : ObservedInv who cap (Observed.init : Observed T w) :=
    ⟨inv_init cap, trivial, fun a ha => absurd ha List.not_mem_nil⟩
  have hi : ObservedInv who cap s := run_inv (ObservedInv who cap) (observed_inv hc) h0 h
  exact fun a ha => meaningful hc (hi.answers a ha)

end Steps

def pushOne : List (Move Nat) := [.push 7, .loadTail, .store, .publishHead]
def popOne : List (Move Nat) := [.pop, .loadHead, .read, .publishTail]

/-- Asked by the producer while the consumer pops. -/
theorem size_in_range_producer : ∃ s : Observed Nat 2,
    run (observe .producer 2) Observed.init (pushOne.map .ring ++ [.sizeHead] ++ popOne.map .ring ++ [.sizeTail]) = some s ∧
      ∀ a ∈ s.answers, Meaningful .producer 2 a :=
  ⟨_, rfl, size_in_range .producer 2 ⟨⟨1, rfl⟩, by decide, by decide⟩
    (pushOne.map .ring ++ [.sizeHead] ++ popOne.map .ring ++ [.sizeTail]) _ rfl⟩

/-- Asked by a third thread, which loads the head of an empty ring before an
element goes through it. -/
theorem third_thread_wraps : ∃ s : Observed Nat 64,
    run (observe .third 4096) Observed.init
      ([.sizeHead] ++ pushOne.map .ring ++ popOne.map .ring ++ [.sizeTail]) = some s ∧
      ∃ a ∈ s.answers, a.size.toNat = 2 ^ 64 - 1 ∧ ¬ a.size.toNat ≤ 4096 :=
  ⟨_, rfl, _, List.mem_singleton_self _, by decide⟩

end MultiMadness.SpscRing
