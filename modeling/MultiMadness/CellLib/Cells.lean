import Mathlib.Data.List.Basic
/-!
# Cells written through a key

A store has something under some of its keys. A write changes what is under its
key, and does nothing where there is nothing.

- `pokes_other`, `isSome_pokes`: what a list of writes leaves alone.
- `pokes_last`: where a write covers what an earlier one left, the last write for
  a key is the one that counts.
- `pokes_mem`: with one write a key, each of them counts.
-/

namespace CellLib

variable {K V W : Type} [DecidableEq K]

def poke (upd : W → V → V) (s : K → Option V) (w : K × W) : K → Option V :=
  fun k => if k = w.1 then (s k).map (upd w.2) else s k

def pokes (upd : W → V → V) (s : K → Option V) (ws : List (K × W)) : K → Option V := ws.foldl (poke upd) s

/-- A write covers whatever an earlier one left. -/
def Covers (upd : W → V → V) : Prop := ∀ w w' v, upd w (upd w' v) = upd w v

section Writes
variable {upd : W → V → V} {s : K → Option V} {k : K}

theorem poke_same (w : W) : poke upd s (k, w) k = (s k).map (upd w) := if_pos rfl

theorem poke_other {w : K × W} (h : w.1 ≠ k) : poke upd s w k = s k := if_neg (Ne.symm h)

theorem pokes_append (ws vs : List (K × W)) : pokes upd s (ws ++ vs) = pokes upd (pokes upd s ws) vs :=
  List.foldl_append

theorem pokes_other {ws : List (K × W)} (h : k ∉ ws.map Prod.fst) : pokes upd s ws k = s k := by
  induction ws generalizing s with
  | nil => rfl
  | cons w ws ih =>
    rw [List.map_cons, List.mem_cons, not_or] at h
    exact (ih h.2).trans (poke_other (Ne.symm h.1))

theorem isSome_poke (w : K × W) : (poke upd s w k).isSome = (s k).isSome := by
  unfold poke
  split
  · exact Option.isSome_map
  · rfl

theorem isSome_pokes (ws : List (K × W)) : (pokes upd s ws k).isSome = (s k).isSome := by
  induction ws generalizing s with
  | nil => rfl
  | cons w ws ih => exact ih.trans (isSome_poke w)

/-- Where a write covers the earlier ones, the last write for a key counts. -/
theorem pokes_last (hupd : Covers upd) {ws vs : List (K × W)} {w : W} (h : k ∉ vs.map Prod.fst) :
    pokes upd s (ws ++ (k, w) :: vs) k = (s k).map (upd w) := by
  have hcover : ∀ (us : List (K × W)) (r : K → Option V), (pokes upd r us k).map (upd w) = (r k).map (upd w) := by
    intro us
    induction us with
    | nil => intro r; rfl
    | cons u us ih =>
      intro r
      refine (ih (poke upd r u)).trans ?_
      unfold poke
      split
      · rw [Option.map_map]
        exact Option.map_congr fun v _ => hupd w u.2 v
      · rfl
  calc pokes upd s (ws ++ (k, w) :: vs) k
      = pokes upd (poke upd (pokes upd s ws) (k, w)) vs k := by rw [pokes_append]; rfl
    _ = poke upd (pokes upd s ws) (k, w) k := pokes_other h
    _ = (pokes upd s ws k).map (upd w) := poke_same w
    _ = (s k).map (upd w) := hcover ws s

/-- With one write a key, each of them is what its key ends with. -/
theorem pokes_mem {ws : List (K × W)} (hn : (ws.map Prod.fst).Nodup) {w : W} (h : (k, w) ∈ ws) :
    pokes upd s ws k = (s k).map (upd w) := by
  induction ws generalizing s with
  | nil => cases h
  | cons u ws ih =>
    rw [List.map_cons, List.nodup_cons] at hn
    obtain rfl | h := List.mem_cons.1 h
    · exact (pokes_other hn.1).trans (poke_same w)
    · have hne : u.1 ≠ k := fun he => hn.1 (he ▸ List.mem_map_of_mem h)
      exact (ih hn.2 h).trans (congrArg _ (poke_other hne))

end Writes

end CellLib
