import Mathlib.Tactic.Common
import OfdmBurst.Block.PreambleInserter

/-!
# What an inserter makes of symbols

An inserter is a function of its symbols. It drops those before the first one that starts a burst,
puts the preamble in front of every symbol that does, and passes on the others. `emissions` says so
by recursion on the symbols, and knows neither phases nor room.

The walk of the program has phases, because it may have to stop at any place and go on from there.
`ahead` reads the reference from the middle, as for a cutter: it says what is still to come in a
phase with some symbols left. A walk then emits the front of what is ahead and leaves the rest
ahead, whatever symbols come later.

## Main definitions

* `opened`, `emissions` — the reference
* `ahead` — the part of it that is still to come in a phase

## Main results

* `advance_whole` — what was emitted, and what is ahead behind it
* `advance_rest`, `advance_stops` — what is left, and why a walk ends
-/

namespace OfdmBurst

namespace PreambleInserter

variable {α τ : Type} (preamble : List (List α)) (source : String)

/-- The preamble from its symbol `n` on, for the burst that starts with `s`. -/
def opened (s : Slot α τ) (n : Nat) : List (Emission α τ) :=
  (preamble.zipIdx.drop n).map fun p => announced source s p.2 p.1

/-- **The reference.** What is emitted for symbols, before the first burst or behind its start. -/
def emissions (started : Bool) : List (Slot α τ) → List (Emission α τ)
  | [] => []
  | s :: rest =>
    if s.starts then opened preamble source s 0 ++ passed s :: emissions true rest
    else if started then passed s :: emissions true rest
    else emissions false rest

/-- What is still to come in a phase, for the symbols that are left. -/
def ahead (phase : Phase) (slots : List (Slot α τ)) : List (Emission α τ) :=
  match phase, slots with
  | .idle, slots => emissions preamble source false slots
  | .payload, slots => emissions preamble source true slots
  | .preamble n, s :: rest =>
    opened preamble source s n ++ passed s :: emissions preamble source true rest
  | .firstPayload, s :: rest => passed s :: emissions preamble source true rest
  | .preamble _, [] | .firstPayload, [] => []

variable {preamble source}

theorem opened_of_none {n : Nat} (h : preamble[n]? = none) (s : Slot α τ) :
    opened preamble source s n = [] := by
  rw [opened, List.drop_eq_nil_of_le, List.map_nil]
  rw [List.length_zipIdx]
  exact List.getElem?_eq_none_iff.1 h

theorem opened_of_some {n : Nat} {symbol : List α} (h : preamble[n]? = some symbol) (s : Slot α τ) :
    opened preamble source s n =
      announced source s n symbol :: opened preamble source s (n + 1) := by
  obtain ⟨hn, rfl⟩ := List.getElem?_eq_some_iff.1 h
  rw [opened, List.drop_eq_getElem_cons (by rw [List.length_zipIdx]; exact hn), List.map_cons,
    List.getElem_zipIdx, Nat.zero_add]
  rfl

/-- Nothing is ahead of an inserter without symbols. -/
theorem ahead_nil (phase : Phase) :
    ahead preamble source phase [] = ([] : List (Emission α τ)) := by
  cases phase <;> rfl

/-! ### The walk -/

/-- The symbols that are left are the last ones. -/
theorem advance_rest (preamble : List (List α)) (source : String) (phase : Phase)
    (slots : List (Slot α τ)) (room : Nat) :
    (advance preamble source phase slots room).rest <:+ slots := by
  fun_induction advance preamble source phase slots room with
  | case1 => exact List.suffix_refl _
  | case2 => exact List.suffix_refl _
  | case3 s rest room hstarts ih => exact ih
  | case4 s rest room hstarts ih => exact ih.trans (List.suffix_cons s rest)
  | case5 s rest room n hnone ih => exact ih
  | case6 s rest room n symbol hsome ih => exact ih
  | case7 s rest room ih => exact ih.trans (List.suffix_cons s rest)
  | case8 s rest room hstarts ih => exact ih
  | case9 s rest room hstarts ih => exact ih.trans (List.suffix_cons s rest)

/-- A walk ends without symbols or without room. -/
theorem advance_stops (preamble : List (List α)) (source : String) (phase : Phase)
    (slots : List (Slot α τ)) (room : Nat) :
    (advance preamble source phase slots room).emitted.length ≤ room ∧
      ((advance preamble source phase slots room).rest = [] ∨
        (advance preamble source phase slots room).emitted.length = room) := by
  fun_induction advance preamble source phase slots room with
  | case1 => exact ⟨Nat.zero_le _, .inl rfl⟩
  | case2 => exact ⟨Nat.le_refl _, .inr rfl⟩
  | case3 s rest room hstarts ih => exact ih
  | case4 s rest room hstarts ih => exact ih
  | case5 s rest room n hnone ih => exact ih
  | case6 s rest room n symbol hsome ih =>
    exact ⟨Nat.succ_le_succ ih.1, ih.2.imp id (congrArg (· + 1))⟩
  | case7 s rest room ih => exact ⟨Nat.succ_le_succ ih.1, ih.2.imp id (congrArg (· + 1))⟩
  | case8 s rest room hstarts ih => exact ih
  | case9 s rest room hstarts ih =>
    exact ⟨Nat.succ_le_succ ih.1, ih.2.imp id (congrArg (· + 1))⟩

/-- Every symbol that is emitted comes from the preamble or from the input. -/
theorem length_of_mem_advance {length : Nat} (hpreamble : ∀ x ∈ preamble, x.length = length)
    (phase : Phase) {slots : List (Slot α τ)} (hslots : ∀ s ∈ slots, s.symbol.length = length)
    (room : Nat) :
    ∀ e ∈ (advance preamble source phase slots room).emitted, e.symbol.length = length := by
  fun_induction advance preamble source phase slots room with
  | case1 => nofun
  | case2 => nofun
  | case3 s rest room hstarts ih => exact ih hslots
  | case4 s rest room hstarts ih => exact ih fun x hx => hslots x (List.mem_cons_of_mem _ hx)
  | case5 s rest room n hnone ih => exact ih hslots
  | case6 s rest room n symbol hsome ih =>
    intro e he
    rcases List.mem_cons.1 he with rfl | he
    · exact hpreamble symbol (List.mem_of_getElem? hsome)
    · exact ih hslots e he
  | case7 s rest room ih =>
    intro e he
    rcases List.mem_cons.1 he with rfl | he
    · exact hslots s List.mem_cons_self
    · exact ih (fun x hx => hslots x (List.mem_cons_of_mem _ hx)) e he
  | case8 s rest room hstarts ih => exact ih hslots
  | case9 s rest room hstarts ih =>
    intro e he
    rcases List.mem_cons.1 he with rfl | he
    · exact hslots s List.mem_cons_self
    · exact ih (fun x hx => hslots x (List.mem_cons_of_mem _ hx)) e he

/-- **What was emitted, and what is ahead behind it**, is what was ahead before. -/
theorem advance_whole (preamble : List (List α)) (source : String) (phase : Phase)
    (slots : List (Slot α τ)) (room : Nat) (later : List (Slot α τ)) :
    (advance preamble source phase slots room).emitted ++
        ahead preamble source (advance preamble source phase slots room).phase
          ((advance preamble source phase slots room).rest ++ later) =
      ahead preamble source phase (slots ++ later) := by
  fun_induction advance preamble source phase slots room with
  | case1 => rfl
  | case2 => rfl
  | case3 s rest room hstarts ih =>
    rw [ih]
    simp only [ahead, List.cons_append, emissions, hstarts, ↓reduceIte]
  | case4 s rest room hstarts ih =>
    rw [ih]
    simp only [ahead, List.cons_append, emissions, hstarts, Bool.false_eq_true, ↓reduceIte]
  | case5 s rest room n hnone ih =>
    rw [ih]
    simp only [ahead, List.cons_append, opened_of_none hnone, List.nil_append]
  | case6 s rest room n symbol hsome ih =>
    simp only [Walk.after, List.cons_append]
    rw [ih]
    simp only [ahead, List.cons_append, opened_of_some hsome]
  | case7 s rest room ih =>
    simp only [Walk.after, List.cons_append]
    rw [ih]
    rfl
  | case8 s rest room hstarts ih =>
    rw [ih]
    simp only [ahead, List.cons_append, emissions, hstarts, ↓reduceIte]
  | case9 s rest room hstarts ih =>
    simp only [Walk.after, List.cons_append]
    rw [ih]
    simp only [ahead, emissions, hstarts, Bool.false_eq_true, ↓reduceIte]

end PreambleInserter

end OfdmBurst
