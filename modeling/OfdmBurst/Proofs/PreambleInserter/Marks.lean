import OfdmBurst.Proofs.PreambleInserter.Bursts

/-!
# The marks of bursts

A `Transmission` has a time and the symbols that are to be sent. What marks a burst does not depend
on the symbols, and a burst may do without a time. So for the marks a burst is described by what it
comes in: the first symbol starts it and no other does, and there are no tags on its symbols but
those that the inserter makes anew.

Then what is emitted falls apart into the bursts with their preambles, and for each of them it is
known which marks are on it, how long it is, and which auxiliary bytes go with it.

## Main definitions

* `IsBurst` — symbols that make up a burst
* `withPreamble` — what is emitted for them

## Main results

* `emissions_bursts` — bursts are emitted one behind the other
* `placedTags_withPreamble`, `length_withPreamble`, `aux_withPreamble` — what is emitted for a burst
-/

namespace OfdmBurst

namespace PreambleInserter

variable {α τ : Type}

/-- Symbols that make up a burst, with a time or without. The first one starts it, and no other
does. -/
def IsBurst (time : Option (Timestamp τ)) : List (Slot α τ) → Prop
  | [] => False
  | first :: rest => first.starts = true ∧ (∀ s ∈ rest, s.starts = false) ∧ first.time? = time ∧
      ∀ s ∈ first :: rest, ∀ t ∈ s.tags, isBurstTag t = true

/-- What is emitted for a burst: the preamble and the symbols. -/
def withPreamble (preamble : List (List α)) (source : String) :
    List (Slot α τ) → List (Emission α τ)
  | [] => []
  | first :: rest => opened preamble source first 0 ++ (first :: rest).map passed

variable {preamble : List (List α)} {source : String} {time : Option (Timestamp τ)}
  {block : List (Slot α τ)}

/-- **Bursts are emitted one behind the other.** -/
theorem emissions_bursts {blocks : List (List (Slot α τ))}
    (h : ∀ block ∈ blocks, ∃ time, IsBurst time block) (started : Bool) :
    emissions preamble source started blocks.flatten =
      blocks.flatMap (withPreamble preamble source) := by
  induction blocks generalizing started with
  | nil => rfl
  | cons block blocks ih =>
    obtain ⟨time, hburst⟩ := h block List.mem_cons_self
    cases block with
    | nil => exact hburst.elim
    | cons first rest =>
      obtain ⟨hstarts, hothers, -, -⟩ := hburst
      rw [List.flatten_cons, emissions_of_starts hstarts hothers,
        ih fun x hx => h x (List.mem_cons_of_mem _ hx), List.flatMap_cons]
      rfl

/-- Nothing is left of the tags of a burst that is passed on. -/
theorem tags_passed {s : Slot α τ} (h : ∀ t ∈ s.tags, isBurstTag t = true) :
    (passed s).tags = [] := by
  refine List.filter_eq_nil_iff.2 fun t ht => ?_
  rw [h t ht]
  exact Bool.false_ne_true

/-- **A burst has its marks on the first symbol of the preamble**, and no other tags. -/
theorem placedTags_withPreamble (hpreamble : preamble ≠ []) (h : IsBurst time block) (index : Nat) :
    placedTags index (withPreamble preamble source block) = startMarks source index time := by
  cases block with
  | nil => exact h.elim
  | cons first rest =>
    obtain ⟨-, -, htime, hown⟩ := h
    have hpassed : ∀ e ∈ (first :: rest).map passed, e.tags = [] := by
      intro e he
      obtain ⟨s, hs, rfl⟩ := List.mem_map.1 he
      exact tags_passed (hown s hs)
    rw [withPreamble, placedTags_append, placedTags_opened hpreamble, placedTags_eq_nil hpassed,
      List.append_nil, htime]

theorem length_withPreamble (h : IsBurst time block) :
    (withPreamble preamble source block).length = preamble.length + block.length := by
  cases block with
  | nil => exact h.elim
  | cons first rest =>
    rw [withPreamble, List.length_append, List.length_map, ← List.length_map (f := (·.symbol)),
      symbols_opened]

/-- The auxiliary bytes of the preamble are zero. -/
theorem aux_withPreamble (h : IsBurst time block) :
    (withPreamble preamble source block).map (·.aux) =
      List.replicate preamble.length 0 ++ block.map (·.aux) := by
  cases block with
  | nil => exact h.elim
  | cons first rest =>
    rw [withPreamble, List.map_append, List.map_map, opened, List.drop_zero, List.map_map]
    congr 1
    exact (List.map_const' ..).trans (by rw [List.length_zipIdx]; rfl)

end PreambleInserter

end OfdmBurst
