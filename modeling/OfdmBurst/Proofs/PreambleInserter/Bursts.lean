import Mathlib.Data.List.Forall2
import OfdmBurst.Proofs.PreambleInserter.Emission

/-!
# Bursts with preambles

The reference speaks of symbols one by one. This module reads it burst by burst. A transmission is
what a burst is made of: its symbols, and the time at which it is to be sent. Symbols feed a
transmission to an inserter if the first one starts a burst and carries the time, and no other
starts one. Then the inserter emits the preamble and the symbols of every transmission, one behind
the other, and the times are on the first symbols of the preambles.

## Main definitions

* `Transmission`, `Transmission.Feeds` — a burst, and the symbols it comes in
* `Transmission.places` — where bursts begin

## Main results

* `symbols_emissions` — the symbols that are emitted for bursts
* `txTimes_emissions` — the times that are emitted for bursts
-/

namespace OfdmBurst

namespace PreambleInserter

variable {α τ : Type}

/-- The time that a symbol gives the burst that starts with it. -/
def Slot.time? (s : Slot α τ) : Option (Timestamp τ) :=
  (Tag.latest? (s.tags.filter fun t => t.key == Tag.txTime || t.key == Tag.syncTime)).bind Tag.time?

/-- A burst that is to be sent: its symbols, and when. -/
structure Transmission (α τ : Type) where
  symbols : List (List α)
  time : Timestamp τ

/-- The burst comes in these symbols: the first one starts it and carries its time, and no other
starts one. -/
def Transmission.Feeds (b : Transmission α τ) : List (Slot α τ) → Prop
  | [] => False
  | first :: rest =>
    b.symbols = (first :: rest).map (·.symbol) ∧ first.starts = true ∧
      first.time? = some b.time ∧ ∀ s ∈ rest, s.starts = false

/-- Where bursts with preambles of `length` symbols begin, the first of them at `index`. -/
def Transmission.places (length : Nat) (index : Nat) :
    List (Transmission α τ) → List (Nat × Transmission α τ)
  | [] => []
  | b :: rest => (index, b) :: places length (index + length + b.symbols.length) rest

variable {preamble : List (List α)} {source : String}

/-! ### Emissions -/

theorem symbols_opened (s : Slot α τ) :
    (opened preamble source s 0).map (·.symbol) = preamble := by
  rw [opened, List.drop_zero, List.map_map]
  exact List.zipIdx_map_fst 0 preamble

theorem symbols_passed (slots : List (Slot α τ)) :
    (slots.map passed).map (·.symbol) = slots.map (·.symbol) := by
  rw [List.map_map]
  rfl

/-- A burst that comes in symbols has some. -/
theorem symbols_pos {bursts : List (Transmission α τ)} {blocks : List (List (Slot α τ))}
    (h : List.Forall₂ Transmission.Feeds bursts blocks) : ∀ b ∈ bursts, 0 < b.symbols.length := by
  induction h with
  | nil => nofun
  | @cons b block bursts blocks hfeeds _ ih =>
    intro c hc
    rcases List.mem_cons.1 hc with rfl | hc
    · cases block with
      | nil => exact hfeeds.elim
      | cons first rest =>
        rw [hfeeds.1, List.map_cons]
        exact Nat.succ_pos _
    · exact ih c hc

/-- Symbols that start no burst are passed on. -/
theorem emissions_of_not_starts {slots : List (Slot α τ)} (h : ∀ s ∈ slots, s.starts = false)
    (later : List (Slot α τ)) :
    emissions preamble source true (slots ++ later) =
      slots.map passed ++ emissions preamble source true later := by
  induction slots with
  | nil => rfl
  | cons s rest ih =>
    have hs : ¬ s.starts = true := by
      rw [h s List.mem_cons_self]
      exact Bool.false_ne_true
    rw [List.cons_append, emissions, if_neg hs, if_pos rfl,
      ih fun x hx => h x (List.mem_cons_of_mem _ hx)]
    rfl

/-- The first burst of several, with its preamble. -/
theorem emissions_of_starts {first : Slot α τ} {rest : List (Slot α τ)}
    (hfirst : first.starts = true) (hrest : ∀ s ∈ rest, s.starts = false) (started : Bool)
    (later : List (Slot α τ)) :
    emissions preamble source started (first :: rest ++ later) =
      opened preamble source first 0 ++ (first :: rest).map passed ++
        emissions preamble source true later := by
  rw [List.cons_append, emissions, if_pos hfirst, emissions_of_not_starts hrest, List.map_cons,
    List.append_assoc]
  rfl

/-- **The symbols that are emitted for bursts**: the preamble and the burst, for each of them. -/
theorem symbols_emissions {bursts : List (Transmission α τ)} {blocks : List (List (Slot α τ))}
    (h : List.Forall₂ Transmission.Feeds bursts blocks) (started : Bool) :
    (emissions preamble source started blocks.flatten).map (·.symbol) =
      bursts.flatMap fun b => preamble ++ b.symbols := by
  induction h generalizing started with
  | nil => rfl
  | @cons b block bursts blocks hfeeds _ ih =>
    cases block with
    | nil => exact hfeeds.elim
    | cons first rest =>
      rw [List.flatten_cons, emissions_of_starts hfeeds.2.1 hfeeds.2.2.2, List.map_append,
        List.map_append, symbols_opened, symbols_passed, ih, List.flatMap_cons, hfeeds.1]

/-! ### Times -/

theorem placedTags_eq_nil {es : List (Emission α τ)} (h : ∀ e ∈ es, e.tags = []) (index : Nat) :
    placedTags index es = [] := by
  refine List.eq_nil_iff_forall_not_mem.2 fun t ht => ?_
  obtain ⟨i, e, he, u, hu, rfl⟩ := mem_placedTags.1 ht
  rw [h e (List.mem_of_getElem? he)] at hu
  cases hu

theorem filter_placedTags_eq_nil {es : List (Emission α τ)} {key : String}
    (h : ∀ e ∈ es, ∀ t ∈ e.tags, t.key ≠ key) (index : Nat) :
    (placedTags index es).filter (·.key == key) = [] := by
  refine List.filter_eq_nil_iff.2 fun t ht => ?_
  obtain ⟨i, e, he, u, hu, rfl⟩ := mem_placedTags.1 ht
  rw [beq_iff_eq]
  exact h e (List.mem_of_getElem? he) u hu

/-- No time is passed on with a symbol. -/
theorem ne_txTime_of_passed {s : Slot α τ} : ∀ t ∈ (passed s).tags, t.key ≠ Tag.txTime := by
  intro t ht hkey
  have hburst := (List.mem_filter.1 ht).2
  rw [isBurstTag, hkey] at hburst
  exact Bool.false_ne_true hburst

/-- The marks of a burst, on its first symbol. -/
def startMarks (source : String) (index : Nat) (time : Option (Timestamp τ)) : List (Tag τ) :=
  { index, key := Tag.txStart, value := .flag, source := some source } ::
    time.toList.map fun time =>
      { index, key := Tag.txTime, value := .time time, source := some source }

/-- The preamble has the marks of its burst on its first symbol, and no other tags. -/
theorem placedTags_opened (hpreamble : preamble ≠ []) (s : Slot α τ) (index : Nat) :
    placedTags index (opened preamble source s 0) = startMarks source index s.time? := by
  obtain ⟨x, rest, rfl⟩ := List.exists_cons_of_ne_nil hpreamble
  have hothers : ∀ e ∈ opened (x :: rest) source s 1, e.tags = [] := by
    intro e he
    obtain ⟨⟨y, n⟩, hmem, rfl⟩ := List.mem_map.1 he
    rw [List.zipIdx_cons, List.drop_succ_cons, List.drop_zero] at hmem
    have hn : n ≠ 0 := Nat.ne_of_gt (List.le_snd_of_mem_zipIdx hmem)
    simp only [announced, if_neg hn]
  have hfirst : (x :: rest)[0]? = some x := rfl
  rw [opened_of_some hfirst, ← List.singleton_append, placedTags_append,
    placedTags_eq_nil hothers, List.append_nil]
  simp only [placedTags, List.zipIdx_cons, List.zipIdx_nil, List.flatMap_singleton, announced,
    ↓reduceIte, startTags, Slot.time?]
  split
  next time htime => rw [htime]; rfl
  next htime => rw [htime]; rfl

/-- The time of a burst is on the first symbol of its preamble. -/
theorem txTimes_opened (hpreamble : preamble ≠ []) {s : Slot α τ} {time : Timestamp τ}
    (htime : s.time? = some time) (index : Nat) :
    (placedTags index (opened preamble source s 0)).filter (·.key == Tag.txTime) =
      [{ index, key := Tag.txTime, value := .time time, source := some source }] := by
  rw [placedTags_opened hpreamble, htime]
  rfl

/-- **The times that are emitted for bursts**, each at the place where its burst begins. -/
theorem txTimes_emissions (hpreamble : preamble ≠ []) {bursts : List (Transmission α τ)}
    {blocks : List (List (Slot α τ))} (h : List.Forall₂ Transmission.Feeds bursts blocks)
    (started : Bool) (index : Nat) :
    (placedTags index (emissions preamble source started blocks.flatten)).filter
        (·.key == Tag.txTime) =
      (Transmission.places preamble.length index bursts).map fun p =>
        { index := p.1, key := Tag.txTime, value := .time p.2.time, source := some source } := by
  induction h generalizing started index with
  | nil => rfl
  | @cons b block bursts blocks hfeeds _ ih =>
    cases block with
    | nil => exact hfeeds.elim
    | cons first rest =>
      have hpassed : ∀ e ∈ (first :: rest).map passed, ∀ t ∈ e.tags, t.key ≠ Tag.txTime := by
        intro e he
        obtain ⟨x, -, rfl⟩ := List.mem_map.1 he
        exact ne_txTime_of_passed
      have hopened : (opened preamble source first 0).length = preamble.length := by
        rw [← List.length_map, symbols_opened]
      have hsymbols : b.symbols.length = (first :: rest).length := by
        rw [hfeeds.1, List.length_map]
      rw [List.flatten_cons, emissions_of_starts hfeeds.2.1 hfeeds.2.2.2, placedTags_append,
        placedTags_append,
        List.filter_append, List.filter_append, txTimes_opened hpreamble hfeeds.2.2.1,
        filter_placedTags_eq_nil hpassed, List.append_nil, ih, List.length_append, List.length_map,
        hopened, Transmission.places, hsymbols, ← Nat.add_assoc]
      rfl

/-! ### Places -/

namespace Transmission

variable {length index : Nat} {bursts : List (Transmission α τ)} {p q : Nat × Transmission α τ}

theorem map_snd_places (length index : Nat) (bursts : List (Transmission α τ)) :
    (places length index bursts).map (·.2) = bursts := by
  induction bursts generalizing index with
  | nil => rfl
  | cons b rest ih => rw [places, List.map_cons, ih]

theorem mem_of_mem_places (h : p ∈ places length index bursts) : p.2 ∈ bursts := by
  rw [← map_snd_places length index bursts]
  exact List.mem_map_of_mem h

theorem le_of_mem_places (h : p ∈ places length index bursts) : index ≤ p.1 := by
  induction bursts generalizing index with
  | nil => cases h
  | cons b rest ih =>
    rcases List.mem_cons.1 h with rfl | h
    · exact Nat.le_refl _
    · exact Nat.le_trans (by omega) (ih h)

/-- Bursts do not overlap. -/
theorem eq_of_mem_places (hp : p ∈ places length index bursts) (hq : q ∈ places length index bursts)
    (hle : p.1 ≤ q.1) (hlt : q.1 < p.1 + length) : p = q := by
  induction bursts generalizing index with
  | nil => cases hp
  | cons b rest ih =>
    rcases List.mem_cons.1 hp with rfl | hp
    · rcases List.mem_cons.1 hq with rfl | hq
      · rfl
      · have hbehind := le_of_mem_places hq
        omega
    · rcases List.mem_cons.1 hq with rfl | hq
      · have hbehind := le_of_mem_places hp
        omega
      · exact ih hp hq

/-- The symbols of a burst, among all that are sent. -/
theorem getElem?_places {preamble : List (List α)} (h : p ∈ places preamble.length index bursts)
    {i : Nat} (hi : i < preamble.length + p.2.symbols.length) :
    (bursts.flatMap fun b => preamble ++ b.symbols)[p.1 - index + i]? =
      (preamble ++ p.2.symbols)[i]? := by
  induction bursts generalizing index with
  | nil => cases h
  | cons b rest ih =>
    rw [List.flatMap_cons]
    rcases List.mem_cons.1 h with rfl | h
    · rw [Nat.sub_self, Nat.zero_add, List.getElem?_append_left]
      rw [List.length_append]
      exact hi
    · have hbehind := le_of_mem_places h
      have hplace : p.1 - index + i - (preamble ++ b.symbols).length =
          p.1 - (index + preamble.length + b.symbols.length) + i := by
        rw [List.length_append]
        omega
      rw [List.getElem?_append_right, hplace]
      · exact ih h
      · rw [List.length_append]
        omega

end Transmission

end PreambleInserter

end OfdmBurst
