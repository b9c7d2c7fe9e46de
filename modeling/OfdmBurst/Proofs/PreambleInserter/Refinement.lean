import Mathlib.Data.List.TakeWhile
import OfdmBurst.Proofs.PreambleInserter.Emission

/-!
# The inserter as a function of streams

What an inserter puts out is a function of what it is fed, whatever the pieces in which symbols,
flags and bytes arrive, whenever its readers grant room and take, and whenever it is called. This
module writes the function down without recursion, phases or positions: the symbols before the first
burst go, and each of the others becomes one emission or, if it starts a burst, one for every symbol
of the preamble and one for itself.

`emissions` is the same function, read the way a walk goes along. It is the form in which sessions
are sound; the form below is the one to compare with a description of the format.

## Main definitions

* `announcement`, `relayed` — what becomes of a symbol
* `reference` — what becomes of all of them

## Main results

* `emissions_eq_reference` — the two forms agree
* `run_refines_reference` — every session puts out the beginning of the reference, and a call of
  work goes on until there is nothing to read or no room
-/

namespace OfdmBurst

namespace PreambleInserter

variable {α τ : Type}

/-! ### The reference -/

/-- The time that comes with a symbol: what the last of its time tags says, if that is a time. -/
def Slot.lastTime? (s : Slot α τ) : Option (Timestamp τ) :=
  (s.tags.filter fun t => t.key = Tag.txTime ∨ t.key = Tag.syncTime).getLast?.bind Tag.time?

/-- The marks on the first symbol of a preamble: the start of the burst, and its time. -/
def Slot.startMarks (s : Slot α τ) (source : String) : List (Tag τ) :=
  { index := 0, key := Tag.txStart, value := .flag, source := some source } ::
    s.lastTime?.toList.map fun time =>
      { index := 0, key := Tag.txTime, value := .time time, source := some source }

/-- The preamble of the burst that starts with `s`. -/
def announcement (preamble : List (List α)) (source : String) (s : Slot α τ) :
    List (Emission α τ) :=
  preamble.mapIdx fun n symbol =>
    if n = 0 then { symbol, flag := 1, aux := 0, tags := s.startMarks source }
    else { symbol, flag := 0, aux := 0, tags := [] }

/-- A symbol of a burst, with its auxiliary byte and all tags that are not the burst's. -/
def relayed (s : Slot α τ) : Emission α τ where
  symbol := s.symbol
  flag := 0
  aux := s.aux
  tags := s.tags.filter fun t => t.key ∉ [Tag.txTime, Tag.syncTime, Tag.txStart]

/-- **What becomes of all symbols.** -/
def reference (preamble : List (List α)) (source : String) (slots : List (Slot α τ)) :
    List (Emission α τ) :=
  (slots.dropWhile (!·.starts)).flatMap fun s =>
    (if s.starts then announcement preamble source s else []) ++ [relayed s]

/-! ### The two forms -/

section Forms

variable {preamble : List (List α)} {source : String}

theorem passed_eq_relayed (s : Slot α τ) : passed s = relayed s := by
  simp only [passed, relayed, isBurstTag, Emission.mk.injEq, true_and]
  refine List.filter_congr fun t _ => Bool.eq_iff_iff.2 ?_
  simp [and_assoc]

theorem lastTime?_eq {s : Slot α τ} {i : Nat} (h : ∀ t ∈ s.tags, t.index = i) :
    (Tag.latest? (s.tags.filter fun t => t.key == Tag.txTime || t.key == Tag.syncTime)).bind
      Tag.time? = s.lastTime? := by
  have htimes : ∀ t ∈ s.tags.filter fun t => t.key == Tag.txTime || t.key == Tag.syncTime,
      t.index = i := fun t ht => h t (List.mem_filter.1 ht).1
  have hsame : (s.tags.filter fun t => t.key == Tag.txTime || t.key == Tag.syncTime) =
      s.tags.filter fun t => t.key = Tag.txTime ∨ t.key = Tag.syncTime :=
    List.filter_congr fun t _ => Bool.eq_iff_iff.2 (by simp)
  rw [Tag.latest?_eq_getLast? htimes, hsame, Slot.lastTime?]

theorem startTags_eq {s : Slot α τ} {i : Nat} (h : ∀ t ∈ s.tags, t.index = i) :
    startTags source s = s.startMarks source := by
  rw [startTags, Slot.startMarks]
  simp only [lastTime?_eq h]
  cases s.lastTime? <;> rfl

theorem opened_eq_announcement {s : Slot α τ} {i : Nat} (h : ∀ t ∈ s.tags, t.index = i) :
    opened preamble source s 0 = announcement preamble source s := by
  rw [opened, List.drop_zero, announcement, List.mapIdx_eq_zipIdx_map]
  refine List.map_congr_left fun p _ => ?_
  rw [announced, startTags_eq h]
  by_cases hn : p.2 = 0
  · simp only [hn, ↓reduceIte]
  · simp only [hn, ↓reduceIte]

/-- Behind the start of a burst every symbol is sent. -/
theorem emissions_started {slots : List (Slot α τ)}
    (h : ∀ s ∈ slots, ∃ i, ∀ t ∈ s.tags, t.index = i) :
    emissions preamble source true slots = slots.flatMap fun s =>
      (if s.starts then announcement preamble source s else []) ++ [relayed s] := by
  induction slots with
  | nil => rfl
  | cons s rest ih =>
    obtain ⟨i, hi⟩ := h s List.mem_cons_self
    have hrest := ih fun x hx => h x (List.mem_cons_of_mem _ hx)
    rw [emissions, List.flatMap_cons, hrest, opened_eq_announcement hi, passed_eq_relayed]
    cases s.starts <;> simp

/-- **The two forms of the reference agree** on symbols whose tags are their own. -/
theorem emissions_eq_reference {slots : List (Slot α τ)}
    (h : ∀ s ∈ slots, ∃ i, ∀ t ∈ s.tags, t.index = i) :
    emissions preamble source false slots = reference preamble source slots := by
  induction slots with
  | nil => rfl
  | cons s rest ih =>
    have hrest := fun x hx => h x (List.mem_cons_of_mem s hx)
    cases hs : s.starts with
    | false =>
      rw [emissions, if_neg (by simp [hs]), if_neg Bool.false_ne_true, ih hrest, reference,
        reference, List.dropWhile_cons_of_pos (by simp [hs])]
    | true =>
      have hboth : emissions preamble source false (s :: rest) =
          emissions preamble source true (s :: rest) := by
        rw [emissions, emissions, if_pos hs, if_pos hs]
      rw [hboth, emissions_started h, reference, List.dropWhile_cons_of_neg (by simp [hs])]

end Forms

/-! ### Sessions -/

namespace Session

/-- The tags of a known symbol are the tags on its item. -/
theorem index_of_mem_known {s : Session α τ} :
    ∀ x ∈ s.known, ∃ i, ∀ t ∈ x.tags, t.index = i := by
  intro x hx
  obtain ⟨i, -, rfl⟩ := List.mem_map.1 hx
  exact ⟨i, fun t ht => beq_iff_eq.1 (List.mem_filter.1 ht).2⟩

variable {made : PreambleInserter α τ} {s : Session α τ} {emitted more : List (Emission α τ)}

/-- What was emitted begins the reference for all that is known. -/
theorem Sound.prefix_emissions (h : s.Sound made (emitted ++ more)) :
    emitted <+: emissions made.preamble s.source false s.known := by
  have hwhole := h.whole []
  rw [List.append_nil, List.append_nil, h.preamble_eq, List.append_assoc] at hwhole
  exact ⟨_, hwhole⟩

/-- **However it is fed, read and called, an inserter puts out the reference.** What it has put out
at any time, with its flags, its auxiliary bytes and its tags, begins the reference for all that it
is fed up to any later time. It is the whole reference once nothing is left to read, and a call of
work returns only when nothing is left to read or there is no room. -/
theorem run_refines_reference [Inhabited α] {length : Nat} {preamble : List (List α)}
    {source : String} {events later : List (Event α τ)} {t : Session α τ}
    (hmade : ofPreamble length preamble = .ok made)
    (hs : (start made source).run events = .ok s) (ht : s.run later = .ok t) :
    ∃ emitted,
      s.inserter.output.total s.output =
        ⟨emitted.flatMap (·.symbol), placedTags 0 emitted⟩ ∧
      s.inserter.flags.total s.flags = ⟨emitted.map (·.flag), []⟩ ∧
      s.inserter.auxOut.total s.auxOut = ⟨emitted.map (·.aux), []⟩ ∧
      emitted <+: reference preamble source t.known ∧
      (s.inserter.ready = 0 → emitted = reference preamble source s.known) ∧
      ∃ b finished, s.inserter.work source = .ok (b, finished) ∧ (b.ready = 0 ∨ b.room = 0) := by
  obtain ⟨emitted, hsound⟩ := exists_sound hmade hs
  obtain ⟨more, hlater⟩ := hsound.run ht
  obtain ⟨-, -, hpreamble⟩ := sound_start hmade source
  have hsource : s.source = source := source_run hs
  have hbegins := hlater.prefix_emissions
  rw [source_run ht, hsource, hpreamble, emissions_eq_reference index_of_mem_known] at hbegins
  refine ⟨emitted, hsound.output_eq, hsound.flags_eq, hsound.auxOut_eq, hbegins, fun hready => ?_,
    hsource ▸ hsound.work_returns⟩
  rw [hsound.emitted_eq hready, hsource, hpreamble, emissions_eq_reference index_of_mem_known]

/-- A symbol before the first burst and one that starts it, with room for the preamble only. -/
def suspended : List (Event Nat Nat) :=
  [.input (.push [1, 2] [{ index := 1, key := Tag.syncTime, value := .time ⟨3, 0⟩ }]),
    .starts (.push [0, 3] []), .auxIn (.push [4, 5] []), .output (.reserve 2), .flags (.reserve 5),
    .auxOut (.reserve 5), .work]

/-- The reader takes, and one more symbol arrives. -/
def resumed : List (Event Nat Nat) :=
  [.output .take, .input (.push [6] []), .starts (.push [0] []), .auxIn (.push [9] []), .work]

theorem run_refines_reference_suspended :
    ∃ (made : PreambleInserter Nat Nat) (s t : Session Nat Nat) (emitted : List (Emission Nat Nat)),
      ofPreamble 1 [[7], [8]] = .ok made ∧ (start made "inserter").run suspended = .ok s ∧
        s.run resumed = .ok t ∧
        s.inserter.output.total s.output =
          ⟨emitted.flatMap (·.symbol), placedTags 0 emitted⟩ ∧
        s.inserter.flags.total s.flags = ⟨emitted.map (·.flag), []⟩ ∧
        s.inserter.auxOut.total s.auxOut = ⟨emitted.map (·.aux), []⟩ ∧
        emitted.flatMap (·.symbol) = [7, 8] ∧ emitted.map (·.flag) = [1, 0] ∧
        t.known.length = 3 ∧ emitted <+: reference [[7], [8]] "inserter" t.known := by
  obtain ⟨made, hmade, h⟩ := Fault.exists_ok_of_any (x := ofPreamble 1 [[7], [8]])
    (p := fun made : PreambleInserter Nat Nat =>
      ((start made "inserter").run suspended).toOption.any fun s =>
        (s.inserter.output.total s.output).data == [7, 8] &&
          (s.inserter.flags.total s.flags).data == [1, 0] &&
          (s.run resumed).toOption.any (·.known.length == 3))
    (by decide +kernel)
  obtain ⟨s, hs, h⟩ := Fault.exists_ok_of_any h
  simp only [Bool.and_eq_true, beq_iff_eq] at h
  obtain ⟨⟨hdata, hflagged⟩, h⟩ := h
  obtain ⟨t, ht, hknown⟩ := Fault.exists_ok_of_any h
  obtain ⟨emitted, houtput, hflags, hauxOut, hprefix, -⟩ := run_refines_reference hmade hs ht
  rw [houtput] at hdata
  rw [hflags] at hflagged
  exact ⟨made, s, t, emitted, hmade, hs, ht, houtput, hflags, hauxOut, hdata, hflagged,
    beq_iff_eq.1 hknown, hprefix⟩

end Session

end PreambleInserter

end OfdmBurst
