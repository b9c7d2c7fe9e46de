import OfdmBurst.Proofs.PreambleInserter.Run

/-!
# What an inserter emits

However an inserter is fed and called, what it has emitted begins the reference for all symbols that
are known, and it is the whole of it once they are consumed. `Session.Sound` is the invariant behind
this: what was emitted, followed by what is ahead, is the reference, for the known symbols and any
symbols behind them.

The symbols behind the known ones have to be in the equation. A symbol that starts a burst stays at
the front of the input while the preamble goes out, so what is ahead depends on it, and the phase
alone would not say enough.

## Main definitions

* `Session.Sound` — the invariant

## Main results

* `Session.Sound.work` — a call of work keeps the invariant
* `Session.exists_sound` — every session is sound
* `Session.Sound.emitted_eq` — what was emitted for the symbols consumed
* `Session.Sound.work_returns` — a call of work returns, and goes as far as it can
-/

namespace OfdmBurst

namespace PreambleInserter

variable {α τ : Type}

/-! ### Emissions on the outlets -/

theorem placedTags_append (index : Nat) (xs ys : List (Emission α τ)) :
    placedTags index (xs ++ ys) = placedTags index xs ++ placedTags (index + xs.length) ys := by
  rw [placedTags, List.zipIdx_append, List.flatMap_append]
  rfl

theorem mem_placedTags {index : Nat} {es : List (Emission α τ)} {t : Tag τ} :
    t ∈ placedTags index es ↔
      ∃ i, ∃ e : Emission α τ, es[i]? = some e ∧ ∃ u ∈ e.tags, t = { u with index := index + i } := by
  rw [placedTags, List.mem_flatMap]
  constructor
  · rintro ⟨⟨e, j⟩, hmem, ht⟩
    rw [List.mem_zipIdx_iff_le_and_getElem?_sub] at hmem
    obtain ⟨u, hu, rfl⟩ := List.mem_map.1 ht
    refine ⟨j - index, e, hmem.2, u, hu, ?_⟩
    rw [Nat.add_sub_cancel' hmem.1]
  · rintro ⟨i, e, he, u, hu, rfl⟩
    refine ⟨(e, index + i), ?_, List.mem_map_of_mem hu⟩
    rw [List.mem_zipIdx_iff_le_and_getElem?_sub, Nat.add_sub_cancel_left]
    exact ⟨Nat.le_add_right _ _, he⟩

/-- Tags of emissions are on the emissions. -/
theorem index_of_mem_placedTags {index : Nat} {es : List (Emission α τ)} {t : Tag τ}
    (h : t ∈ placedTags index es) : index ≤ t.index ∧ t.index < index + es.length := by
  obtain ⟨i, e, he, u, -, rfl⟩ := mem_placedTags.1 h
  obtain ⟨hi, -⟩ := List.getElem?_eq_some_iff.1 he
  exact ⟨Nat.le_add_right _ _, Nat.add_lt_add_left hi _⟩

namespace Session

/-- An inserter that nobody has used yet. -/
def start (b : PreambleInserter α τ) (source : String) : Session α τ := { inserter := b, source }

/-- **The invariant of a session** of an inserter like `made`, in which `emitted` was emitted. -/
structure Sound (made : PreambleInserter α τ) (s : Session α τ) (emitted : List (Emission α τ)) :
    Prop where
  /-- The preamble is the one the inserter was built with. -/
  preamble_eq : s.inserter.preamble = made.preamble
  /-- So is the length of a symbol. -/
  length_eq : s.inserter.length = made.length
  /-- Symbols are consumed whole. -/
  input_width : s.inserter.input.width = s.inserter.length
  /-- Start flags are consumed one by one. -/
  starts_width : s.inserter.starts.width = 1
  /-- Auxiliary bytes are consumed one by one. -/
  auxIn_width : s.inserter.auxIn.width = 1
  /-- Symbols are put out whole. -/
  output_width : s.inserter.output.width = s.inserter.length
  /-- Flags are put out one by one. -/
  flags_width : s.inserter.flags.width = 1
  /-- Auxiliary bytes are put out one by one. -/
  auxOut_width : s.inserter.auxOut.width = 1
  /-- The inlet of the symbols holds what is left of its record. -/
  input : s.inserter.input.Holds s.input
  /-- So does the inlet of the start flags. -/
  starts : s.inserter.starts.Holds s.starts
  /-- So does the inlet of the auxiliary bytes. -/
  auxIn : s.inserter.auxIn.Holds s.auxIn
  /-- The record of the symbols is what was taken of them. -/
  output : s.inserter.output.Gave s.output
  /-- The record of the flags is what was taken of them. -/
  flags : s.inserter.flags.Gave s.flags
  /-- The record of the auxiliary bytes is what was taken of them. -/
  auxOut : s.inserter.auxOut.Gave s.auxOut
  /-- As many start flags were consumed as symbols. -/
  starts_read : s.inserter.starts.read = s.inserter.input.read
  /-- And as many auxiliary bytes. -/
  auxIn_read : s.inserter.auxIn.read = s.inserter.input.read
  /-- Every symbol emitted has its full length. -/
  lengths : ∀ e ∈ emitted, e.symbol.length = s.inserter.length
  /-- The samples and tags put out are those of the emissions. -/
  output_eq : s.inserter.output.total s.output = ⟨emitted.flatMap (·.symbol), placedTags 0 emitted⟩
  /-- The flags put out are theirs, without tags. -/
  flags_eq : s.inserter.flags.total s.flags = ⟨emitted.map (·.flag), []⟩
  /-- The auxiliary bytes put out are theirs, without tags. -/
  auxOut_eq : s.inserter.auxOut.total s.auxOut = ⟨emitted.map (·.aux), []⟩
  /-- What was emitted and what is ahead is the whole reference, however the inputs go on. -/
  whole : ∀ later, emitted ++ ahead s.inserter.preamble s.source s.inserter.phase
      (s.known.drop s.inserter.input.read ++ later) =
    emissions s.inserter.preamble s.source false (s.known ++ later)

variable {made : PreambleInserter α τ} {s : Session α τ} {emitted : List (Emission α τ)}

namespace Sound

theorem slots_eq (h : s.Sound made emitted) :
    s.inserter.ready = s.count - s.inserter.input.read ∧ s.inserter.input.read ≤ s.count ∧
      s.inserter.slots = .ok (s.known.drop s.inserter.input.read) :=
  Session.slots_eq h.input h.starts h.auxIn h.input_width h.starts_width h.auxIn_width h.starts_read
    h.auxIn_read

theorem length_known (s : Session α τ) : s.known.length = s.count := length_slotsOf ..

/-! ### Events -/

/-- More of the known symbols are more symbols behind those known before. -/
theorem whole_of_known (h : s.Sound made emitted) {known : List (Slot α τ)}
    (hknown : s.known <+: known) (later : List (Slot α τ)) :
    emitted ++ ahead s.inserter.preamble s.source s.inserter.phase
        (known.drop s.inserter.input.read ++ later) =
      emissions s.inserter.preamble s.source false (known ++ later) := by
  obtain ⟨more, rfl⟩ := hknown
  have hle : s.inserter.input.read ≤ s.known.length := by
    rw [length_known]
    exact h.slots_eq.2.1
  rw [List.drop_append_of_le_length hle, List.append_assoc, List.append_assoc]
  exact h.whole (more ++ later)

/-- Streams that go on leave the known symbols as they are. -/
theorem slotsOf_prefix {width : Nat} {input : Record α τ} {starts auxIn : Record UInt8 τ} {n k : Nat}
    (h : n ≤ k) : slotsOf width input starts auxIn n <+: slotsOf width input starts auxIn k := by
  obtain ⟨j, rfl⟩ := Nat.exists_eq_add_of_le h
  rw [slotsOf_add]
  exact List.prefix_append _ _

theorem feedInput (h : s.Sound made emitted) {p : Inlet α τ} {r : Record α τ}
    {e : Inlet.Event α τ} (he : s.inserter.input.meet s.input e = .ok (p, r)) :
    ({ s with inserter := { s.inserter with input := p }, input := r } : Session α τ).Sound made
      emitted := by
  obtain ⟨hp, hwidth, hread, hrecord⟩ := h.input.meet he
  have hknown : s.known <+: slotsOf s.inserter.length r s.starts s.auxIn
      (min (r.data.length / s.inserter.length) (min s.starts.data.length s.auxIn.data.length)) := by
    rcases hrecord with rfl | ⟨data, tags, -, rfl⟩
    · exact List.prefix_refl _
    · have hpos : 0 < s.inserter.length := h.input_width ▸ s.inserter.input.width_pos
      have hle : s.count * s.inserter.length ≤ s.input.data.length :=
        (Nat.le_div_iff_mul_le hpos).1 (Nat.min_le_left _ _)
      rw [known, ← slotsOf_append_input hle hpos data tags, h.input_width]
      refine slotsOf_prefix (Nat.le_min.2 ⟨?_, Nat.min_le_right _ _⟩)
      exact Nat.le_trans (Nat.min_le_left _ _)
        (Nat.div_le_div_right (s.input.length_le_append _ data tags))
  refine { h with
    input_width := hwidth.trans h.input_width
    input := hp
    starts_read := h.starts_read.trans hread.symm
    auxIn_read := h.auxIn_read.trans hread.symm
    whole := fun later => ?_ }
  simp only [hread]
  exact h.whole_of_known hknown later

theorem feedStarts (h : s.Sound made emitted) {p : Inlet UInt8 τ} {r : Record UInt8 τ}
    {e : Inlet.Event UInt8 τ} (he : s.inserter.starts.meet s.starts e = .ok (p, r)) :
    ({ s with inserter := { s.inserter with starts := p }, starts := r } : Session α τ).Sound made
      emitted := by
  obtain ⟨hp, hwidth, hread, hrecord⟩ := h.starts.meet he
  have hknown : s.known <+: slotsOf s.inserter.length s.input r s.auxIn
      (min (s.input.data.length / s.inserter.length) (min r.data.length s.auxIn.data.length)) := by
    rcases hrecord with rfl | ⟨data, tags, -, rfl⟩
    · exact List.prefix_refl _
    · have hle : s.count ≤ s.starts.data.length :=
        Nat.le_trans (Nat.min_le_right _ _) (Nat.min_le_left _ _)
      rw [known, ← slotsOf_append_starts hle data tags, h.starts_width]
      refine slotsOf_prefix ?_
      rw [count, Record.append, List.length_append]
      omega
  exact { h with
    starts_width := hwidth.trans h.starts_width
    starts := hp
    starts_read := hread.trans h.starts_read
    whole := h.whole_of_known hknown }

theorem feedAuxIn (h : s.Sound made emitted) {p : Inlet UInt8 τ} {r : Record UInt8 τ}
    {e : Inlet.Event UInt8 τ} (he : s.inserter.auxIn.meet s.auxIn e = .ok (p, r)) :
    ({ s with inserter := { s.inserter with auxIn := p }, auxIn := r } : Session α τ).Sound made
      emitted := by
  obtain ⟨hp, hwidth, hread, hrecord⟩ := h.auxIn.meet he
  have hknown : s.known <+: slotsOf s.inserter.length s.input s.starts r
      (min (s.input.data.length / s.inserter.length) (min s.starts.data.length r.data.length)) := by
    rcases hrecord with rfl | ⟨data, tags, -, rfl⟩
    · exact List.prefix_refl _
    · have hle : s.count ≤ s.auxIn.data.length :=
        Nat.le_trans (Nat.min_le_right _ _) (Nat.min_le_right _ _)
      rw [known, ← slotsOf_append_auxIn hle data tags, h.auxIn_width]
      refine slotsOf_prefix ?_
      rw [count, Record.append, List.length_append]
      omega
  exact { h with
    auxIn_width := hwidth.trans h.auxIn_width
    auxIn := hp
    auxIn_read := hread.trans h.auxIn_read
    whole := h.whole_of_known hknown }

theorem readOutput (h : s.Sound made emitted) {p : Outlet α τ} {r : Record α τ} {e : Outlet.Event}
    (he : s.inserter.output.meet s.output e = .ok (p, r)) :
    ({ s with inserter := { s.inserter with output := p }, output := r } : Session α τ).Sound made
      emitted := by
  obtain ⟨hp, hwidth, htotal⟩ := h.output.meet he
  exact { h with
    output_width := hwidth.trans h.output_width
    output := hp
    output_eq := htotal.trans h.output_eq }

theorem readFlags (h : s.Sound made emitted) {p : Outlet UInt8 τ} {r : Record UInt8 τ}
    {e : Outlet.Event} (he : s.inserter.flags.meet s.flags e = .ok (p, r)) :
    ({ s with inserter := { s.inserter with flags := p }, flags := r } : Session α τ).Sound made
      emitted := by
  obtain ⟨hp, hwidth, htotal⟩ := h.flags.meet he
  exact { h with
    flags_width := hwidth.trans h.flags_width
    flags := hp
    flags_eq := htotal.trans h.flags_eq }

theorem readAuxOut (h : s.Sound made emitted) {p : Outlet UInt8 τ} {r : Record UInt8 τ}
    {e : Outlet.Event} (he : s.inserter.auxOut.meet s.auxOut e = .ok (p, r)) :
    ({ s with inserter := { s.inserter with auxOut := p }, auxOut := r } : Session α τ).Sound made
      emitted := by
  obtain ⟨hp, hwidth, htotal⟩ := h.auxOut.meet he
  exact { h with
    auxOut_width := hwidth.trans h.auxOut_width
    auxOut := hp
    auxOut_eq := htotal.trans h.auxOut_eq }

/-! ### A call of work -/

theorem length_of_mem_known (h : s.Sound made emitted) :
    ∀ x ∈ s.known, x.symbol.length = s.inserter.length := by
  intro x hx
  obtain ⟨i, hi, rfl⟩ := List.mem_map.1 hx
  have hlt := List.mem_range.1 hi
  have hpos : 0 < s.inserter.length := h.input_width ▸ s.inserter.input.width_pos
  have hcount : i + 1 ≤ s.input.data.length / s.inserter.length := by
    rw [count] at hlt
    omega
  have hle := (Nat.le_div_iff_mul_le hpos).1 hcount
  rw [Nat.succ_mul] at hle
  rw [slotAt, List.length_take, List.length_drop]
  omega

theorem length_of_mem_walk (h : s.Sound made emitted) (room : Nat) :
    ∀ e ∈ (advance s.inserter.preamble s.source s.inserter.phase
      (s.known.drop s.inserter.input.read) room).emitted, e.symbol.length = s.inserter.length :=
  length_of_mem_advance s.inserter.preamble_length _
    (fun x hx => h.length_of_mem_known x (List.mem_of_mem_drop hx)) _

/-- Emissions are as many items as they are symbols. -/
theorem items_of_lengths (h : s.Sound made emitted) {es : List (Emission α τ)}
    (hes : ∀ e ∈ es, e.symbol.length = s.inserter.length) :
    (es.flatMap (·.symbol)).length / s.inserter.output.width = es.length := by
  rw [length_flatMap_of_length hes, ← h.output_width,
    Nat.mul_div_cancel _ s.inserter.output.width_pos]

/-- The number of symbols that were put to the outlet. -/
theorem written_eq (h : s.Sound made emitted) : s.inserter.output.written = emitted.length := by
  rw [h.output.written_eq, h.output_eq, h.items_of_lengths h.lengths]

/-- What a walk emits is no longer ahead. -/
theorem whole_of_walk (h : s.Sound made emitted) (room : Nat) (later : List (Slot α τ)) :
    let walk := advance s.inserter.preamble s.source s.inserter.phase
      (s.known.drop s.inserter.input.read) room
    emitted ++ walk.emitted ++ ahead s.inserter.preamble s.source walk.phase (walk.rest ++ later) =
      emissions s.inserter.preamble s.source false (s.known ++ later) := by
  intro walk
  rw [List.append_assoc, advance_whole, h.whole later]

section Work

variable [Inhabited α]

/-- **A call of work moves symbols from what is ahead to what was emitted.** -/
theorem work (h : s.Sound made emitted) {d : PreambleInserter α τ} {finished : Bool}
    (hwork : s.inserter.work s.source = .ok (d, finished)) :
    ∃ more, ({ s with inserter := d } : Session α τ).Sound made (emitted ++ more) := by
  obtain ⟨slots, walk, output, flags, auxOut, input, starts, auxIn, hslots, hwalk, houtput, hflags,
    hauxOut, hinput, hstarts, hauxIn, rfl, -⟩ := work_eq_ok_iff.1 hwork
  obtain ⟨-, hle, hpending⟩ := h.slots_eq
  obtain rfl : slots = s.known.drop s.inserter.input.read := by
    rw [hpending] at hslots
    cases hslots
    rfl
  have hlengths := h.length_of_mem_walk s.inserter.room
  have hwhole := h.whole_of_walk s.inserter.room
  rw [← hwalk] at hlengths hwhole
  have hrest : walk.rest <:+ s.known.drop s.inserter.input.read := by
    rw [hwalk]
    exact advance_rest _ _ _ _ _
  have hplaces : ∀ t ∈ placedTags s.inserter.output.written walk.emitted,
      s.inserter.output.written ≤ t.index ∧ t.index < s.inserter.output.written +
        (walk.emitted.flatMap (·.symbol)).length / s.inserter.output.width := by
    intro t ht
    rw [h.items_of_lengths hlengths]
    exact index_of_mem_placedTags ht
  obtain ⟨hgave, hwidth, -, htotal⟩ := h.output.emit _ hplaces houtput
  obtain ⟨hgaveFlags, hwidthFlags, -, htotalFlags⟩ := h.flags.put hflags
  obtain ⟨hgaveAux, hwidthAux, -, htotalAux⟩ := h.auxOut.put hauxOut
  obtain ⟨hinputWidth, hinputRead⟩ := Inlet.consume_frame hinput
  obtain ⟨hstartsWidth, hstartsRead⟩ := Inlet.consume_frame hstarts
  obtain ⟨hauxWidth, hauxRead⟩ := Inlet.consume_frame hauxIn
  refine ⟨walk.emitted,
    { preamble_eq := h.preamble_eq
      length_eq := h.length_eq
      input_width := hinputWidth.trans h.input_width
      starts_width := hstartsWidth.trans h.starts_width
      auxIn_width := hauxWidth.trans h.auxIn_width
      output_width := hwidth.trans h.output_width
      flags_width := hwidthFlags.trans h.flags_width
      auxOut_width := hwidthAux.trans h.auxOut_width
      input := h.input.consume hinput
      starts := h.starts.consume hstarts
      auxIn := h.auxIn.consume hauxIn
      output := hgave
      flags := hgaveFlags
      auxOut := hgaveAux
      starts_read := by rw [hstartsRead, hinputRead, h.starts_read]
      auxIn_read := by rw [hauxRead, hinputRead, h.auxIn_read]
      lengths := ?_
      output_eq := ?_
      flags_eq := ?_
      auxOut_eq := ?_
      whole := fun later => ?_ }⟩
  · intro e he
    rcases List.mem_append.1 he with he | he
    · exact h.lengths e he
    · exact hlengths e he
  · rw [htotal, h.output_eq, h.written_eq, List.flatMap_append, placedTags_append, Nat.zero_add]
  · rw [htotalFlags, h.flags_eq, List.map_append]
  · rw [htotalAux, h.auxOut_eq, List.map_append]
  · have hleft : s.known.drop input.read = walk.rest := by
      rw [hinputRead, ← List.drop_drop]
      exact (List.suffix_iff_eq_drop.1 hrest).symm
    show emitted ++ walk.emitted ++ ahead s.inserter.preamble s.source walk.phase
      (s.known.drop input.read ++ later) = _
    rw [hleft]
    exact hwhole later

/-- **A call of work returns**, and then no symbol is left that is known with its flags, or there is
no room. -/
theorem work_returns (h : s.Sound made emitted) :
    ∃ d finished, s.inserter.work s.source = .ok (d, finished) ∧ (d.ready = 0 ∨ d.room = 0) := by
  obtain ⟨hready, -, hslots⟩ := h.slots_eq
  have hcount : (s.known.drop s.inserter.input.read).length = s.inserter.ready := by
    rw [List.length_drop, length_known, hready]
  obtain ⟨-, hstops⟩ := advance_stops s.inserter.preamble s.source s.inserter.phase
    (s.known.drop s.inserter.input.read) s.inserter.room
  obtain ⟨d, finished, hwork, -, hadvanced⟩ :=
    exists_work hslots hcount (fun x hx => h.length_of_mem_known x (List.mem_of_mem_drop hx))
      h.output_width h.flags_width h.auxOut_width s.source
  have hleft := hadvanced.ready_add
  have hplaces := hadvanced.room_add
  refine ⟨d, finished, hwork, hstops.imp (fun hrest => ?_) fun hfull => ?_⟩
  · rw [hrest, List.length_nil] at hleft
    omega
  · omega

end Work

/-- **What was emitted for the symbols consumed.** Once all that is known is consumed, it is the
whole reference. -/
theorem emitted_eq (h : s.Sound made emitted) (hready : s.inserter.ready = 0) :
    emitted = emissions made.preamble s.source false s.known := by
  have hwhole := h.whole []
  have hnone : s.known.drop s.inserter.input.read = [] := by
    refine List.drop_eq_nil_of_le ?_
    rw [length_known]
    have hcount := h.slots_eq.1
    omega
  rw [hnone, List.nil_append, ahead_nil, List.append_nil, List.append_nil, h.preamble_eq] at hwhole
  exact hwhole

end Sound

/-! ### The whole session -/

theorem known_start (b : PreambleInserter α τ) (source : String) : (start b source).known = [] := by
  have hcount : (start b source).count = 0 :=
    Nat.le_zero.1 (Nat.le_trans (Nat.min_le_right _ _) (Nat.min_le_left _ _))
  rw [known, hcount]
  rfl

/-- What building an inserter checks, and where it starts. -/
theorem sound_start {length : Nat} {preamble : List (List α)}
    (h : ofPreamble length preamble = .ok made) (source : String) :
    (start made source).Sound made [] ∧ made.length = length ∧ made.preamble = preamble := by
  rw [ofPreamble] at h
  split at h
  · cases h
  · split at h
    · cases h
    · split at h
      · cases h
      · cases h
        refine ⟨?_, rfl, rfl⟩
        exact
          { preamble_eq := rfl
            length_eq := rfl
            input_width := rfl
            starts_width := rfl
            auxIn_width := rfl
            output_width := rfl
            flags_width := rfl
            auxOut_width := rfl
            input := Inlet.holds_fresh rfl rfl rfl
            starts := Inlet.holds_fresh rfl rfl rfl
            auxIn := Inlet.holds_fresh rfl rfl rfl
            output := Outlet.gave_fresh rfl rfl rfl
            flags := Outlet.gave_fresh rfl rfl rfl
            auxOut := Outlet.gave_fresh rfl rfl rfl
            starts_read := rfl
            auxIn_read := rfl
            lengths := fun _ he => absurd he List.not_mem_nil
            output_eq := rfl
            flags_eq := rfl
            auxOut_eq := rfl
            whole := fun later => by rw [known_start]; rfl }

/-- **A session that goes on stays sound**, whatever its events, and emits more. -/
theorem Sound.run [Inhabited α] {t : Session α τ} (h : s.Sound made emitted)
    {events : List (Event α τ)} (hrun : s.run events = .ok t) :
    ∃ more, t.Sound made (emitted ++ more) := by
  refine run_induct (P := fun t => ∃ more, t.Sound made (emitted ++ more)) ?_ ?_ ?_ ?_ ?_ ?_ ?_
    ⟨[], (List.append_nil emitted).symm ▸ h⟩ hrun
  · exact fun s p r e ⟨more, h⟩ hmeet => ⟨more, h.feedInput hmeet⟩
  · exact fun s p r e ⟨more, h⟩ hmeet => ⟨more, h.feedStarts hmeet⟩
  · exact fun s p r e ⟨more, h⟩ hmeet => ⟨more, h.feedAuxIn hmeet⟩
  · exact fun s p r e ⟨more, h⟩ hmeet => ⟨more, h.readOutput hmeet⟩
  · exact fun s p r e ⟨more, h⟩ hmeet => ⟨more, h.readFlags hmeet⟩
  · exact fun s p r e ⟨more, h⟩ hmeet => ⟨more, h.readAuxOut hmeet⟩
  · intro s d finished ⟨more, h⟩ hwork
    obtain ⟨further, hfurther⟩ := h.work hwork
    exact ⟨more ++ further, List.append_assoc emitted more further ▸ hfurther⟩

/-- **Every session is sound**, whatever its events. -/
theorem exists_sound [Inhabited α] {length : Nat} {preamble : List (List α)}
    (h : ofPreamble length preamble = .ok made) {source : String} {events : List (Event α τ)}
    (hrun : (start made source).run events = .ok s) : ∃ emitted, s.Sound made emitted :=
  (sound_start h source).1.run hrun

/-- A session keeps the name that its tags are given. -/
theorem source_run [Inhabited α] {t : Session α τ} {events : List (Event α τ)}
    (hrun : s.run events = .ok t) : t.source = s.source := by
  refine run_induct (P := fun t => t.source = s.source) ?_ ?_ ?_ ?_ ?_ ?_ ?_ rfl hrun
  · exact fun _ _ _ _ h _ => h
  · exact fun _ _ _ _ h _ => h
  · exact fun _ _ _ _ h _ => h
  · exact fun _ _ _ _ h _ => h
  · exact fun _ _ _ _ h _ => h
  · exact fun _ _ _ _ h _ => h
  · exact fun _ _ _ h _ => h

end Session

end PreambleInserter

end OfdmBurst
