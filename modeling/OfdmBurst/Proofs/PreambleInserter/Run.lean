import OfdmBurst.Proofs.PreambleInserter.Reference
import OfdmBurst.Proofs.Stream.Items

/-!
# Running an inserter

A session is an inserter with the records of its six terminals and with the name that its tags are
given. Symbols, their flags and their auxiliary bytes arrive in pieces of any length and
independently of one another, readers grant room on the three outlets and take what is there, and in
between there are calls of work.

A symbol is known with its flag, its byte and its tags once all of them have arrived. `slotAt` puts
them together from the records, and they stay together however the streams go on.

## Main definitions

* `Session`, `Event`, `Session.act`, `Session.run`
* `Advanced` — what a call of work does to the terminals
* `slotAt`, `slotsOf` — what the records say about the symbols

## Main results

* `work_eq_ok_iff` — what a call of work does
* `exists_work` — a call of work returns
* `Session.run_induct` — what events preserve, a session preserves
* `Session.slots_eq` — the symbols that a call of work looks at
* `slotsOf_append_input`, `slotsOf_append_starts`, `slotsOf_append_auxIn` — streams that go on
-/

namespace OfdmBurst

namespace PreambleInserter

variable {α τ : Type}

/-- An inserter with the records of its terminals, and the name it gives to its tags. -/
structure Session (α τ : Type) where
  inserter : PreambleInserter α τ
  source : String
  input : Record α τ := {}
  starts : Record UInt8 τ := {}
  auxIn : Record UInt8 τ := {}
  output : Record α τ := {}
  flags : Record UInt8 τ := {}
  auxOut : Record UInt8 τ := {}

/-- What can happen to an inserter. -/
inductive Event (α τ : Type) where
  | input (e : Inlet.Event α τ)
  | starts (e : Inlet.Event UInt8 τ)
  | auxIn (e : Inlet.Event UInt8 τ)
  | output (e : Outlet.Event)
  | flags (e : Outlet.Event)
  | auxOut (e : Outlet.Event)
  | work

/-- What a call of work does to the terminals: it consumes `used` items of every inlet and produces
`emitted` items on every outlet. -/
structure Advanced (b d : PreambleInserter α τ) (used emitted : Nat) : Prop where
  input : d.input.read = b.input.read + used ∧ d.input.items + used = b.input.items
  starts : d.starts.read = b.starts.read + used ∧ d.starts.items + used = b.starts.items
  auxIn : d.auxIn.read = b.auxIn.read + used ∧ d.auxIn.items + used = b.auxIn.items
  output : d.output.written = b.output.written + emitted ∧ d.output.room + emitted = b.output.room
  flags : d.flags.written = b.flags.written + emitted ∧ d.flags.room + emitted = b.flags.room
  auxOut : d.auxOut.written = b.auxOut.written + emitted ∧ d.auxOut.room + emitted = b.auxOut.room

namespace Advanced

variable {b d : PreambleInserter α τ} {used emitted : Nat}

/-- What was used is no longer ready. -/
theorem ready_add (h : Advanced b d used emitted) : d.ready + used = b.ready := by
  rw [ready, ready, ← h.input.2, ← h.starts.2, ← h.auxIn.2, Nat.add_min_add_right,
    Nat.add_min_add_right]

/-- What was emitted takes up room. -/
theorem room_add (h : Advanced b d used emitted) : d.room + emitted = b.room := by
  rw [room, room, ← h.output.2, ← h.flags.2, ← h.auxOut.2, Nat.add_min_add_right,
    Nat.add_min_add_right]

end Advanced

section Run

variable [Inhabited α]

/-- A session after an event. -/
def Session.act (s : Session α τ) : Event α τ → Except Fault (Session α τ)
  | .input e => do
    let (p, r) ← s.inserter.input.meet s.input e
    return { s with inserter := { s.inserter with input := p }, input := r }
  | .starts e => do
    let (p, r) ← s.inserter.starts.meet s.starts e
    return { s with inserter := { s.inserter with starts := p }, starts := r }
  | .auxIn e => do
    let (p, r) ← s.inserter.auxIn.meet s.auxIn e
    return { s with inserter := { s.inserter with auxIn := p }, auxIn := r }
  | .output e => do
    let (p, r) ← s.inserter.output.meet s.output e
    return { s with inserter := { s.inserter with output := p }, output := r }
  | .flags e => do
    let (p, r) ← s.inserter.flags.meet s.flags e
    return { s with inserter := { s.inserter with flags := p }, flags := r }
  | .auxOut e => do
    let (p, r) ← s.inserter.auxOut.meet s.auxOut e
    return { s with inserter := { s.inserter with auxOut := p }, auxOut := r }
  | .work => do
    let (b, _) ← s.inserter.work s.source
    return { s with inserter := b }

/-- A session after several events. -/
def Session.run (s : Session α τ) (events : List (Event α τ)) : Except Fault (Session α τ) :=
  events.foldlM Session.act s

/-- **What a call of work does.** -/
theorem work_eq_ok_iff {b d : PreambleInserter α τ} {source : String} {finished : Bool} :
    b.work source = .ok (d, finished) ↔
      ∃ slots walk output flags auxOut input starts auxIn, b.slots = .ok slots ∧
        walk = advance b.preamble source b.phase slots b.room ∧
        (b.output.attachAll (placedTags b.output.written walk.emitted)).put
          (walk.emitted.flatMap (·.symbol)) = .ok output ∧
        b.flags.put (walk.emitted.map (·.flag)) = .ok flags ∧
        b.auxOut.put (walk.emitted.map (·.aux)) = .ok auxOut ∧
        b.input.consume (slots.length - walk.rest.length) = .ok input ∧
        b.starts.consume (slots.length - walk.rest.length) = .ok starts ∧
        b.auxIn.consume (slots.length - walk.rest.length) = .ok auxIn ∧
        d = { b with input, starts, auxIn, output, flags, auxOut, phase := walk.phase } ∧
        finished = (input.closed && walk.rest.isEmpty) := by
  simp only [work, Fault.bind_eq_ok_iff, Fault.pure_eq_ok_iff, Prod.mk.injEq]
  constructor
  · rintro ⟨slots, hslots, output, houtput, flags, hflags, auxOut, hauxOut, input, hinput, starts,
      hstarts, auxIn, hauxIn, hd, hfinished⟩
    exact ⟨slots, _, output, flags, auxOut, input, starts, auxIn, hslots, rfl, houtput, hflags,
      hauxOut, hinput, hstarts, hauxIn, hd.symm, hfinished.symm⟩
  · rintro ⟨slots, _, output, flags, auxOut, input, starts, auxIn, hslots, rfl, houtput, hflags,
      hauxOut, hinput, hstarts, hauxIn, hd, hfinished⟩
    exact ⟨slots, hslots, output, houtput, flags, hflags, auxOut, hauxOut, input, hinput, starts,
      hstarts, auxIn, hauxIn, hd.symm, hfinished.symm⟩

/-- **A call of work returns**, and moves the terminals as far as the walk has come. -/
theorem exists_work {b : PreambleInserter α τ} {slots : List (Slot α τ)}
    (hslots : b.slots = .ok slots) (hcount : slots.length = b.ready)
    (hlengths : ∀ x ∈ slots, x.symbol.length = b.length) (houtput : b.output.width = b.length)
    (hflags : b.flags.width = 1) (hauxOut : b.auxOut.width = 1) (source : String) :
    ∃ d finished, b.work source = .ok (d, finished) ∧
      d.phase = (advance b.preamble source b.phase slots b.room).phase ∧
      Advanced b d (b.ready - (advance b.preamble source b.phase slots b.room).rest.length)
        (advance b.preamble source b.phase slots b.room).emitted.length := by
  have hemitted : ∀ e ∈ (advance b.preamble source b.phase slots b.room).emitted,
      e.symbol.length = b.length :=
    length_of_mem_advance b.preamble_length b.phase hlengths b.room
  obtain ⟨hroom, -⟩ := advance_stops b.preamble source b.phase slots b.room
  generalize hwalk : advance b.preamble source b.phase slots b.room = walk at hemitted hroom
  have hdata := length_flatMap_of_length hemitted
  rw [room] at hroom
  obtain ⟨output, hput, hwritten⟩ := Outlet.exists_put_counts (p := b.output)
    (placedTags b.output.written walk.emitted) (houtput ▸ hdata) (by omega)
  have hflagCount : (walk.emitted.map (·.flag)).length = walk.emitted.length * b.flags.width := by
    rw [hflags, List.length_map, Nat.mul_one]
  have hauxCount : (walk.emitted.map (·.aux)).length = walk.emitted.length * b.auxOut.width := by
    rw [hauxOut, List.length_map, Nat.mul_one]
  obtain ⟨flags, hputFlags, hwrittenFlags⟩ := Outlet.exists_put_counts [] hflagCount (by omega)
  obtain ⟨auxOut, hputAux, hwrittenAux⟩ := Outlet.exists_put_counts [] hauxCount (by omega)
  have hready : b.ready - walk.rest.length ≤ b.ready := Nat.sub_le _ _
  generalize hused : b.ready - walk.rest.length = used at hready
  have hle : used ≤ b.input.items ∧ used ≤ b.starts.items ∧ used ≤ b.auxIn.items := by
    rw [ready] at hready
    omega
  obtain ⟨input, hinput⟩ := Inlet.exists_consume hle.1
  obtain ⟨starts, hstarts⟩ := Inlet.exists_consume hle.2.1
  obtain ⟨auxIn, hauxIn⟩ := Inlet.exists_consume hle.2.2
  refine ⟨_, _, work_eq_ok_iff.2 ⟨slots, walk, output, flags, auxOut, input, starts, auxIn, hslots,
    hwalk.symm, hput, hputFlags, hputAux, ?_, ?_, ?_, rfl, rfl⟩, rfl, ?_⟩
  · rw [hcount, hused, hinput]
  · rw [hcount, hused, hstarts]
  · rw [hcount, hused, hauxIn]
  · exact
      { input := Inlet.counts_consume hle.1 hinput
        starts := Inlet.counts_consume hle.2.1 hstarts
        auxIn := Inlet.counts_consume hle.2.2 hauxIn
        output := hwritten
        flags := hwrittenFlags
        auxOut := hwrittenAux }

/-- **What every event preserves, a session preserves.** -/
theorem Session.run_induct {P : Session α τ → Prop}
    (input : ∀ s p r e, P s → s.inserter.input.meet s.input e = .ok (p, r) →
      P { s with inserter := { s.inserter with input := p }, input := r })
    (starts : ∀ s p r e, P s → s.inserter.starts.meet s.starts e = .ok (p, r) →
      P { s with inserter := { s.inserter with starts := p }, starts := r })
    (auxIn : ∀ s p r e, P s → s.inserter.auxIn.meet s.auxIn e = .ok (p, r) →
      P { s with inserter := { s.inserter with auxIn := p }, auxIn := r })
    (output : ∀ s p r e, P s → s.inserter.output.meet s.output e = .ok (p, r) →
      P { s with inserter := { s.inserter with output := p }, output := r })
    (flags : ∀ s p r e, P s → s.inserter.flags.meet s.flags e = .ok (p, r) →
      P { s with inserter := { s.inserter with flags := p }, flags := r })
    (auxOut : ∀ s p r e, P s → s.inserter.auxOut.meet s.auxOut e = .ok (p, r) →
      P { s with inserter := { s.inserter with auxOut := p }, auxOut := r })
    (work : ∀ s d finished, P s → s.inserter.work s.source = .ok (d, finished) →
      P { s with inserter := d })
    {s t : Session α τ} {events : List (Event α τ)} (hs : P s) (h : s.run events = .ok t) :
    P t := by
  refine Fault.foldlM_induct (fun s e t hs h => ?_) hs h
  cases e with
  | input e =>
    obtain ⟨⟨p, r⟩, hmeet, rfl⟩ := Fault.exists_of_bind_pure h
    exact input s p r e hs hmeet
  | starts e =>
    obtain ⟨⟨p, r⟩, hmeet, rfl⟩ := Fault.exists_of_bind_pure h
    exact starts s p r e hs hmeet
  | auxIn e =>
    obtain ⟨⟨p, r⟩, hmeet, rfl⟩ := Fault.exists_of_bind_pure h
    exact auxIn s p r e hs hmeet
  | output e =>
    obtain ⟨⟨p, r⟩, hmeet, rfl⟩ := Fault.exists_of_bind_pure h
    exact output s p r e hs hmeet
  | flags e =>
    obtain ⟨⟨p, r⟩, hmeet, rfl⟩ := Fault.exists_of_bind_pure h
    exact flags s p r e hs hmeet
  | auxOut e =>
    obtain ⟨⟨p, r⟩, hmeet, rfl⟩ := Fault.exists_of_bind_pure h
    exact auxOut s p r e hs hmeet
  | work =>
    obtain ⟨⟨d, finished⟩, hwork, rfl⟩ := Fault.exists_of_bind_pure h
    exact work s d finished hs hwork

end Run

/-! ### Symbols -/

/-- What the records say about symbol `i`. -/
def slotAt (width : Nat) (input : Record α τ) (starts auxIn : Record UInt8 τ) (i : Nat) :
    Slot α τ where
  symbol := (input.data.drop (i * width)).take width
  starts := starts.data.getD i 0 &&& 1 != 0
  aux := auxIn.data.getD i 0
  tags := input.tags.filter (·.index == i)

/-- What the records say about the first `n` symbols. -/
def slotsOf (width : Nat) (input : Record α τ) (starts auxIn : Record UInt8 τ) (n : Nat) :
    List (Slot α τ) :=
  (List.range n).map (slotAt width input starts auxIn)

section Slots

variable {width : Nat} {input : Record α τ} {starts auxIn : Record UInt8 τ}

theorem slotsOf_add (n k : Nat) :
    slotsOf width input starts auxIn (n + k) =
      slotsOf width input starts auxIn n ++
        (List.range k).map fun i => slotAt width input starts auxIn (n + i) := by
  rw [slotsOf, List.range_add, List.map_append, List.map_map]
  rfl

/-- More symbols, with their tags, do not change those that were there. -/
theorem slotsOf_append_input {n : Nat} (hn : n * width ≤ input.data.length) (hwidth : 0 < width)
    (data : List α) (tags : List (Tag τ)) :
    slotsOf width (input.append width data tags) starts auxIn n =
      slotsOf width input starts auxIn n := by
  refine List.map_congr_left fun i hi => ?_
  have hlt := List.mem_range.1 hi
  have hle : i * width + width ≤ input.data.length := by
    have hmul := Nat.mul_le_mul_right width (Nat.succ_le_of_lt hlt)
    rw [Nat.succ_mul] at hmul
    omega
  have hbehind : n ≤ input.data.length / width := (Nat.le_div_iff_mul_le hwidth).2 hn
  have htags : (input.append width data tags).tags.filter (·.index == i) =
      input.tags.filter (·.index == i) := by
    refine Record.filter_tags_append (fun t ht => ?_) data tags
    rw [beq_iff_eq.1 ht]
    exact Nat.lt_of_lt_of_le hlt hbehind
  simp only [slotAt, htags]
  simp only [Record.append]
  rw [take_drop_append (by omega)]

theorem getD_append_of_lt {xs ys : List UInt8} {i : Nat} (h : i < xs.length) :
    (xs ++ ys).getD i 0 = xs.getD i 0 := by
  rw [List.getD_eq_getElem?_getD, List.getD_eq_getElem?_getD, List.getElem?_append_left h]

theorem slotsOf_append_starts {n : Nat} (hn : n ≤ starts.data.length) (data : List UInt8)
    (tags : List (Tag τ)) :
    slotsOf width input (starts.append 1 data tags) auxIn n =
      slotsOf width input starts auxIn n := by
  refine List.map_congr_left fun i hi => ?_
  have hlt := List.mem_range.1 hi
  simp only [slotAt, Record.append, getD_append_of_lt (Nat.lt_of_lt_of_le hlt hn)]

theorem slotsOf_append_auxIn {n : Nat} (hn : n ≤ auxIn.data.length) (data : List UInt8)
    (tags : List (Tag τ)) :
    slotsOf width input starts (auxIn.append 1 data tags) n =
      slotsOf width input starts auxIn n := by
  refine List.map_congr_left fun i hi => ?_
  have hlt := List.mem_range.1 hi
  simp only [slotAt, Record.append, getD_append_of_lt (Nat.lt_of_lt_of_le hlt hn)]

end Slots

theorem length_slotsOf (width : Nat) (input : Record α τ) (starts auxIn : Record UInt8 τ) (n : Nat) :
    (slotsOf width input starts auxIn n).length = n := by
  rw [slotsOf, List.length_map, List.length_range]

/-- The number of symbols that are known with all that goes with them. -/
def Session.count (s : Session α τ) : Nat :=
  min (s.input.data.length / s.inserter.length) (min s.starts.data.length s.auxIn.data.length)

/-- The symbols that are known with all that goes with them. -/
def Session.known (s : Session α τ) : List (Slot α τ) :=
  slotsOf s.inserter.length s.input s.starts s.auxIn s.count

/-- The symbols that a call of work looks at are those known and not consumed. -/
theorem Session.slots_eq {s : Session α τ} (hinput : s.inserter.input.Holds s.input)
    (hstarts : s.inserter.starts.Holds s.starts) (haux : s.inserter.auxIn.Holds s.auxIn)
    (hinputWidth : s.inserter.input.width = s.inserter.length)
    (hstartsWidth : s.inserter.starts.width = 1) (hauxWidth : s.inserter.auxIn.width = 1)
    (hstartsRead : s.inserter.starts.read = s.inserter.input.read)
    (hauxRead : s.inserter.auxIn.read = s.inserter.input.read) :
    s.inserter.ready = s.count - s.inserter.input.read ∧ s.inserter.input.read ≤ s.count ∧
      s.inserter.slots = .ok (s.known.drop s.inserter.input.read) := by
  have hinputItems := hinput.items_eq
  have hstartsItems := hstarts.items_eq
  have hauxItems := haux.items_eq
  have hinputLe := hinput.read_le_items
  have hstartsLe := hstarts.read_le_items
  have hauxLe := haux.read_le_items
  rw [hinputWidth] at hinputItems hinputLe
  rw [hstartsWidth, hstartsRead, Nat.div_one] at hstartsItems hstartsLe
  rw [hauxWidth, hauxRead, Nat.div_one] at hauxItems hauxLe
  have hready : s.inserter.ready = s.count - s.inserter.input.read := by
    rw [ready, count]
    omega
  have hle : s.inserter.input.read ≤ s.count := by
    rw [count]
    omega
  have hpending : s.known.drop s.inserter.input.read = (List.range s.inserter.ready).map fun i =>
      slotAt s.inserter.length s.input s.starts s.auxIn (s.inserter.input.read + i) := by
    have hcount : s.count = s.inserter.input.read + s.inserter.ready := by omega
    rw [known, hcount, slotsOf_add, List.drop_left' (length_slotsOf ..)]
  refine ⟨hready, hle, ?_⟩
  have hitems : s.inserter.ready ≤ s.inserter.input.items := Nat.min_le_left _ _
  rw [hpending, slots, hinput.firstItems_eq hitems, hinput.firstTags_eq, hstarts.buffer, haux.buffer,
    hinputWidth, hstartsWidth, hauxWidth, hstartsRead, hauxRead, Nat.mul_one]
  refine congrArg Except.ok (List.ext_getElem ?_ fun i h₁ h₂ => ?_)
  · simp only [List.length_map, List.length_zip, List.length_range, List.length_drop]
    rw [count] at hready
    omega
  · have hlt : i < s.inserter.ready := by
      rw [List.length_map, List.length_range] at h₂
      exact h₂
    rw [count] at hready
    have hstart : s.inserter.input.read + i < s.starts.data.length := by omega
    have haux : s.inserter.input.read + i < s.auxIn.data.length := by omega
    simp only [List.getElem_map, List.getElem_zip, List.getElem_range, List.getElem_drop, slotAt,
      List.getD_eq_getElem?_getD, List.getElem?_eq_getElem hstart, List.getElem?_eq_getElem haux,
      Option.getD_some]

end PreambleInserter

end OfdmBurst
