import OfdmBurst.Proofs.CyclicPrefixer.Marks
import OfdmBurst.Proofs.FrameMapper.Emission
import OfdmBurst.Proofs.PreambleInserter.Marks
import OfdmBurst.Proofs.Stream.Comparison

/-!
# The marks of a transmitter

A transmitter is a mapper, an inserter and a prefixer, each fed with what the one before it has put
out. Its bursts are marked on the samples: the first sample of a burst starts it and has its time,
and the last one ends it.

On their way the marks change their form twice. For the mapper, the start and the end of a burst are
bytes beside its symbols, and a time is a tag. The inserter makes a start mark of the first byte and
puts it in front of the preamble, with the time, and passes on the other byte. The prefixer makes
an end mark of it. Each of the three has been described on its own, by `Item`, `IsBurst` and
`endMarks`. What is left to say here is that the symbols of the mapper are bursts to the inserter,
and to count.

## Main definitions

* `Span`, `spans` — where bursts are among the samples
* `Span.tags` — the marks of a burst
* `Slot.Shows` — a symbol of a mapper on the inlets of an inserter

## Main results

* `forall₂_shows` — an inserter that is fed by a mapper knows its symbols
* `isBurst_of_shows` — and takes those of a message for a burst
* `transmitter_marks_bursts` — where the marks are
-/

namespace OfdmBurst

/-! ### Where bursts are -/

/-- Where a burst is among the samples, and when it is to be sent. -/
structure Span where
  first : Nat
  last : Nat
  time : Option (Timestamp Float)
deriving DecidableEq

/-- The bursts of messages, one behind the other. Each has a preamble of `preamble` symbols, and a
symbol has become `size` samples. -/
def spans (preamble size capacity : Nat) (first : Nat) : List Message → List Span
  | [] => []
  | m :: rest =>
    let next := first + (preamble + m.symbols capacity) * size
    ⟨first, next - 1, m.time⟩ :: spans preamble size capacity next rest

/-- The mark of the end of a burst. -/
def Span.endTag (source : String) (s : Span) : Tag Float :=
  { index := s.last, key := Tag.txEnd, value := .flag, source := some source }

/-- The marks of a burst, by the names of the two blocks that make them. -/
def Span.tags (starter ender : String) (s : Span) : List (Tag Float) :=
  PreambleInserter.startMarks starter s.first s.time ++ [s.endTag ender]

section Spans

variable {preamble size capacity first : Nat} {messages : List Message}

theorem le_of_mem_bounds (hsize : 0 < size) (hpreamble : 0 < preamble) {n : Nat}
    (h : n ∈ (spans preamble size capacity first messages).flatMap fun s => [s.first, s.last]) :
    first ≤ n := by
  induction messages generalizing first with
  | nil => cases h
  | cons m rest ih =>
    have hlong : 0 < (preamble + m.symbols capacity) * size := Nat.mul_pos (by omega) hsize
    simp only [spans, List.flatMap_cons, List.mem_append, List.mem_pair] at h
    rcases h with (rfl | rfl) | h
    · exact Nat.le_refl _
    · omega
    · have hle := ih h
      omega

/-- **Bursts start and end in turn.** -/
theorem pairwise_bounds (hsize : 0 < size) (hpreamble : 0 < preamble) (hcapacity : 0 < capacity) :
    ((spans preamble size capacity first messages).flatMap fun s => [s.first, s.last]).Pairwise
      (· < ·) := by
  induction messages generalizing first with
  | nil => exact .nil
  | cons m rest ih =>
    -- with the preamble there are two symbols at least, so no burst ends where it starts
    have hsymbols := m.symbols_pos hcapacity
    have hlong : 2 * 1 ≤ (preamble + m.symbols capacity) * size :=
      Nat.mul_le_mul (by omega) hsize
    simp only [spans, List.flatMap_cons, List.pairwise_append, List.pairwise_pair, List.mem_pair]
    refine ⟨by omega, ih, fun a ha b hb => ?_⟩
    have hbehind := le_of_mem_bounds hsize hpreamble hb
    omega

end Spans

/-! ### The symbols of a mapper are bursts to an inserter -/

open FrameMapper PreambleInserter

/-- A symbol of a mapper, as an inserter knows it. -/
structure PreambleInserter.Slot.Shows (i : Item) (s : Slot Sample Float) : Prop where
  /-- It starts a burst if it is the first of its burst. -/
  starts : s.starts = i.first
  /-- The end flag goes with it. -/
  aux : s.aux = i.endFlag
  /-- It says when the burst is to be sent. -/
  time : s.time? = i.time
  /-- Nothing else is said of it. -/
  own : ∀ t ∈ s.tags, isBurstTag t = true

/-- A time that was put on a symbol by whatever name is the time of the symbol, and nothing else is
on it. -/
theorem time_of_timeMark {s : Slot Sample Float} {index : Nat} {time : Option (Timestamp Float)}
    (h : s.tags.map Tag.unsourced = timeMark index time) :
    s.time? = time ∧ ∀ t ∈ s.tags, isBurstTag t = true := by
  cases time with
  | none =>
    have hnone : s.tags = [] := List.map_eq_nil_iff.1 h
    rw [Slot.time?, hnone]
    exact ⟨rfl, fun _ ht => absurd ht List.not_mem_nil⟩
  | some time =>
    obtain ⟨t, htags, ht⟩ := List.map_eq_singleton_iff.1 h
    have hkey : t.key = Tag.txTime := congrArg Tag.key ht
    have hvalue : t.value = .time time := congrArg Tag.value ht
    rw [Slot.time?, htags]
    constructor
    · have hkeep : [t].filter (fun t => t.key == Tag.txTime || t.key == Tag.syncTime) = [t] := by
        rw [List.filter_cons_of_pos (by rw [hkey]; rfl), List.filter_nil]
      rw [hkeep]
      show t.time? = some time
      rw [Tag.time?, hvalue]
    · intro u hu
      rw [List.mem_singleton.1 hu, isBurstTag, hkey]
      rfl

theorem flag_and_one (i : Item) : (i.flag &&& 1 != 0) = i.first := by
  rw [Item.flag]
  cases i.first <;> rfl

theorem getD_map {f : Item → UInt8} {items : List Item} {k : Nat} (hk : k < items.length) :
    (items.map f).getD k 0 = f items[k] := by
  rw [List.getD_eq_getElem?_getD, List.getElem?_map, List.getElem?_eq_getElem hk]
  rfl

/-- **An inserter that is fed by a mapper knows its symbols.** -/
theorem forall₂_shows {mapper : FrameMapper} {m : FrameMapper.Session} {emitted rest : List Item}
    (hm : m.Sound mapper emitted rest) {i : PreambleInserter.Session Sample Float}
    (hlength : i.inserter.length = mapper.fft)
    (hsymbols : i.input = m.mapper.symbols.total m.symbols) (hflags : i.starts.data = m.flagsOut)
    (hends : i.auxIn.data = m.endsOut) : List.Forall₂ Slot.Shows emitted i.known := by
  have hcount : i.count = emitted.length := by
    have hsymbolsOut : i.input.data.length = emitted.length * mapper.fft :=
      (congrArg (·.data.length) hsymbols).trans hm.length_symbolsOut
    rw [PreambleInserter.Session.count, hsymbolsOut, hlength, Nat.mul_div_cancel _ hm.fft_pos,
      hflags, hends, hm.flags_eq, hm.ends_eq, List.length_map, List.length_map, Nat.min_self,
      Nat.min_self]
  rw [PreambleInserter.Session.known, hcount]
  refine List.forall₂_iff_get.2 ⟨(length_slotsOf ..).symm, fun k hk hk' => ?_⟩
  simp only [List.get_eq_getElem, slotsOf, List.getElem_map, List.getElem_range]
  -- the names of the tags are the mapper's business, so they are compared without
  have htags : (i.input.tags.filter (·.index == k)).map Tag.unsourced =
      timeMark k emitted[k].time := by
    have hmarks := filter_timeMarks (List.getElem?_eq_getElem hk) 0
    rw [Nat.zero_add, ← hm.times_eq, ← hsymbols, List.filter_map] at hmarks
    exact hmarks
  obtain ⟨htime, hown⟩ := time_of_timeMark
    (s := slotAt i.inserter.length i.input i.starts i.auxIn k) htags
  refine ⟨?_, ?_, htime, hown⟩
  · have hflag : i.starts.data.getD k 0 = emitted[k].flag := by
      rw [hflags, hm.flags_eq, getD_map hk]
    rw [slotAt, hflag, flag_and_one]
  · show i.auxIn.data.getD k 0 = emitted[k].endFlag
    rw [hends, hm.ends_eq, getD_map hk]

/-- **An inserter takes the symbols of a message for a burst**, and passes on that the last one ends
it. -/
theorem isBurst_of_shows {bits carriers : Nat} {bytes : List UInt8}
    {time : Option (Timestamp Float)} {block : List (Slot Sample Float)}
    (hpos : 0 < symbolCount (carriers * bits) bytes)
    (h : List.Forall₂ Slot.Shows (items bits carriers bytes time) block) :
    IsBurst time block ∧ block.length = symbolCount (carriers * bits) bytes ∧
      block.map (·.aux) = endsOf (symbolCount (carriers * bits) bytes) := by
  refine ⟨?_, by rw [← h.length_eq, length_items], ?_⟩
  · obtain ⟨n, hn⟩ := Nat.exists_eq_succ_of_ne_zero (Nat.ne_of_gt hpos)
    rw [items, hn, List.range_succ_eq_map, List.map_cons] at h
    cases h with
    | @cons _ first _ others hfirst hothers =>
      refine ⟨hfirst.starts, fun s hs => ?_, hfirst.time, fun s hs => ?_⟩
      · obtain ⟨i, hi, hshows⟩ := exists_of_forall₂_mem hothers hs
        rw [List.map_map] at hi
        obtain ⟨k, -, rfl⟩ := List.mem_map.1 hi
        exact hshows.starts
      · rcases List.mem_cons.1 hs with rfl | hs
        · exact hfirst.own
        · obtain ⟨i, -, hshows⟩ := exists_of_forall₂_mem hothers hs
          exact hshows.own
  · rw [← ends_items bits carriers bytes time, ← List.forall₂_eq_eq_eq, List.forall₂_map_left_iff,
      List.forall₂_map_right_iff]
    exact (h.imp fun i s hshows => hshows.aux).flip

/-- The symbols of a message come to an inserter as a burst, as many as the message fills, and the
last one is passed on as its end. -/
structure Message.Comes (capacity : Nat) (m : Message) (block : List (Slot Sample Float)) : Prop where
  /-- The first symbol starts a burst and says when, and no other one does. -/
  burst : IsBurst m.time block
  /-- There are as many symbols as the bits of the message fill. -/
  length_eq : block.length = m.symbols capacity
  /-- The last one is flagged as the end. -/
  aux_eq : block.map (·.aux) = endsOf (m.symbols capacity)

/-- **All that an inserter knows are the bursts of the messages**, once the mapper has sent them. -/
theorem exists_comes {mapper : FrameMapper} {m : FrameMapper.Session} {emitted rest : List Item}
    (hm : m.Sound mapper emitted rest) (hbits : 0 < mapper.constellation.bits)
    (hqueue : m.queue.messages = []) (hburst : m.mapper.burst = none)
    {known : List (Slot Sample Float)} (h : List.Forall₂ Slot.Shows emitted known) :
    ∃ blocks, known = blocks.flatten ∧
      List.Forall₂ (Message.Comes (mapper.map.size * mapper.constellation.bits))
        (m.accepted.filter Message.isSendable) blocks := by
  have hcapacity : 0 < mapper.map.size * mapper.constellation.bits :=
    Nat.mul_pos mapper.map.size_pos hbits
  rw [hm.emitted_eq hqueue hburst, itemsOf] at h
  obtain ⟨blocks, hknown, hblocks⟩ := forall₂_flatMap h
  have hsendable : ∀ x ∈ m.accepted.filter Message.isSendable, x.isSendable = true := fun x hx =>
    (List.mem_filter.1 hx).2
  refine ⟨blocks, hknown, ((List.forall₂_and_left _ _).2 ⟨hsendable, hblocks⟩).imp
    fun x block hx => ?_⟩
  obtain ⟨hsendable, hshows⟩ := hx
  have hcount := symbolCount_frameBytes (mapper.map.size * mapper.constellation.bits) hsendable
  obtain ⟨hisBurst, hlength, haux⟩ := isBurst_of_shows
    (by rw [hcount]; exact x.symbols_pos hcapacity) hshows
  rw [hcount] at hlength haux
  exact ⟨hisBurst, hlength, haux⟩

/-! ### Counting -/

section Counting

variable {preamble : List (List Sample)} {starter ender : String} {size capacity : Nat}
  {messages : List Message} {blocks : List (List (Slot Sample Float))}

theorem map_scaled_startMarks (source : String) (index : Nat) (time : Option (Timestamp Float)) :
    (startMarks source index time).map (Tag.scaled size) = startMarks source (index * size) time := by
  cases time <;> rfl

/-- The end of a burst is marked on its last sample. -/
theorem endMarks_endsOf {n : Nat} (hn : 0 < n) (index : Nat) :
    CyclicPrefixer.endMarks (τ := Float) size ender index (endsOf n) =
      [{ index := (index + n) * size - 1, key := Tag.txEnd, value := .flag,
         source := some ender }] := by
  obtain ⟨n, rfl⟩ := Nat.exists_eq_succ_of_ne_zero (Nat.ne_of_gt hn)
  rw [endsOf_succ, CyclicPrefixer.endMarks_append, CyclicPrefixer.endMarks_replicate_zero,
    List.length_replicate, List.nil_append, CyclicPrefixer.endMarks_singleton_one]
  rfl

/-- **Where the start marks are**, with the times. -/
theorem startMarks_of_comes (hpreamble : preamble ≠ [])
    (h : List.Forall₂ (Message.Comes capacity) messages blocks) (index : Nat) :
    (placedTags index (blocks.flatMap (withPreamble preamble starter))).map (Tag.scaled size) =
      (spans preamble.length size capacity (index * size) messages).flatMap fun s =>
        startMarks starter s.first s.time := by
  induction h generalizing index with
  | nil => rfl
  | @cons m block messages blocks hcomes _ ih =>
    rw [List.flatMap_cons, placedTags_append, List.map_append,
      placedTags_withPreamble hpreamble hcomes.burst, length_withPreamble hcomes.burst,
      hcomes.length_eq, map_scaled_startMarks, ih, Nat.add_mul]
    rfl

/-- **Where the end marks are.** -/
theorem endMarks_of_comes (hcapacity : 0 < capacity)
    (h : List.Forall₂ (Message.Comes capacity) messages blocks) (index : Nat) :
    CyclicPrefixer.endMarks size ender index
        ((blocks.flatMap (withPreamble preamble starter)).map (·.aux)) =
      (spans preamble.length size capacity (index * size) messages).map (Span.endTag ender) := by
  induction h generalizing index with
  | nil => rfl
  | @cons m block messages blocks hcomes _ ih =>
    rw [List.flatMap_cons, List.map_append, CyclicPrefixer.endMarks_append,
      aux_withPreamble hcomes.burst, CyclicPrefixer.endMarks_append,
      CyclicPrefixer.endMarks_replicate_zero, List.nil_append, hcomes.aux_eq,
      endMarks_endsOf (m.symbols_pos hcapacity), List.length_append, List.length_replicate,
      length_endsOf, Nat.add_assoc, ih, Nat.add_mul]
    rfl

/-- **Where the samples end**: behind the last burst. -/
theorem length_of_comes (hcapacity : 0 < capacity) (hsize : 0 < size)
    (h : List.Forall₂ (Message.Comes capacity) messages blocks) (index : Nat) :
    (index + (blocks.flatMap (withPreamble preamble starter)).length) * size =
      (spans preamble.length size capacity (index * size) messages).getLast?.elim (index * size)
        (·.last + 1) := by
  induction h generalizing index with
  | nil => rfl
  | @cons m block messages blocks hcomes _ ih =>
    have hlong : 0 < (preamble.length + m.symbols capacity) * size :=
      Nat.mul_pos (Nat.add_pos_right _ (m.symbols_pos hcapacity)) hsize
    rw [List.flatMap_cons, List.length_append, length_withPreamble hcomes.burst, hcomes.length_eq,
      ← Nat.add_assoc, ih, Nat.add_mul, spans, List.getLast?_cons]
    cases (spans preamble.length size capacity
      (index * size + (preamble.length + m.symbols capacity) * size) messages).getLast? with
    | none =>
      simp only [Option.elim, Option.getD]
      omega
    | some s => rfl

/-- An inserter that has consumed the bursts of messages has emitted them with their preambles. -/
theorem emitted_of_comes {made : PreambleInserter Sample Float}
    {s : PreambleInserter.Session Sample Float} {emitted : List (Emission Sample Float)}
    (hs : s.Sound made emitted) (hready : s.inserter.ready = 0) (hknown : s.known = blocks.flatten)
    (h : List.Forall₂ (Message.Comes capacity) messages blocks) :
    emitted = blocks.flatMap (withPreamble made.preamble s.source) := by
  rw [hs.emitted_eq hready, hknown]
  refine emissions_bursts (fun block hblock => ?_) false
  obtain ⟨m, -, hcomes⟩ := exists_of_forall₂_mem h hblock
  exact ⟨m.time, hcomes.burst⟩

end Counting

/-! ### The whole transmitter -/

/-- **The marks of a transmitter**, for any complete constellation of one bit or more, any map, any
preamble and any prefix no longer than a symbol, and any messages, in whatever pieces the three
blocks are run.

None of the three gets stuck: a call of work returns, and it goes as far as what it has got and the
room allow. Once everything is sent and consumed, the tags on the samples are the marks of the
bursts: of each message that has one, the mark of the start and the time, if there is one, on the
first sample, and the mark of the end on the last. Bursts are not interleaved, and the samples end
with the last of them. -/
theorem transmitter_marks_bursts {constellation : Constellation Float32} {map : CarrierMap}
    {fft : Nat} (hbits : 0 < constellation.bits)
    {mapper : FrameMapper} (hmapper : FrameMapper.ofParts constellation map fft = .ok mapper)
    {preamble : List (List Sample)} {inserter : PreambleInserter Sample Float}
    (hinserter : PreambleInserter.ofPreamble fft preamble = .ok inserter)
    {size : Nat} (hsize : size ≤ 2 * fft) {prefixer : CyclicPrefixer Sample Float}
    (hprefixer : CyclicPrefixer.ofSizes fft size = .ok prefixer)
    {limit : Nat} {mapping : List FrameMapper.Event} {m : FrameMapper.Session}
    (hm : (FrameMapper.Session.start mapper limit).run mapping = .ok m)
    {starter : String} {inserting : List (PreambleInserter.Event Sample Float)}
    {i : PreambleInserter.Session Sample Float}
    (hi : (PreambleInserter.Session.start inserter starter).run inserting = .ok i)
    {ender : String} {prefixing : List (CyclicPrefixer.Event Sample Float)}
    {p : CyclicPrefixer.Session Sample Float}
    (hp : (CyclicPrefixer.Session.start prefixer ender).run prefixing = .ok p)
    (hsymbols : i.input = m.mapper.symbols.total m.symbols) (hflags : i.starts.data = m.flagsOut)
    (hends : i.auxIn.data = m.endsOut) (hsent : p.input = i.inserter.output.total i.output)
    (haux : p.ends.data = (i.inserter.auxOut.total i.auxOut).data) :
    let bursts := spans preamble.length size (map.size * constellation.bits) 0
      (m.accepted.filter Message.isSendable)
    (∀ source, ∃ turn, m.mapper.work source m.queue = .ok turn ∧
      (turn.block.room = 0 ∨ turn.finished = true ∨
        turn.block.burst = none ∧ turn.queue.messages = [])) ∧
    (∃ b finished, i.inserter.work i.source = .ok (b, finished) ∧ (b.ready = 0 ∨ b.room = 0)) ∧
    (∃ b finished, p.prefixer.work p.source = .ok (b, finished) ∧
      (b.input.items = 0 ∨ b.output.room < size ∨
        b.ends.connected = true ∧ b.ends.items = 0)) ∧
    (m.queue.messages = [] → m.mapper.burst = none → i.inserter.ready = 0 →
      p.prefixer.input.items = 0 → p.prefixer.ends.items = 0 →
        (p.prefixer.output.total p.output).tags.Perm (bursts.flatMap (Span.tags starter ender)) ∧
        (bursts.flatMap fun b => [b.first, b.last]).Pairwise (· < ·) ∧
        (p.prefixer.output.total p.output).data.length = bursts.getLast?.elim 0 (·.last + 1)) := by
  obtain ⟨hfirst, rfl, rfl, rfl⟩ := FrameMapper.Session.sound_start hmapper limit
  obtain ⟨emitted, rest, hmsound⟩ := FrameMapper.Session.sound hfirst hbits hm
  obtain ⟨-, hlength, rfl⟩ := PreambleInserter.Session.sound_start hinserter starter
  obtain ⟨inserted, hisound⟩ := PreambleInserter.Session.exists_sound hinserter hi
  obtain ⟨-, hinputSize, rfl⟩ := CyclicPrefixer.Session.sound_start hprefixer ender
  obtain ⟨hpsound, hshort⟩ := CyclicPrefixer.Session.exists_sound hprefixer hsize hp
  have hmarked := CyclicPrefixer.Session.exists_marked hprefixer hsize hp
  refine ⟨hmsound.work_returns hbits, hisound.work_returns, hpsound.work_returns hshort,
    fun hqueue hburst hready hitems hendItems => ?_⟩
  have hcapacity : 0 < mapper.map.size * mapper.constellation.bits :=
    Nat.mul_pos mapper.map.size_pos hbits
  have hpos := prefixer.outputSize_pos
  obtain ⟨blocks, hknown, hcomes⟩ := exists_comes hmsound hbits hqueue hburst
    (forall₂_shows hmsound (hisound.length_eq.trans hlength) hsymbols hflags hends)
  have hinserted := emitted_of_comes hisound hready hknown hcomes
  rw [PreambleInserter.Session.source_run hi] at hinserted
  have htags : p.input.tags = placedTags 0 inserted := by rw [hsent, hisound.output_eq]
  have hends : p.ends.data = inserted.map (·.aux) := by rw [haux, hisound.auxOut_eq]
  have hcount : p.input.data.length / prefixer.inputSize = inserted.length := by
    have hitems := hisound.items_of_lengths hisound.lengths
    rw [hisound.output_width, hisound.length_eq, hlength, ← hinputSize] at hitems
    rw [hsent, hisound.output_eq, hitems]
  refine ⟨?_, pairwise_bounds hpos (List.length_pos_iff.2 inserter.preamble_ne) hcapacity, ?_⟩
  · -- the inserter has only put tags on symbols it has emitted, so all of them have moved
    have hperm := hmarked.tags_of_drained hpsound hitems hendItems
      (by rw [hcount, hends, List.length_map]) (fun t ht => by
        rw [hcount, ← Nat.zero_add inserted.length]
        exact (index_of_mem_placedTags (htags ▸ ht)).2)
    rw [htags, hends, hinserted, CyclicPrefixer.Session.source_run hp,
      startMarks_of_comes inserter.preamble_ne hcomes, endMarks_of_comes hcapacity hcomes,
      Nat.zero_mul, List.map_eq_flatMap] at hperm
    exact hperm.trans (List.flatMap_append_perm _ _ _)
  · rw [hpsound.length_total hshort, hpsound.read_of_drained hitems, hcount, hinserted,
      ← Nat.zero_add (List.length _), length_of_comes hcapacity hpos hcomes, Nat.zero_mul]

/-! ### Two messages

The second of two empty messages has a time. With eight bits to a symbol either is four symbols
long, and nine samples are made of each symbol and of the one in front of them. -/

/-- Eight carriers, which all carry data. -/
def eightCarriers : CarrierMap := ⟨List.range 8, 8, by decide, by decide⟩

/-- What happens to the mapper. -/
def twoMessages : List FrameMapper.Event :=
  [.enqueue {}, .enqueue { time := some ⟨3, 0⟩ }, .symbols (.reserve 8), .flags (.reserve 8),
    .ends (.reserve 8), .work "mapper"]

/-- What happens to the inserter behind it. -/
def insertingFrom (m : FrameMapper.Session) : List (PreambleInserter.Event Sample Float) :=
  let symbols := m.mapper.symbols.total m.symbols
  [.input (.push symbols.data symbols.tags), .starts (.push m.flagsOut []),
    .auxIn (.push m.endsOut []), .output (.reserve 10), .flags (.reserve 10), .auxOut (.reserve 10),
    .work]

/-- What happens to the prefixer behind that. -/
def prefixingFrom (i : PreambleInserter.Session Sample Float) :
    List (CyclicPrefixer.Event Sample Float) :=
  let symbols := i.inserter.output.total i.output
  [.input (.push symbols.data symbols.tags),
    .ends (.push (i.inserter.auxOut.total i.auxOut).data []), .output (.reserve 90), .work]

/-- **Two messages are marked** at both ends, and the second has its time. -/
theorem transmitter_marks_bursts_two_messages :
    ∃ (mapper : FrameMapper) (m : FrameMapper.Session) (inserter : PreambleInserter Sample Float)
      (i : PreambleInserter.Session Sample Float) (prefixer : CyclicPrefixer Sample Float)
      (p : CyclicPrefixer.Session Sample Float),
      FrameMapper.ofParts .bpsk eightCarriers 8 = .ok mapper ∧
      (FrameMapper.Session.start mapper 0).run twoMessages = .ok m ∧
      PreambleInserter.ofPreamble 8 [List.replicate 8 Phasor.one] = .ok inserter ∧
      (PreambleInserter.Session.start inserter "inserter").run (insertingFrom m) = .ok i ∧
      CyclicPrefixer.ofSizes 8 9 = .ok prefixer ∧
      (CyclicPrefixer.Session.start prefixer "prefixer").run (prefixingFrom i) = .ok p ∧
      (p.prefixer.output.total p.output).tags.Perm
        [⟨0, Tag.txStart, .flag, some "inserter"⟩, ⟨44, Tag.txEnd, .flag, some "prefixer"⟩,
          ⟨45, Tag.txStart, .flag, some "inserter"⟩,
          ⟨45, Tag.txTime, .time ⟨3, 0⟩, some "inserter"⟩,
          ⟨89, Tag.txEnd, .flag, some "prefixer"⟩] ∧
      (p.prefixer.output.total p.output).data.length = 90 := by
  obtain ⟨mapper, hmapper, h⟩ := Fault.exists_ok_of_any
    (x := FrameMapper.ofParts .bpsk eightCarriers 8)
    (p := fun mapper => ((FrameMapper.Session.start mapper 0).run twoMessages).toOption.any fun m =>
      m.queue.messages.isEmpty && m.mapper.burst.isNone &&
        spans 1 9 8 0 (m.accepted.filter Message.isSendable) ==
          [⟨0, 44, none⟩, ⟨45, 89, some ⟨3, 0⟩⟩] &&
        (PreambleInserter.ofPreamble 8 [List.replicate 8 Phasor.one]).toOption.any fun inserter =>
          ((PreambleInserter.Session.start inserter "inserter").run
            (insertingFrom m)).toOption.any fun i =>
              i.input == m.mapper.symbols.total m.symbols && i.starts.data == m.flagsOut &&
                i.auxIn.data == m.endsOut && i.inserter.ready == 0 &&
              (CyclicPrefixer.ofSizes 8 9).toOption.any fun prefixer =>
                ((CyclicPrefixer.Session.start prefixer "prefixer").run
                  (prefixingFrom i)).toOption.any fun p =>
                    p.input == i.inserter.output.total i.output &&
                      p.ends.data == (i.inserter.auxOut.total i.auxOut).data &&
                      p.prefixer.input.items == 0 && p.prefixer.ends.items == 0)
    (by decide +kernel)
  obtain ⟨m, hm, h⟩ := Fault.exists_ok_of_any h
  simp only [Bool.and_eq_true, beq_iff_eq, List.isEmpty_iff, Option.isNone_iff_eq_none] at h
  obtain ⟨⟨⟨hqueue, hburst⟩, hspans⟩, h⟩ := h
  obtain ⟨inserter, hinserter, h⟩ := Fault.exists_ok_of_any h
  obtain ⟨i, hi, h⟩ := Fault.exists_ok_of_any h
  simp only [Bool.and_eq_true, beq_iff_eq] at h
  obtain ⟨⟨⟨⟨hsymbols, hflags⟩, hends⟩, hready⟩, h⟩ := h
  obtain ⟨prefixer, hprefixer, h⟩ := Fault.exists_ok_of_any h
  obtain ⟨p, hp, h⟩ := Fault.exists_ok_of_any h
  simp only [Bool.and_eq_true, beq_iff_eq] at h
  obtain ⟨⟨⟨hsent, haux⟩, hitems⟩, hendItems⟩ := h
  obtain ⟨-, -, -, hmarks⟩ := transmitter_marks_bursts (by decide) hmapper hinserter (by decide)
    hprefixer hm hi hp hsymbols hflags hends hsent haux
  obtain ⟨htags, -, hlength⟩ := hmarks hqueue hburst hready hitems hendItems
  have hbursts : spans ([List.replicate 8 Phasor.one] : List (List Sample)).length 9
      (eightCarriers.size * Constellation.bpsk.bits) 0 (m.accepted.filter Message.isSendable) =
        [⟨0, 44, none⟩, ⟨45, 89, some ⟨3, 0⟩⟩] := hspans
  rw [hbursts] at htags hlength
  exact ⟨mapper, m, inserter, i, prefixer, p, hmapper, hm, hinserter, hi, hprefixer, hp, htags,
    hlength⟩

end OfdmBurst
