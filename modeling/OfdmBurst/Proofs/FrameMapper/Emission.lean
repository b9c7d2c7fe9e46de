import Mathlib.Data.List.Forall2
import OfdmBurst.Proofs.Frame.Bursts
import OfdmBurst.Proofs.FrameMapper.Run
import OfdmBurst.Proofs.FrameMapper.Symbol
import OfdmBurst.Proofs.Stream.Items

/-!
# What a mapper emits

A mapper emits the bursts of the messages its queue accepted, one behind the other, in order,
however often it is called and however much room it is granted. Messages that end the stream and
messages that no header can describe have no burst.

`Session.Sound` is the invariant, and again its heart is one equation: what was emitted, what is left
of the burst that is going on, and the bursts of the messages that wait, are the bursts of the
messages accepted.

## Main definitions

* `Item`, `items` — the symbols of a burst by their groups, with their two flags and their time
* `timeMarks` — the tags that their times are
* `Session.Sound` — the invariant

## Main results

* `Session.Sound.send` — a symbol moves from what is left to what was emitted
* `Session.sound` — every session is sound
* `Session.Sound.work_returns` — a call of work returns
-/

namespace OfdmBurst

namespace FrameMapper

/-- A symbol of a burst: its groups, whether it is the first or the last, and its time. -/
structure Item where
  groups : List Nat
  first : Bool
  last : Bool
  time : Option (Timestamp Float)

/-- Symbol `s` of a burst of these bytes. The first symbol has the time of the burst. -/
def item (bits carriers : Nat) (bytes : List UInt8) (time : Option (Timestamp Float)) (s : Nat) :
    Item where
  groups := patternsAt bits carriers bytes s
  first := s == 0
  last := s + 1 == symbolCount (carriers * bits) bytes
  time := if s = 0 then time else none

/-- The symbols of a burst of these bytes. -/
def items (bits carriers : Nat) (bytes : List UInt8) (time : Option (Timestamp Float)) : List Item :=
  (List.range (symbolCount (carriers * bits) bytes)).map (item bits carriers bytes time)

/-- The symbols of the bursts of messages. -/
def itemsOf (bits carriers : Nat) (messages : List Message) : List Item :=
  (messages.filter Message.isSendable).flatMap fun m => items bits carriers m.frameBytes m.time

/-! ### Messages and bursts -/

/-- Taking messages passes over those without a burst. -/
theorem filter_nextBurst {messages waiting : List Message} {next : Next}
    (h : nextBurst messages = (next, waiting)) :
    (∀ b, next = .burst b → ∃ m, Burst.ofMessage m = .ok b ∧
      messages.filter Message.isSendable = m :: waiting.filter Message.isSendable) ∧
    ((∀ b, next ≠ .burst b) →
      messages.filter Message.isSendable = waiting.filter Message.isSendable) := by
  induction messages with
  | nil =>
    cases h
    exact ⟨fun _ hb => Next.noConfusion hb, fun _ => rfl⟩
  | cons m rest ih =>
    rw [nextBurst] at h
    split at h
    next htype =>
      cases h
      have hno : ¬ m.isSendable = true := by simp [Message.isSendable, htype]
      exact ⟨fun _ hb => Next.noConfusion hb, fun _ => by rw [List.filter_cons, if_neg hno]⟩
    next htype =>
      split at h
      next b hb =>
        cases h
        refine ⟨fun b' hb' => ?_, fun hne => absurd rfl (hne b)⟩
        cases hb'
        refine ⟨m, hb, ?_⟩
        rw [List.filter_cons, if_pos (Burst.isSendable_of_ofMessage htype hb)]
      next e he =>
        have hno : ¬ m.isSendable = true := by
          intro hyes
          obtain ⟨b, hb⟩ := Burst.ofMessage_of_isSendable hyes
          rw [hb] at he
          cases he
        rw [List.filter_cons, if_neg hno]
        exact ih h

/-! ### The invariant -/

/-- The flag of a symbol. -/
def Item.flag (i : Item) : UInt8 := if i.first then 1 else 0

/-- The end flag of a symbol. -/
def Item.endFlag (i : Item) : UInt8 := if i.last then 1 else 0

/-- Whoever stands on the right has a partner on the left. -/
theorem exists_of_forall₂_mem {α β : Type} {R : α → β → Prop} {xs : List α} {ys : List β}
    (h : List.Forall₂ R xs ys) {y : β} (hy : y ∈ ys) : ∃ x ∈ xs, R x y := by
  obtain ⟨k, hk, rfl⟩ := List.getElem_of_mem hy
  have hk' : k < xs.length := h.length_eq ▸ hk
  exact ⟨xs[k], List.getElem_mem hk', (List.forall₂_iff_get.1 h).2 k hk' hk⟩

/-- The times that symbols are tagged with, the first of them at `index`. -/
def timeMarks (index : Nat) (items : List Item) : List (Tag Float) :=
  (items.zipIdx index).flatMap fun p => timeMark p.2 p.1.time

theorem timeMarks_singleton (index : Nat) (i : Item) :
    timeMarks index [i] = timeMark index i.time := List.append_nil _

theorem le_of_mem_timeMarks {index : Nat} {items : List Item} {t : Tag Float}
    (h : t ∈ timeMarks index items) : index ≤ t.index := by
  obtain ⟨p, hp, ht⟩ := List.mem_flatMap.1 h
  obtain ⟨time, -, rfl⟩ := List.mem_map.1 ht
  exact List.le_snd_of_mem_zipIdx hp

theorem timeMarks_append (index : Nat) (xs ys : List Item) :
    timeMarks index (xs ++ ys) = timeMarks index xs ++ timeMarks (index + xs.length) ys := by
  rw [timeMarks, List.zipIdx_append, List.flatMap_append]
  rfl

/-- The time of one of the symbols. -/
theorem filter_timeMarks {items : List Item} {k : Nat} {i : Item} (h : items[k]? = some i)
    (index : Nat) :
    (timeMarks index items).filter (·.index == index + k) = timeMark (index + k) i.time := by
  induction items generalizing index k with
  | nil => cases h
  | cons j rest ih =>
    rw [← List.singleton_append, timeMarks_append, timeMarks_singleton, List.length_singleton,
      List.filter_append]
    cases k with
    | zero =>
      cases h
      have hown : (timeMark index i.time).filter (·.index == index) = timeMark index i.time := by
        refine List.filter_eq_self.2 fun t ht => ?_
        obtain ⟨time, -, rfl⟩ := List.mem_map.1 ht
        exact beq_self_eq_true index
      have hothers : (timeMarks (index + 1) rest).filter (·.index == index) = [] := by
        refine List.filter_eq_nil_iff.2 fun t ht => ?_
        have hle := le_of_mem_timeMarks ht
        rw [beq_iff_eq]
        omega
      rw [Nat.add_zero, hown, hothers, List.append_nil]
    | succ k =>
      have hother : (timeMark index j.time).filter (·.index == index + (k + 1)) = [] := by
        refine List.filter_eq_nil_iff.2 fun t ht => ?_
        obtain ⟨time, -, rfl⟩ := List.mem_map.1 ht
        rw [beq_iff_eq]
        exact Nat.ne_of_lt (Nat.lt_add_of_pos_right (Nat.succ_pos k))
      have hrest := ih h (index + 1)
      rw [Nat.add_assoc, Nat.add_comm 1 k] at hrest
      rw [hother, List.nil_append, hrest]

/-- What is left of a burst. -/
def Left (bits carriers : Nat) (burst : Option Burst) (rest : List Item) : Prop :=
  match burst with
  | none => rest = []
  | some b => ∃ bytes n, b.At bytes (carriers * bits) n ∧ n < symbolCount (carriers * bits) bytes ∧
      rest = (items bits carriers bytes b.time).drop n

theorem drop_items {bits carriers n : Nat} {bytes : List UInt8} {time : Option (Timestamp Float)}
    (h : n < symbolCount (carriers * bits) bytes) :
    (items bits carriers bytes time).drop n =
      item bits carriers bytes time n :: (items bits carriers bytes time).drop (n + 1) := by
  rw [items, List.drop_eq_getElem_cons (by simpa using h), List.getElem_map, List.getElem_range]

section Cursor

variable {bits carriers n : Nat} {b : Burst} {bytes : List UInt8}

/-- The flag of the symbol at a cursor. -/
theorem flag_of_at (h : b.At bytes (carriers * bits) n) (time : Option (Timestamp Float)) :
    (if b.fresh then 1 else 0) = (item bits carriers bytes time n).flag := by
  rw [h.fresh_eq]
  rfl

/-- The end flag of the symbol at a cursor: the bytes are sent after the last symbol. -/
theorem endFlag_of_at (hcapacity : 0 < carriers * bits) (h : b.At bytes (carriers * bits) n)
    (hn : n < symbolCount (carriers * bits) bytes) (time : Option (Timestamp Float)) :
    (if (b.after (carriers * bits)).isDone then 1 else 0) =
      (item bits carriers bytes time n).endFlag := by
  have hdone : (b.after (carriers * bits)).isDone =
      (n + 1 == symbolCount (carriers * bits) bytes) := by
    rw [h.after.isDone hcapacity, Bool.eq_iff_iff, decide_eq_true_iff, beq_iff_eq]
    omega
  rw [hdone]
  rfl

/-- The time of the symbol at a cursor: it goes with the first one. -/
theorem time_of_at (h : b.At bytes (carriers * bits) n) :
    (if b.fresh then b.time else none) = (item bits carriers bytes b.time n).time := by
  simp only [item, h.fresh_eq, decide_eq_true_eq]

end Cursor

/-- A cursor at its end leaves nothing, and any other leaves the symbols from its own on. -/
theorem left_of_at {bits carriers n : Nat} (h : 0 < carriers * bits) {b : Burst}
    {bytes : List UInt8} (hat : b.At bytes (carriers * bits) n) :
    Left bits carriers (if b.isDone then none else some b)
      ((items bits carriers bytes b.time).drop n) := by
  rw [hat.isDone h]
  by_cases hdone : symbolCount (carriers * bits) bytes ≤ n
  · rw [decide_eq_true hdone, if_pos rfl, Left]
    refine List.drop_eq_nil_of_le ?_
    rw [items, List.length_map, List.length_range]
    exact hdone
  · rw [decide_eq_false hdone, if_neg Bool.false_ne_true, Left]
    exact ⟨bytes, n, hat, Nat.lt_of_not_le hdone, rfl⟩

namespace Session

/-- A mapper that nobody has used yet, with an empty queue. -/
def start (mapper : FrameMapper) (limit : Nat) : Session := { mapper, queue := { limit } }

/-- Everything emitted so far, taken or not: the scalars of the symbols. -/
def symbolsOut (s : Session) : List Sample := (s.mapper.symbols.total s.symbols).data

/-- Everything emitted so far, taken or not: the flags. -/
def flagsOut (s : Session) : List UInt8 := (s.mapper.flags.total s.flags).data

/-- Everything emitted so far, taken or not: the end flags. -/
def endsOut (s : Session) : List UInt8 := (s.mapper.ends.total s.ends).data

/-- **The invariant of a session** of a mapper like `made`, in which `emitted` was emitted and `rest`
is left of the burst that is going on. -/
structure Sound (made : FrameMapper) (s : Session) (emitted rest : List Item) : Prop where
  /-- The constellation is the one the mapper was built with. -/
  constellation_eq : s.mapper.constellation = made.constellation
  /-- So is the carrier map. -/
  map_eq : s.mapper.map = made.map
  /-- So is the length of a symbol. -/
  fft_eq : s.mapper.fft = made.fft
  /-- Symbols are put out whole. -/
  symbols_width : s.mapper.symbols.width = made.fft
  /-- Flags are put out one by one. -/
  flags_width : s.mapper.flags.width = 1
  /-- End flags are put out one by one. -/
  ends_width : s.mapper.ends.width = 1
  /-- The record of the symbols is what was taken of them. -/
  symbols : s.mapper.symbols.Gave s.symbols
  /-- The record of the flags is what was taken of them. -/
  flags : s.mapper.flags.Gave s.flags
  /-- The record of the end flags is what was taken of them. -/
  ends : s.mapper.ends.Gave s.ends
  /-- The samples put out are the symbols of the items emitted. -/
  made_of : ∃ symbols, List.Forall₂ (fun i x => made.symbolOf i.groups = .ok x) emitted symbols ∧
    s.symbolsOut = symbols.flatten
  /-- The tags put out are the times of the items emitted. -/
  times_eq : (s.mapper.symbols.total s.symbols).tags.map Tag.unsourced = timeMarks 0 emitted
  /-- The flags put out are those of the items emitted. -/
  flags_eq : s.flagsOut = emitted.map Item.flag
  /-- The end flags put out are those of the items emitted. -/
  ends_eq : s.endsOut = emitted.map Item.endFlag
  /-- What is left of the burst in the mapper is `rest`. -/
  left : Left made.constellation.bits made.map.size s.mapper.burst rest
  /-- What was emitted, what is left and what waits is all that was accepted. -/
  whole : emitted ++ rest ++ itemsOf made.constellation.bits made.map.size s.queue.messages =
    itemsOf made.constellation.bits made.map.size s.accepted

variable {made : FrameMapper} {s : Session} {emitted rest : List Item}

namespace Sound

theorem readSymbols (h : s.Sound made emitted rest) {p : Outlet Sample Float}
    {r : Record Sample Float} {e : Outlet.Event}
    (he : s.mapper.symbols.meet s.symbols e = .ok (p, r)) :
    ({ s with mapper := { s.mapper with symbols := p }, symbols := r } : Session).Sound made emitted
      rest := by
  obtain ⟨hp, hwidth, htotal⟩ := h.symbols.meet he
  obtain ⟨symbols, hmade, hout⟩ := h.made_of
  exact { h with
    symbols_width := hwidth.trans h.symbols_width
    symbols := hp
    made_of := ⟨symbols, hmade, (congrArg Record.data htotal).trans hout⟩
    times_eq := htotal ▸ h.times_eq }

theorem readFlags (h : s.Sound made emitted rest) {p : Outlet UInt8 Float} {r : Record UInt8 Float}
    {e : Outlet.Event} (he : s.mapper.flags.meet s.flags e = .ok (p, r)) :
    ({ s with mapper := { s.mapper with flags := p }, flags := r } : Session).Sound made emitted
      rest := by
  obtain ⟨hp, hwidth, htotal⟩ := h.flags.meet he
  exact { h with
    flags_width := hwidth.trans h.flags_width
    flags := hp
    flags_eq := (congrArg Record.data htotal).trans h.flags_eq }

theorem readEnds (h : s.Sound made emitted rest) {p : Outlet UInt8 Float} {r : Record UInt8 Float}
    {e : Outlet.Event} (he : s.mapper.ends.meet s.ends e = .ok (p, r)) :
    ({ s with mapper := { s.mapper with ends := p }, ends := r } : Session).Sound made emitted
      rest := by
  obtain ⟨hp, hwidth, htotal⟩ := h.ends.meet he
  exact { h with
    ends_width := hwidth.trans h.ends_width
    ends := hp
    ends_eq := (congrArg Record.data htotal).trans h.ends_eq }

theorem enqueue (h : s.Sound made emitted rest) {m : Message} {queue : MessageQueue}
    (hm : s.queue.enqueue? m = some queue) :
    ({ s with queue, accepted := s.accepted ++ [m] } : Session).Sound made emitted rest := by
  have hmessages := (MessageQueue.messages_enqueue? hm).1
  have hwhole := h.whole
  refine { h with whole := ?_ }
  simp only [itemsOf, hmessages, List.filter_append, List.flatMap_append] at hwhole ⊢
  rw [← List.append_assoc, hwhole]

theorem skip (h : s.Sound made emitted rest) {next : Next} {waiting : List Message}
    (hnext : nextBurst s.queue.messages = (next, waiting)) (hne : ∀ b, next ≠ .burst b) :
    ({ s with queue := { s.queue with messages := waiting } } : Session).Sound made emitted rest := by
  have hwhole := h.whole
  refine { h with whole := ?_ }
  rw [itemsOf, (filter_nextBurst hnext).2 hne] at hwhole
  exact hwhole

/-- A burst is begun: nothing was left, and now all of it is. -/
theorem load (h : s.Sound made emitted rest) (hcapacity : 0 < made.map.size * made.constellation.bits)
    {b : Burst} {waiting : List Message} (hburst : s.mapper.burst = none)
    (hnext : nextBurst s.queue.messages = (.burst b, waiting)) :
    ∃ rest', ({ s with mapper := { s.mapper with burst := some b },
                       queue := { s.queue with messages := waiting } } : Session).Sound made emitted
      rest' := by
  obtain ⟨m, hm, hfilter⟩ := (filter_nextBurst hnext).1 b rfl
  obtain ⟨hat, hpos⟩ := Burst.at_of_ofMessage hm hcapacity
  have hleft := h.left
  rw [hburst] at hleft
  have hnone : rest = [] := hleft
  have hwhole := h.whole
  refine ⟨items made.constellation.bits made.map.size m.frameBytes m.time, { h with
    left := ⟨m.frameBytes, 0, hat, hpos, by rw [Burst.time_of_ofMessage hm, List.drop_zero]⟩
    whole := ?_ }⟩
  rw [itemsOf, hfilter, List.flatMap_cons, hnone, List.append_nil, ← List.append_assoc] at hwhole
  exact hwhole

/-- Symbols have the width that the mapper was built for. -/
theorem length_symbolsOut (h : s.Sound made emitted rest) :
    s.symbolsOut.length = emitted.length * made.fft := by
  obtain ⟨symbols, hmade, hout⟩ := h.made_of
  have hlengths : ∀ x ∈ symbols, x.length = made.fft := by
    intro x hx
    obtain ⟨i, -, hi⟩ := exists_of_forall₂_mem hmade hx
    exact length_symbolOf hi
  rw [hout, hmade.length_eq, ← List.flatMap_id]
  exact length_flatMap_of_length hlengths

theorem fft_pos (h : s.Sound made emitted rest) : 0 < made.fft :=
  h.symbols_width ▸ s.mapper.symbols.width_pos

/-- The number of symbols that were put to the outlet. -/
theorem written_eq (h : s.Sound made emitted rest) : s.mapper.symbols.written = emitted.length := by
  rw [h.symbols.written_eq, h.symbols_width]
  show s.symbolsOut.length / made.fft = emitted.length
  rw [h.length_symbolsOut, Nat.mul_div_cancel _ h.fft_pos]

/-- **A symbol moves from what is left to what was emitted.** -/
theorem send (h : s.Sound made emitted rest) (hcapacity : 0 < made.map.size * made.constellation.bits)
    {b : Burst} {next : FrameMapper} (hburst : s.mapper.burst = some b)
    (hsent : Sent s.mapper b next) :
    ∃ i rest', ({ s with mapper := next } : Session).Sound made (emitted ++ [i]) rest' := by
  have hleft := h.left
  rw [hburst] at hleft
  obtain ⟨bytes, n, hat, hn, hrest⟩ := hleft
  have hbits : s.mapper.map.size * s.mapper.constellation.bits =
      made.map.size * made.constellation.bits := by rw [h.map_eq, h.constellation_eq]
  cases hsent with
  | @mk symbol marks symbols flags ends hsymbol hmarks hsymbols hflags hends =>
    rw [hbits] at hends
    have hlength : symbol.length = s.mapper.symbols.width := by
      rw [length_symbolOf hsymbol, h.fft_eq, h.symbols_width]
    rw [symbolOf_congr h.constellation_eq h.map_eq h.fft_eq, h.constellation_eq, h.map_eq,
      hat.groups] at hsymbol
    have hplace : ∀ t ∈ marks, s.mapper.symbols.written ≤ t.index ∧
        t.index < s.mapper.symbols.written + symbol.length / s.mapper.symbols.width := by
      intro t ht
      rw [index_of_timeMark hmarks t ht, hlength, Nat.div_self s.mapper.symbols.width_pos]
      exact ⟨Nat.le_refl _, Nat.lt_succ_self _⟩
    obtain ⟨hgave, hwidth, -, htotal⟩ := h.symbols.emit marks hplace hsymbols
    obtain ⟨hgaveFlags, hwidthFlags, -, htotalFlags⟩ := h.flags.put hflags
    obtain ⟨hgaveEnds, hwidthEnds, -, htotalEnds⟩ := h.ends.put hends
    obtain ⟨before, hbefore, hout⟩ := h.made_of
    rw [drop_items hn] at hrest
    refine ⟨item made.constellation.bits made.map.size bytes b.time n,
      (items made.constellation.bits made.map.size bytes b.time).drop (n + 1), { h with
      symbols_width := hwidth.trans h.symbols_width
      flags_width := hwidthFlags.trans h.flags_width
      ends_width := hwidthEnds.trans h.ends_width
      symbols := hgave
      flags := hgaveFlags
      ends := hgaveEnds
      made_of := ⟨before ++ [symbol], List.rel_append hbefore (.cons hsymbol .nil), ?_⟩
      times_eq := ?_
      flags_eq := ?_
      ends_eq := ?_
      left := ?_
      whole := ?_ }⟩
    · rw [List.flatten_append, List.flatten_singleton, ← hout]
      exact congrArg Record.data htotal
    · rw [htotal, List.map_append, h.times_eq, hmarks, time_of_at hat, h.written_eq,
        timeMarks_append, timeMarks_singleton, Nat.zero_add]
    · rw [List.map_append, ← h.flags_eq, List.map_singleton, ← flag_of_at hat]
      exact congrArg Record.data htotalFlags
    · rw [List.map_append, ← h.ends_eq, List.map_singleton, ← endFlag_of_at hcapacity hat hn]
      exact congrArg Record.data htotalEnds
    · simp only [hbits]
      exact left_of_at hcapacity hat.after
    · have hwhole := h.whole
      rw [hrest] at hwhole
      rw [List.append_assoc emitted, List.singleton_append]
      exact hwhole

/-- With room for a symbol, a symbol is sent. -/
theorem send_returns (h : s.Sound made emitted rest) {b : Burst}
    (hburst : s.mapper.burst = some b) (hroom : s.mapper.room ≠ 0) (source : String) :
    ∃ next, s.mapper.send source b = .ok next ∧ next.room = s.mapper.room - 1 := by
  have hleft := h.left
  rw [hburst] at hleft
  obtain ⟨bytes, n, hat, -, -⟩ := hleft
  have hgroups := hat.groups
  rw [← h.constellation_eq, ← h.map_eq] at hgroups
  have hlt : ∀ g ∈ b.groups s.mapper.constellation.bits s.mapper.map.size,
      g < 2 ^ s.mapper.constellation.bits := by
    intro g hg
    rw [hgroups] at hg
    exact lt_of_mem_patternsAt hg
  obtain ⟨symbol, hsymbol⟩ := symbolOf_returns hlt
  have hlength : symbol.length = s.mapper.symbols.width := by
    rw [length_symbolOf hsymbol, h.fft_eq, h.symbols_width]
  rw [room] at hroom
  have hone : ∀ {p : Outlet UInt8 Float} (flag : UInt8), p.width = 1 → [flag].length = p.width :=
    fun _ hp => hp.symm
  obtain ⟨flags, hflags⟩ := Outlet.exists_put (p := s.mapper.flags)
    (hone (if b.fresh then 1 else 0) h.flags_width) (by omega)
  obtain ⟨ends, hends⟩ := Outlet.exists_put (p := s.mapper.ends)
    (hone (if (b.after (s.mapper.map.size * s.mapper.constellation.bits)).isDone then 1 else 0)
      h.ends_width) (by omega)
  -- the symbol can be put whatever its marks
  have hput : ∀ marks, ∃ p, (s.mapper.symbols.attachAll marks).put symbol = .ok p ∧
      p.room = s.mapper.symbols.room - 1 := by
    intro marks
    obtain ⟨p, hp⟩ := Outlet.exists_put (p := s.mapper.symbols.attachAll marks) hlength
      (show s.mapper.symbols.room ≠ 0 by omega)
    have hsymbolsRoom := Outlet.room_put _ hp
    rw [hlength, Nat.div_self s.mapper.symbols.width_pos] at hsymbolsRoom
    exact ⟨p, hp, hsymbolsRoom⟩
  choose symbols hsymbols hsymbolsRoom using hput
  refine ⟨_, Fault.bind_eq_ok_iff.2 ⟨symbol, hsymbol, Fault.bind_eq_ok_iff.2 ⟨symbols _, hsymbols _,
    Fault.bind_eq_ok_iff.2 ⟨flags, hflags, Fault.bind_eq_ok_iff.2 ⟨ends, hends, rfl⟩⟩⟩⟩, ?_⟩
  have hflagsRoom := Outlet.room_put (p := s.mapper.flags) [] hflags
  have hendsRoom := Outlet.room_put (p := s.mapper.ends) [] hends
  rw [List.length_singleton, h.flags_width, Nat.div_one] at hflagsRoom
  rw [List.length_singleton, h.ends_width, Nat.div_one] at hendsRoom
  show min (symbols _).room (min flags.room ends.room) = s.mapper.room - 1
  rw [room, hsymbolsRoom]
  omega

/-- **A call of work returns.** Then the room is used up, or the end of the stream was met, or
nothing is left to send. -/
theorem work_returns (h : s.Sound made emitted rest) (hbits : 0 < made.constellation.bits)
    (source : String) :
    ∃ turn, s.mapper.work source s.queue = .ok turn ∧
      (turn.block.room = 0 ∨ turn.finished = true ∨
        turn.block.burst = none ∧ turn.queue.messages = []) := by
  have hcapacity : 0 < made.map.size * made.constellation.bits :=
    Nat.mul_pos made.map.size_pos hbits
  refine fill_returns (P := fun m q => ∃ emitted rest,
    ({ s with mapper := m, queue := q } : Session).Sound made emitted rest) ?_ ?_ ?_ rfl
    ⟨emitted, rest, h⟩
  · rintro m queue b waiting ⟨emitted, rest, h⟩ hburst hnext
    obtain ⟨rest', h⟩ := h.load hcapacity hburst hnext
    exact ⟨emitted, rest', h⟩
  · rintro m queue b next ⟨emitted, rest, h⟩ hburst hsent
    obtain ⟨i, rest', h⟩ := h.send hcapacity hburst hsent
    exact ⟨emitted ++ [i], rest', h⟩
  · rintro m queue b ⟨emitted, rest, h⟩ hburst hroom
    exact h.send_returns hburst hroom source

end Sound

/-! ### The whole session -/

theorem sound_start {constellation : Constellation Float32} {map : CarrierMap} {fft : Nat}
    (h : ofParts constellation map fft = .ok made) (limit : Nat) :
    (start made limit).Sound made [] [] ∧
      made.constellation = constellation ∧ made.map = map ∧ made.fft = fft := by
  refine ⟨?_, parts_of_ofParts h⟩
  rw [ofParts] at h
  split at h
  · cases h
  · split at h
    · cases h
      exact
        { constellation_eq := rfl
          map_eq := rfl
          fft_eq := rfl
          symbols_width := rfl
          flags_width := rfl
          ends_width := rfl
          symbols := Outlet.gave_fresh rfl rfl rfl
          flags := Outlet.gave_fresh rfl rfl rfl
          ends := Outlet.gave_fresh rfl rfl rfl
          made_of := ⟨[], .nil, rfl⟩
          times_eq := rfl
          flags_eq := rfl
          ends_eq := rfl
          left := rfl
          whole := rfl }
    · cases h

/-- **Every session is sound.** -/
theorem sound {t : Session} {events : List Event} (h : s.Sound made emitted rest)
    (hbits : 0 < made.constellation.bits) (hrun : s.run events = .ok t) :
    ∃ emitted rest, t.Sound made emitted rest := by
  have hcapacity : 0 < made.map.size * made.constellation.bits :=
    Nat.mul_pos made.map.size_pos hbits
  refine run_induct (P := fun s => ∃ emitted rest, s.Sound made emitted rest)
    ?_ ?_ ?_ ?_ ?_ ?_ ?_ ⟨emitted, rest, h⟩ hrun
  · rintro s m queue ⟨emitted, rest, h⟩ hm
    exact ⟨emitted, rest, h.enqueue hm⟩
  · rintro s p r e ⟨emitted, rest, h⟩ hmeet
    exact ⟨emitted, rest, h.readSymbols hmeet⟩
  · rintro s p r e ⟨emitted, rest, h⟩ hmeet
    exact ⟨emitted, rest, h.readFlags hmeet⟩
  · rintro s p r e ⟨emitted, rest, h⟩ hmeet
    exact ⟨emitted, rest, h.readEnds hmeet⟩
  · rintro s next waiting ⟨emitted, rest, h⟩ - hnext hne
    exact ⟨emitted, rest, h.skip hnext hne⟩
  · rintro s b waiting ⟨emitted, rest, h⟩ hburst hnext
    obtain ⟨rest', h⟩ := h.load hcapacity hburst hnext
    exact ⟨emitted, rest', h⟩
  · rintro s b next ⟨emitted, rest, h⟩ hburst hsent
    obtain ⟨i, rest', h⟩ := h.send hcapacity hburst hsent
    exact ⟨emitted ++ [i], rest', h⟩

end Session

/-! ### Burst by burst -/

/-- The flags of a burst of `n` symbols. -/
def flagsOf (n : Nat) : List UInt8 := (List.range n).map fun s => if s = 0 then 1 else 0

/-- The end flags of a burst of `n` symbols. -/
def endsOf (n : Nat) : List UInt8 := (List.range n).map fun s => if s + 1 = n then 1 else 0

theorem length_endsOf (n : Nat) : (endsOf n).length = n := by
  rw [endsOf, List.length_map, List.length_range]

theorem endsOf_succ (n : Nat) : endsOf (n + 1) = List.replicate n 0 ++ [1] := by
  rw [endsOf, List.range_succ, List.map_append, List.map_singleton, if_pos rfl]
  congr 1
  refine List.eq_replicate_iff.2 ⟨by rw [List.length_map, List.length_range], fun b hb => ?_⟩
  obtain ⟨s, hs, rfl⟩ := List.mem_map.1 hb
  exact if_neg fun hlast => Nat.ne_of_lt (List.mem_range.1 hs) (Nat.succ.inj hlast)

theorem length_items (bits carriers : Nat) (bytes : List UInt8) (time : Option (Timestamp Float)) :
    (items bits carriers bytes time).length = symbolCount (carriers * bits) bytes := by
  rw [items, List.length_map, List.length_range]

theorem flags_items (bits carriers : Nat) (bytes : List UInt8) (time : Option (Timestamp Float)) :
    (items bits carriers bytes time).map Item.flag =
      flagsOf (symbolCount (carriers * bits) bytes) := by
  rw [items, List.map_map, flagsOf]
  refine List.map_congr_left fun s _ => ?_
  simp only [Function.comp_apply, Item.flag, item, beq_iff_eq]

theorem ends_items (bits carriers : Nat) (bytes : List UInt8) (time : Option (Timestamp Float)) :
    (items bits carriers bytes time).map Item.endFlag =
      endsOf (symbolCount (carriers * bits) bytes) := by
  rw [items, List.map_map, endsOf]
  refine List.map_congr_left fun s _ => ?_
  simp only [Function.comp_apply, Item.endFlag, item, beq_iff_eq]

/-- What the symbols of a burst hold. -/
theorem carries_of_items {m : FrameMapper} (hnodup : m.map.carriers.Nodup) {bytes : List UInt8}
    {time : Option (Timestamp Float)} {burst : List (List Sample)}
    (h : List.Forall₂ (fun i x => m.symbolOf i.groups = .ok x)
      (items m.constellation.bits m.map.size bytes time) burst) :
    List.Forall₂ m.Carries (patterns m.constellation.bits m.map.size bytes) burst := by
  rw [items, List.forall₂_map_left_iff] at h
  rw [patterns, List.forall₂_map_left_iff]
  exact h.imp fun s x hx => carries_of_symbolOf hnodup (length_patternsAt _ _ _ s) hx

theorem flatMap_eq_of_forall₂ {α β γ : Type} {f : α → List γ} {g : β → List γ} {xs : List α}
    {ys : List β} (h : List.Forall₂ (fun x y => f x = g y) xs ys) : xs.flatMap f = ys.flatMap g := by
  induction h with
  | nil => rfl
  | cons hxy _ ih => rw [List.flatMap_cons, List.flatMap_cons, hxy, ih]

/-- Pairs over lists put together fall apart into pairs over the lists. -/
theorem forall₂_flatMap {α β γ : Type} {R : β → γ → Prop} {f : α → List β} {xs : List α}
    {ys : List γ} (h : List.Forall₂ R (xs.flatMap f) ys) :
    ∃ blocks, ys = blocks.flatten ∧
      List.Forall₂ (fun x block => List.Forall₂ R (f x) block) xs blocks := by
  induction xs generalizing ys with
  | nil =>
    cases h
    exact ⟨[], rfl, .nil⟩
  | cons x rest ih =>
    rw [List.flatMap_cons] at h
    have hflip := h.flip
    obtain ⟨blocks, hys, hblocks⟩ := ih (List.forall₂_drop_append _ _ _ hflip).flip
    refine ⟨ys.take (f x).length :: blocks, ?_, .cons ?_ hblocks⟩
    · rw [List.flatten_cons, ← hys, List.take_append_drop]
    · exact (List.forall₂_take_append _ _ _ hflip).flip

/-- A mapper that has sent everything has emitted the symbols of all bursts. -/
theorem Session.Sound.emitted_eq {made : FrameMapper} {s : Session} {emitted rest : List Item}
    (h : s.Sound made emitted rest) (hqueue : s.queue.messages = [])
    (hburst : s.mapper.burst = none) :
    emitted = itemsOf made.constellation.bits made.map.size s.accepted := by
  have hleft := h.left
  rw [hburst] at hleft
  have hrest : rest = [] := hleft
  have hwhole := h.whole
  rw [hrest, hqueue, List.append_nil] at hwhole
  exact (List.append_nil _).symm.trans hwhole

/-- **The bursts of a mapper that has sent everything**: one for each message that has one, with the
groups of its bytes on the data carriers, flagged at its first symbol, and as ending at its last. -/
theorem Session.Sound.bursts {made : FrameMapper} {s : Session} {emitted rest : List Item}
    (h : s.Sound made emitted rest) (hnodup : made.map.carriers.Nodup)
    (hqueue : s.queue.messages = []) (hburst : s.mapper.burst = none) :
    ∃ bursts : List (List (List Sample)), s.symbolsOut = bursts.flatten.flatten ∧
      List.Forall₂ (fun m burst => List.Forall₂ made.Carries
        (patterns made.constellation.bits made.map.size m.frameBytes) burst)
        (s.accepted.filter Message.isSendable) bursts ∧
      s.flagsOut = bursts.flatMap (fun b => flagsOf b.length) ∧
      s.endsOut = bursts.flatMap (fun b => endsOf b.length) := by
  have hemitted := h.emitted_eq hqueue hburst
  obtain ⟨symbols, hmade, hout⟩ := h.made_of
  rw [hemitted, itemsOf] at hmade
  obtain ⟨bursts, rfl, hbursts⟩ := forall₂_flatMap hmade
  refine ⟨bursts, hout, hbursts.imp fun m burst hm => carries_of_items hnodup hm, ?_, ?_⟩
  · rw [h.flags_eq, hemitted, itemsOf, List.map_flatMap]
    refine flatMap_eq_of_forall₂ (hbursts.imp fun m burst hm => ?_)
    rw [flags_items, ← hm.length_eq, length_items]
  · rw [h.ends_eq, hemitted, itemsOf, List.map_flatMap]
    refine flatMap_eq_of_forall₂ (hbursts.imp fun m burst hm => ?_)
    rw [ends_items, ← hm.length_eq, length_items]

end FrameMapper

end OfdmBurst
