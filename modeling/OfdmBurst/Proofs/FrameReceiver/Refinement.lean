import OfdmBurst.Proofs.Carrier.Map
import OfdmBurst.Proofs.Carrier.Patterns
import OfdmBurst.Proofs.FrameReceiver.Run

/-!
# What a receiver receives

A receiver is the reference parser of its receptions, whatever pieces these arrive in. The invariant
`Session.Sound` says so for the symbols consumed so far: the decoder follows the reference, and the
messages handed to the queue are those of the frames found.

A queue with a limit may be full. Then a message is dropped and counted, so the queue has the frames
found except for as many as were dropped. A queue that has room for all of them has all of them.

## Main results

* `Session.Sound.step` — a symbol is a step of the reference
* `Session.sound` — every session is sound
* `Session.Sound.step_returns`, `Session.Sound.work_returns` — a receiver never gets stuck
* `run_refines_parse` — a receiver is the reference parser
-/

namespace OfdmBurst

/-- The queue can take `n` more messages, even if nobody takes one. -/
def MessageQueue.HasRoom (q : MessageQueue) (n : Nat) : Prop := q.limit = 0 ∨ q.size + n ≤ q.limit

namespace FrameReceiver

namespace Session

/-- A receiver that nobody has used yet, with a queue. -/
def start (receiver : FrameReceiver) (queue : MessageQueue) : Session := { receiver, queue }

/-- What is to be made of the symbols consumed so far. -/
def parsed (policy : MissingTagPolicy) (map : CarrierMap) (fresh : Demapper Float32) (s : Session) :
    Parse :=
  parse policy map fresh
    (receptions map.occupied s.symbols s.flags s.receiver.symbols.read)

/-- The queue was handed these messages since it was as `before`, with `taken` taken from it and
`dropped` dropped. It kept them behind those that were in it, and lost as many as were dropped
since. -/
def Delivered (before : MessageQueue) (taken : List Message) (dropped : Nat) (s : Session)
    (messages : List Message) : Prop :=
  s.queue.limit = before.limit ∧ ∃ out kept : List Message,
    s.taken = taken ++ out ∧ out ++ s.queue.messages = before.messages ++ kept ∧
    kept.Sublist messages ∧ kept.length + s.receiver.dropped = dropped + messages.length ∧
    (before.HasRoom messages.length → s.receiver.dropped = dropped)

/-- **The invariant of a session.** -/
structure Sound (policy : MissingTagPolicy) (map : CarrierMap) (fresh : Demapper Float32)
    (before : MessageQueue) (s : Session) : Prop where
  /-- A symbol has the occupied carriers. -/
  symbols_width : s.receiver.symbols.width = map.occupied
  /-- Flags are consumed one by one. -/
  flags_width : s.receiver.flags.width = 1
  /-- What is put out has the occupied carriers, too. -/
  derotated_width : s.receiver.derotated.width = map.occupied
  /-- The inlet of the symbols holds what is left of its record. -/
  symbols : s.receiver.symbols.Holds s.symbols
  /-- So does the inlet of the flags. -/
  flags : s.receiver.flags.Holds s.flags
  /-- The record of what is put out is what was taken of it. -/
  derotated : s.receiver.derotated.Gave s.derotated
  /-- As many flags were consumed as symbols. -/
  aligned : s.receiver.flags.read = s.receiver.symbols.read
  /-- The decoder is where the reference is. -/
  follows : s.receiver.decoder.Follows policy map fresh (s.parsed policy map fresh).burst
  /-- The queue was handed the frames of the reference, and nothing else. -/
  delivered : ∃ messages, s.Delivered before [] 0 messages ∧
    messages.map Message.view = (s.parsed policy map fresh).frames.map Frame.view

variable {policy : MissingTagPolicy} {map : CarrierMap} {fresh : Demapper Float32}
  {before : MessageQueue} {s : Session}

/-! ### The queue -/

namespace Delivered

variable {taken messages : List Message} {dropped : Nat}

theorem refl (s : Session) : s.Delivered s.queue s.taken s.receiver.dropped [] :=
  ⟨rfl, [], [], by simp, by simp, by simp, by simp, fun _ => rfl⟩

/-- A message that is taken was in the queue. -/
theorem dequeue (h : s.Delivered before taken dropped messages) {m : Message}
    {queue : MessageQueue} (hm : s.queue.dequeue? = some (m, queue)) :
    ({ s with queue, taken := s.taken ++ [m] } : Session).Delivered before taken dropped
      messages := by
  obtain ⟨hlimit, out, kept, htaken, hmessages, hrest⟩ := h
  have hqueue := MessageQueue.messages_dequeue? hm
  refine ⟨hqueue.2.trans hlimit, out ++ [m], kept, ?_, ?_, hrest⟩
  · rw [htaken, List.append_assoc]
  · rw [← hmessages, hqueue.1, List.append_assoc, List.singleton_append]

/-- A message on its way into the queue is one more, kept or dropped. -/
theorem handed (h : s.Delivered before taken dropped messages) {message : Option Message}
    {queue : MessageQueue} {next : FrameReceiver}
    (hhanded : Handed s.queue s.receiver.dropped message queue next.dropped) :
    ({ s with receiver := next, queue } : Session).Delivered before taken dropped
      (messages ++ message.toList) := by
  obtain ⟨hlimit, out, kept, htaken, hmessages, hsublist, hcount, hall⟩ := h
  generalize hdropped : next.dropped = total at hhanded
  cases hhanded with
  | nothing =>
    rw [Option.toList_none, List.append_nil]
    exact ⟨hlimit, out, kept, htaken, hmessages, hsublist, hdropped ▸ hcount,
      fun hroom => hdropped.trans (hall hroom)⟩
  | @kept m _ enqueued =>
    obtain ⟨hq, hl⟩ := MessageQueue.messages_enqueue? enqueued
    refine ⟨hl.trans hlimit, out, kept ++ [m], htaken, ?_, ?_, ?_,
      fun hroom => hdropped.trans (hall ?_)⟩
    · simp only [hq]
      rw [← List.append_assoc, hmessages, List.append_assoc]
    · exact hsublist.append (List.Sublist.refl _)
    · simp only [hdropped, List.length_append, Option.toList_some, List.length_singleton]
      omega
    · rw [List.length_append, MessageQueue.HasRoom] at hroom
      rw [MessageQueue.HasRoom]
      omega
  | @lost m full =>
    refine ⟨hlimit, out, kept, htaken, hmessages, ?_, ?_, fun hroom => ?_⟩
    · exact hsublist.trans (List.sublist_append_left _ _)
    · simp only [hdropped, List.length_append, Option.toList_some, List.length_singleton]
      omega
    · -- The queue holds no more messages than it held before and was handed since.
      have htotal := congrArg List.length hmessages
      have hkept := hsublist.length_le
      rw [List.length_append, List.length_append] at htotal
      simp only [MessageQueue.isFull, Bool.and_eq_true, bne_iff_ne, decide_eq_true_eq,
        MessageQueue.size, hlimit] at full
      rw [MessageQueue.HasRoom, MessageQueue.size, List.length_append, Option.toList_some,
        List.length_singleton] at hroom
      omega

end Delivered

namespace Sound

/-! ### Events -/

/-- More symbols leave the consumed ones as they are. -/
theorem receptions_symbols (h : s.Sound policy map fresh before) {p : Inlet Sample Float}
    {r : Record Sample Float} {e : Inlet.Event Sample Float}
    (he : s.receiver.symbols.meet s.symbols e = .ok (p, r)) :
    receptions map.occupied r s.flags s.receiver.symbols.read =
      receptions map.occupied s.symbols s.flags s.receiver.symbols.read := by
  obtain ⟨-, -, -, rfl | ⟨data, tags, -, rfl⟩⟩ := h.symbols.meet he
  · rfl
  · rw [h.symbols_width, receptions_append_symbols]
    rw [← h.symbols_width]
    exact h.symbols.read_le

/-- More flags leave the consumed ones as they are. -/
theorem receptions_flags (h : s.Sound policy map fresh before) {p : Inlet UInt8 Float}
    {r : Record UInt8 Float} {e : Inlet.Event UInt8 Float}
    (he : s.receiver.flags.meet s.flags e = .ok (p, r)) :
    receptions map.occupied s.symbols r s.receiver.symbols.read =
      receptions map.occupied s.symbols s.flags s.receiver.symbols.read := by
  obtain ⟨-, -, -, rfl | ⟨data, tags, -, rfl⟩⟩ := h.flags.meet he
  · rfl
  · have hle := h.flags.read_le
    rw [h.flags_width, h.aligned, Nat.mul_one] at hle
    rw [h.flags_width, receptions_append_flags hle]

theorem feedSymbols (h : s.Sound policy map fresh before) {p : Inlet Sample Float}
    {r : Record Sample Float} {e : Inlet.Event Sample Float}
    (he : s.receiver.symbols.meet s.symbols e = .ok (p, r)) :
    ({ s with receiver := { s.receiver with symbols := p }, symbols := r } : Session).Sound policy
      map fresh before := by
  obtain ⟨hp, hwidth, hread, -⟩ := h.symbols.meet he
  have hsame : ({ s with receiver := { s.receiver with symbols := p }, symbols := r } :
      Session).parsed policy map fresh = s.parsed policy map fresh := by
    simp only [parsed, hread, h.receptions_symbols he]
  exact { h with
    symbols_width := hwidth.trans h.symbols_width
    symbols := hp
    aligned := h.aligned.trans hread.symm
    follows := by rw [hsame]; exact h.follows
    delivered := by rw [hsame]; exact h.delivered }

theorem feedFlags (h : s.Sound policy map fresh before) {p : Inlet UInt8 Float}
    {r : Record UInt8 Float} {e : Inlet.Event UInt8 Float}
    (he : s.receiver.flags.meet s.flags e = .ok (p, r)) :
    ({ s with receiver := { s.receiver with flags := p }, flags := r } : Session).Sound policy map
      fresh before := by
  obtain ⟨hp, hwidth, hread, -⟩ := h.flags.meet he
  have hsame : ({ s with receiver := { s.receiver with flags := p }, flags := r } :
      Session).parsed policy map fresh = s.parsed policy map fresh := by
    simp only [parsed, h.receptions_flags he]
  exact { h with
    flags_width := hwidth.trans h.flags_width
    flags := hp
    aligned := hread.trans h.aligned
    follows := by rw [hsame]; exact h.follows
    delivered := by rw [hsame]; exact h.delivered }

theorem readDerotated (h : s.Sound policy map fresh before) {p : Outlet Sample Float}
    {r : Record Sample Float} {e : Outlet.Event}
    (he : s.receiver.derotated.meet s.derotated e = .ok (p, r)) :
    ({ s with receiver := { s.receiver with derotated := p }, derotated := r } : Session).Sound
      policy map fresh before := by
  obtain ⟨hp, hwidth, -⟩ := h.derotated.meet he
  exact { h with derotated_width := hwidth.trans h.derotated_width, derotated := hp }

theorem dequeue (h : s.Sound policy map fresh before) {m : Message} {queue : MessageQueue}
    (hm : s.queue.dequeue? = some (m, queue)) :
    ({ s with queue, taken := s.taken ++ [m] } : Session).Sound policy map fresh before := by
  obtain ⟨messages, hdelivered, hviews⟩ := h.delivered
  exact { h with delivered := ⟨messages, hdelivered.dequeue hm, hviews⟩ }

/-! ### One symbol -/

/-- The next symbol, as the records have it. -/
theorem reception_eq (h : s.Sound policy map fresh before) {flag : UInt8} {symbol : List Sample}
    (hflag : s.receiver.flags.buffer.toList.head? = some flag)
    (hitem : s.receiver.symbols.item 0 = .ok symbol) :
    reception map.occupied s.symbols s.flags s.receiver.symbols.read =
      ⟨flag != 0, s.receiver.flags.tagsOn s.receiver.flags.read, symbol⟩ := by
  rw [h.flags.buffer, h.flags_width, h.aligned, Nat.mul_one, List.head?_drop] at hflag
  rw [Inlet.item] at hitem
  split at hitem
  · cases hitem
    rw [reception, h.flags.tagsOn_eq (Nat.le_refl _), h.aligned, List.getD_eq_getElem?_getD, hflag,
      h.symbols.buffer, h.symbols_width, Nat.zero_mul, List.drop_zero, Option.getD_some]
  · cases hitem

/-- **A symbol is a step of the reference.** -/
theorem step (h : s.Sound policy map fresh before) {next : FrameReceiver} {queue : MessageQueue}
    (hstep : Step s.receiver s.queue next queue) :
    ({ s with receiver := next, queue } : Session).Sound policy map fresh before := by
  cases hstep with
  | mk flagged item decoded shown consumed unflagged handed =>
    obtain ⟨hsw, hsr⟩ := Inlet.consume_frame consumed
    obtain ⟨hfw, hfr⟩ := Inlet.consume_frame unflagged
    have hreception := h.reception_eq flagged item
    obtain ⟨hfollows, hframes⟩ :=
      h.follows.step (r := reception map.occupied s.symbols s.flags s.receiver.symbols.read)
        (by rw [hreception]; exact decoded)
    have hparsed : (s.parsed policy map fresh).next policy map fresh
        (reception map.occupied s.symbols s.flags s.receiver.symbols.read) =
        parse policy map fresh
          (receptions map.occupied s.symbols s.flags (s.receiver.symbols.read + 1)) := by
      rw [receptions_succ, parse_concat]
      rfl
    rw [hparsed] at hfollows hframes
    refine
      { symbols_width := hsw.trans h.symbols_width
        flags_width := hfw.trans h.flags_width
        derotated_width := ?_
        symbols := h.symbols.consume consumed
        flags := h.flags.consume unflagged
        derotated := ?_
        aligned := by rw [hsr, hfr, h.aligned]
        follows := by simp only [parsed, hsr]; exact hfollows
        delivered := ?_ }
    · rcases showing_cases shown with ⟨-, rfl⟩ | ⟨-, xs, -, hput⟩
      · exact h.derotated_width
      · exact (h.derotated.put hput).2.1.trans h.derotated_width
    · rcases showing_cases shown with ⟨-, rfl⟩ | ⟨-, xs, -, hput⟩
      · exact h.derotated
      · exact (h.derotated.put hput).1
    · obtain ⟨messages, hdelivered, hviews⟩ := h.delivered
      simp only [parsed, hsr]
      refine ⟨_, hdelivered.handed handed, ?_⟩
      rw [hframes, List.map_append, hviews]

/-- **A receiver never gets stuck.** With a symbol and its flag at hand, and with room for what the
symbol would show, it goes on to the next one. -/
theorem step_returns (h : s.Sound policy map fresh before) (hmap : map.size ≤ map.occupied)
    (havailable : s.receiver.available ≠ 0)
    (hroom : ¬ (s.receiver.derotated.connected ∧ s.receiver.derotated.room = 0)) :
    ∃ next, s.receiver.step s.queue = .ok next := by
  rw [available] at havailable
  have hsymbols : 0 < s.receiver.symbols.items := by omega
  have hflags : 0 < s.receiver.flags.items := by omega
  have hsize := Nat.mul_le_of_le_div _ _ _ hsymbols
  rw [Nat.one_mul, h.symbols_width, s.receiver.symbols.buffer.size_eq] at hsize
  obtain ⟨flag, rest, hflag⟩ : ∃ flag rest, s.receiver.flags.buffer.toList = flag :: rest := by
    rw [Inlet.items, h.flags_width, Nat.div_one, s.receiver.flags.buffer.size_eq] at hflags
    exact List.exists_cons_of_length_pos hflags
  have hlength : ((s.receiver.symbols.buffer.toList.drop (0 * s.receiver.symbols.width)).take
      s.receiver.symbols.width).length = map.occupied := by
    rw [Nat.zero_mul, List.drop_zero, List.length_take, h.symbols_width]
    omega
  obtain ⟨result, hresult, hreport⟩ := h.follows.step_returns hlength (flag != 0)
    (s.receiver.flags.tagsOn s.receiver.flags.read)
  obtain ⟨derotated, hderotated⟩ : ∃ p, s.receiver.showing result.report = .ok p := by
    rw [showing]
    split
    next hconnected =>
      have hput : s.receiver.derotated.room ≠ 0 := fun h0 => hroom ⟨hconnected, h0⟩
      obtain ⟨xs, hxs, hwidth⟩ : ∃ xs, s.receiver.shown result.report = .ok xs ∧
          xs.length = s.receiver.derotated.width := by
        cases hcase : result.report with
        | none => exact ⟨_, rfl, List.length_replicate⟩
        | some report =>
          have hle : report.derotated.length ≤ s.receiver.derotated.width := by
            rw [hreport report hcase, h.derotated_width]
            exact hmap
          simp only [shown, SymbolReport.spread, if_pos hle]
          refine ⟨_, rfl, ?_⟩
          rw [List.length_append, List.length_replicate]
          omega
      obtain ⟨p, hp⟩ := Outlet.exists_put hwidth hput
      exact ⟨p, Fault.bind_eq_ok_iff.2 ⟨xs, hxs, hp⟩⟩
    · exact ⟨_, rfl⟩
  rw [step_eq]
  exact ⟨_, Fault.bind_eq_ok_iff.2 ⟨flag, by rw [hflag]; rfl, Fault.bind_eq_ok_iff.2
    ⟨_, Inlet.item_ok hsymbols, Fault.bind_eq_ok_iff.2 ⟨result, hresult, Fault.bind_eq_ok_iff.2
    ⟨derotated, hderotated, Fault.bind_eq_ok_iff.2 ⟨_, Inlet.consume_ok Nat.one_ne_zero hsymbols,
    Fault.bind_eq_ok_iff.2 ⟨_, Inlet.consume_ok Nat.one_ne_zero hflags, rfl⟩⟩⟩⟩⟩⟩⟩

/-! ### Conclusions -/

/-- The receiver searches where the reference does. -/
theorem searching_eq (h : s.Sound policy map fresh before) :
    s.receiver.decoder.searching = (s.parsed policy map fresh).burst.isNone :=
  h.follows.searching_eq

/-- The queue was handed the messages of the frames found, and has all of them if it has room. -/
theorem handed (h : s.Sound policy map fresh before) :
    ∃ kept : List Message, s.taken ++ s.queue.messages = before.messages ++ kept ∧
      (kept.map Message.view).Sublist ((s.parsed policy map fresh).frames.map Frame.view) ∧
      kept.length + s.receiver.dropped = (s.parsed policy map fresh).frames.length ∧
      (before.HasRoom (s.parsed policy map fresh).frames.length →
        kept.map Message.view = (s.parsed policy map fresh).frames.map Frame.view) := by
  obtain ⟨messages, ⟨-, out, kept, htaken, hmessages, hsublist, hcount, hall⟩, hviews⟩ :=
    h.delivered
  have hlength := congrArg List.length hviews
  rw [List.length_map, List.length_map] at hlength
  rw [List.nil_append] at htaken
  rw [Nat.zero_add, hlength] at hcount
  have hframes := hviews ▸ hsublist.map Message.view
  refine ⟨kept, htaken ▸ hmessages, hframes, hcount, fun hroom => hframes.eq_of_length ?_⟩
  rw [List.length_map, List.length_map, ← hcount, hall (hlength ▸ hroom), Nat.add_zero]

/-- **A call of work returns**, and goes through all symbols, as far as there is room for what they
show. -/
theorem work_returns (h : s.Sound policy map fresh before) (hmap : map.size ≤ map.occupied) :
    ∃ turn, s.receiver.work s.queue = .ok turn ∧
      (turn.block.available = 0 ∨
        turn.block.derotated.connected ∧ turn.block.derotated.room = 0) :=
  drain_returns (P := fun r q => ({ s with receiver := r, queue := q } : Session).Sound policy map
    fresh before) (fun _ _ _ _ h hstep => h.step hstep)
    (fun _ _ h havailable hroom => h.step_returns hmap havailable hroom) rfl h

/-- A receiver that has no symbol left has consumed all symbols that came with their flags. -/
theorem read_eq (h : s.Sound policy map fresh before) (hempty : s.receiver.available = 0) :
    s.receiver.symbols.read = min (s.symbols.data.length / map.occupied) s.flags.data.length := by
  have hitems := h.symbols.items_eq
  have hle := h.symbols.read_le_items
  have hitems' := h.flags.items_eq
  have hle' := h.flags.read_le_items
  rw [h.symbols_width] at hitems hle
  rw [h.flags_width, h.aligned, Nat.div_one] at hitems' hle'
  rw [available] at hempty
  omega

end Sound

/-! ### The whole session -/

/-- A receiver's map has no more data carriers than occupied ones, unless one like that was given
to it. -/
theorem size_le_of_carrierMap {o : ReceiverOptions} (h : o.carrierMap = .ok map)
    (hgiven : ∀ m, o.map = some m → m.size ≤ m.occupied) : map.size ≤ map.occupied := by
  rw [ReceiverOptions.carrierMap] at h
  cases hmap : o.map with
  | some m =>
    simp only [hmap, Fault.bind_eq_ok_iff, Fault.pure_eq_ok_iff] at h
    obtain ⟨m', rfl, h⟩ := h
    split at h
    · cases h
      exact hgiven _ hmap
    · cases h
  | none =>
    simp only [hmap, Fault.bind_eq_ok_iff] at h
    obtain ⟨m, hm, h⟩ := h
    split at h
    · cases h
      exact CarrierMap.size_le_of_centred hm
    · cases h

/-- What building a receiver leads to. -/
theorem sound_start {o : ReceiverOptions} {r : FrameReceiver} (hbuild : o.build = .ok r)
    (queue : MessageQueue) :
    o.carrierMap = .ok r.decoder.map ∧
      (start r queue).Sound o.policy r.decoder.map
        (Demapper.start o.constellation r.decoder.map.size o.gains) queue := by
  simp only [ReceiverOptions.build, Fault.bind_eq_ok_iff, Fault.pure_eq_ok_iff] at hbuild
  obtain ⟨map, hmap, _, -, _, -, _, -, rfl⟩ := hbuild
  refine ⟨hmap, ?_⟩
  exact
    { symbols_width := rfl
      flags_width := rfl
      derotated_width := rfl
      symbols := Inlet.holds_fresh rfl rfl rfl
      flags := Inlet.holds_fresh rfl rfl rfl
      derotated := Outlet.gave_fresh rfl rfl rfl
      aligned := rfl
      follows :=
        { map_eq := rfl
          policy_eq := rfl
          reset_eq := Demapper.reset_start _ _ _
          taps_eq := List.length_replicate
          holds := rfl }
      delivered := ⟨[], Delivered.refl (start _ queue), rfl⟩ }

/-- **Every session is sound**, whatever its events. -/
theorem sound {receiver : FrameReceiver} (h : (start receiver before).Sound policy map fresh before)
    {events : List Event} (hrun : (start receiver before).run events = .ok s) :
    s.Sound policy map fresh before := by
  refine run_induct (P := fun s => s.Sound policy map fresh before) ?_ ?_ ?_ ?_ ?_ h hrun
  · exact fun s p r e h hmeet => h.feedSymbols hmeet
  · exact fun s p r e h hmeet => h.feedFlags hmeet
  · exact fun s p r e h hmeet => h.readDerotated hmeet
  · exact fun s m queue h hm => h.dequeue hm
  · exact fun s next queue h hstep => h.step hstep

/-- A receiver to which nobody listens consumes in one call of work whatever it was fed. -/
theorem exists_worked {o : ReceiverOptions} {r : FrameReceiver} (hbuild : o.build = .ok r)
    (hgiven : ∀ m, o.map = some m → m.size ≤ m.occupied) {queue : MessageQueue}
    {events : List Event} (hrun : (start r queue).run events = .ok s)
    (hdeaf : s.receiver.derotated.connected = false) :
    ∃ t, (start r queue).run (events ++ [.work]) = .ok t ∧ t.symbols = s.symbols ∧
      t.flags = s.flags ∧ t.taken = s.taken ∧ t.receiver.symbols.read =
        min (s.symbols.data.length / r.decoder.map.occupied) s.flags.data.length := by
  obtain ⟨hmap, hstart⟩ := sound_start hbuild queue
  obtain ⟨turn, hwork, hstop⟩ :=
    (sound hstart hrun).work_returns (size_le_of_carrierMap hmap hgiven)
  have hempty : turn.block.available = 0 := hstop.resolve_right fun hfull => by
    rw [work_connected hwork, hdeaf] at hfull
    exact Bool.false_ne_true hfull.1
  have hall : (start r queue).run (events ++ [.work]) =
      .ok { s with receiver := turn.block, queue := turn.queue } := by
    rw [run, List.foldlM_append]
    exact Fault.bind_eq_ok_iff.2 ⟨s, hrun, Fault.bind_eq_ok_iff.2
      ⟨_, Fault.bind_eq_ok_iff.2 ⟨turn, hwork, rfl⟩, rfl⟩⟩
  exact ⟨_, hall, rfl, rfl, rfl, (sound hstart hall).read_eq hempty⟩

end Session

/-- **A receiver is the reference parser of its receptions**, whatever pieces these arrive in, and
whatever else happens in between. The queue is handed one message for each frame in the symbols
consumed so far, in order, and no other. With room for all of them it keeps all of them, and
otherwise it loses as many as were dropped. The receiver searches where the reference does, and a
call of work goes through all symbols, as far as there is room for what they show. -/
theorem run_refines_parse {o : ReceiverOptions} {r : FrameReceiver} (hbuild : o.build = .ok r)
    {queue : MessageQueue} {events : List Event} {s : Session}
    (hrun : (Session.start r queue).run events = .ok s) :
    let map := r.decoder.map
    let parsed := parse o.policy map (Demapper.start o.constellation map.size o.gains)
      (receptions map.occupied s.symbols s.flags s.receiver.symbols.read)
    o.carrierMap = .ok map ∧
    (∃ kept : List Message, s.taken ++ s.queue.messages = queue.messages ++ kept ∧
      (kept.map Message.view).Sublist (parsed.frames.map Frame.view) ∧
      kept.length + s.receiver.dropped = parsed.frames.length ∧
      (queue.HasRoom parsed.frames.length →
        kept.map Message.view = parsed.frames.map Frame.view)) ∧
    s.receiver.decoder.searching = parsed.burst.isNone ∧
    ((∀ m, o.map = some m → m.size ≤ m.occupied) → ∃ turn, s.receiver.work s.queue = .ok turn ∧
      (turn.block.available = 0 ∨
        turn.block.derotated.connected ∧ turn.block.derotated.room = 0)) := by
  obtain ⟨hmap, hstart⟩ := Session.sound_start hbuild queue
  have hsound := Session.sound hstart hrun
  exact ⟨hmap, hsound.handed, hsound.searching_eq,
    fun hgiven => hsound.work_returns (Session.size_le_of_carrierMap hmap hgiven)⟩

/-- A receiver of four carriers, each of which is decided for sixteen. -/
def sixteens : ReceiverOptions where
  constellation := onePlace
  occupied := 4
  map := some ⟨List.range 4, 4, List.cons_ne_nil _ _, fun _ hk => List.mem_range.1 hk⟩
  policy := .drop

/-- Symbols of samples that are no numbers. They are decided for like any others. -/
def unheard (n : Nat) : List Sample := List.replicate (4 * n) ⟨0 / 0, 0 / 0⟩

/-- A symbol that is not flagged, one whose burst is refused since it is not tagged, and a burst of
five symbols, in two pieces. The flag inside of it is of no account. -/
def refusedThenReceived : List Event :=
  [.symbols (.push (unheard 4) []),
    .flags (.push [0, 1, 1, 0] [{ index := 2, key := Tag.syncTime, value := .time ⟨3, 0⟩ },
      { index := 2, key := Tag.syncOffset, value := .double 0 }]),
    .work, .symbols (.push (unheard 5) []), .flags (.push [0, 1, 0, 0, 0] []), .work, .dequeue]

/-- The burst is a frame: twice the field of sixteen bytes, and these bytes. -/
theorem run_refines_parse_one_frame :
    ∃ (r : FrameReceiver) (s : Session),
      sixteens.build = .ok r ∧ (Session.start r {}).run refusedThenReceived = .ok s ∧
      s.receiver.symbols.read = 9 ∧ s.taken.map (·.view.2) = [(List.replicate 16 16, 5)] ∧
      (s.parsed .drop r.decoder.map
        (Demapper.start onePlace r.decoder.map.size sixteens.gains)).frames.map (·.view.2) =
          [(List.replicate 16 16, 5)] ∧
      (s.parsed .drop r.decoder.map
        (Demapper.start onePlace r.decoder.map.size sixteens.gains)).burst.isNone = true ∧
      ∃ turn, s.receiver.work s.queue = .ok turn := by
  obtain ⟨r, hbuild, hrest⟩ := Fault.exists_ok_of_any (x := sixteens.build)
    (p := fun r => ((Session.start r {}).run refusedThenReceived).toOption.any
      fun s : Session => decide (s.receiver.symbols.read = 9 ∧
        s.taken.map (·.view.2) = [(List.replicate 16 16, 5)] ∧ s.queue.messages.length = 0 ∧
        s.receiver.decoder.searching = true))
    (by decide +kernel)
  obtain ⟨s, hrun, hs⟩ := Fault.exists_ok_of_any hrest
  obtain ⟨hread, htaken, hqueue, hsearching⟩ := of_decide_eq_true hs
  obtain ⟨-, ⟨kept, hkept, -, -, hall⟩, hburst, hwork⟩ := run_refines_parse hbuild hrun
  obtain ⟨turn, hturn, -⟩ := hwork fun m hm => by
    cases hm
    decide
  rw [List.eq_nil_of_length_eq_zero hqueue, List.append_nil] at hkept
  obtain rfl : s.taken = kept := hkept
  have hviews := congrArg (List.map (·.2)) (hall (.inl rfl))
  rw [List.map_map, List.map_map] at hviews
  exact ⟨r, s, hbuild, hrun, hread, htaken, hviews.symm.trans htaken, hburst.symm.trans hsearching,
    turn, hturn⟩

end FrameReceiver

end OfdmBurst
