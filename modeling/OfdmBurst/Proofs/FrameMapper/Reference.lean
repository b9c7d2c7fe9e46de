import Mathlib.Data.List.GetD
import Mathlib.Data.List.TakeWhile
import OfdmBurst.Proofs.FrameMapper.Emission

/-!
# The bursts of messages, bin by bin

`Session.Sound` describes what a mapper emits by the groups that its own cursor reads, for all
messages that its queue ever accepted. Here the same is said without the mapper: `reference` writes
down every bin of every symbol, from the bits of the header and the payload, for the messages up to
the first one that ends the stream.

A mapper that has met the end of the stream has finished, and is not called again. What it would send
if it were is of no interest, so runs are schedules here, in which a finished mapper is left alone.
The messages that were taken are then the accepted ones without those that wait, and the first of
them that ends the stream is the last one taken.

## Main definitions

* `Emission`, `burstOf`, `reference` — the symbols of bursts, as they are written down
* `Schedule`, `Schedule.run` — a session in which a finished mapper is not called
* `Schedule.Ordered` — the invariant

## Main results

* `eq_symbolWith_of_symbolOf` — a symbol of the mapper, bin by bin
* `nextBurst_spec` — what is taken from the queue
* `Schedule.emits_reference` — a mapper emits the reference
-/

namespace OfdmBurst

namespace FrameMapper

/-! ### Symbols -/

/-- The number that bits spell, the lowest first. -/
def spelt (bits : List Bool) : Nat := bits.foldr (fun bit value => bit.toNat + 2 * value) 0

/-- The bits of some bytes from `place` on, as a number. -/
theorem bitsFrom_eq_spelt (bytes : List UInt8) (place n : Nat) :
    bitsFrom bytes.toArray place n =
      spelt ((List.range n).map fun i => streamBit bytes (place + i)) := by
  induction n generalizing place with
  | zero => rfl
  | succ n ih =>
    have hshift : (fun i => streamBit bytes (place + i)) ∘ Nat.succ =
        fun i => streamBit bytes (place + 1 + i) := by
      funext i
      rw [Function.comp_apply, Nat.succ_eq_add_one, Nat.add_assoc, Nat.add_comm 1 i]
    rw [bitsFrom, ih, bitAt_eq, List.range_succ_eq_map, List.map_cons, List.map_map, hshift]
    rfl

variable (constellation : Constellation Float32) (map : CarrierMap) (fft : Nat)

/-- The group of bits on data carrier `i` of symbol `s`, as a number. -/
def valueAt (bytes : List UInt8) (s i : Nat) : Nat :=
  let place := (s * map.size + i) * constellation.bits
  spelt ((List.range constellation.bits).map fun j => streamBit bytes (place + j))

/-- The point that stands for it. -/
def pointAt (bytes : List UInt8) (s i : Nat) : Sample :=
  (constellation.point? (UInt8.ofNat (valueAt constellation map bytes s i))).getD Phasor.zero

/-- The bin of a carrier. The occupied carriers stand in the middle, and what is odd is in front. -/
def binOf (carrier : Nat) : Nat := (fft - map.occupied + 1) / 2 + carrier

/-- Symbol `s` of a burst of these bytes. The bins that are not those of data carriers are zero. -/
def symbolAt (bytes : List UInt8) (s : Nat) : List Sample :=
  (List.range fft).map fun bin =>
    match map.carriers.findIdx? (binOf map fft · == bin) with
    | some i => pointAt constellation map bytes s i
    | none => Phasor.zero

variable {constellation map fft}

/-- The bin of a data carrier is a bin of the symbol. -/
theorem binOf_lt (h : map.occupied ≤ fft) {carrier : Nat} (hcarrier : carrier ∈ map.carriers) :
    binOf map fft carrier < fft := by
  have hlt := map.lt_occupied carrier hcarrier
  rw [binOf]
  omega

/-- A mapper has a point for every group. -/
theorem point?_valueAt (m : FrameMapper) (bytes : List UInt8) (s i : Nat) :
    m.constellation.point? (UInt8.ofNat (valueAt m.constellation m.map bytes s i)) =
      some (pointAt m.constellation m.map bytes s i) := by
  have hlt := bitsFrom_lt bytes ((s * m.map.size + i) * m.constellation.bits) m.constellation.bits
  rw [bitsFrom_eq_spelt] at hlt
  obtain ⟨x, hx⟩ := Option.isSome_iff_exists.1 (point?_isSome hlt)
  have hvalue : m.constellation.point? (UInt8.ofNat (valueAt m.constellation m.map bytes s i)) =
    some x := hx
  rw [pointAt, hvalue, Option.getD_some]

/-- The symbol with the points of some groups on its data carriers. -/
def symbolWith (m : FrameMapper) (groups : List Nat) : List Sample :=
  (List.range m.fft).map fun bin =>
    match m.map.carriers.findIdx? (binOf m.map m.fft · == bin) with
    | some i => (m.constellation.point? (UInt8.ofNat (groups.getD i 0))).getD Phasor.zero
    | none => Phasor.zero

/-- **A symbol of the mapper, bin by bin.** -/
theorem eq_symbolWith_of_symbolOf {m : FrameMapper} (hnodup : m.map.carriers.Nodup)
    {groups : List Nat} (hlength : groups.length = m.map.size) {symbol : List Sample}
    (h : m.symbolOf groups = .ok symbol) : symbol = m.symbolWith groups := by
  have hcarries := carries_of_symbolOf hnodup hlength h
  refine List.ext_getElem? fun bin => ?_
  by_cases hbin : bin < m.fft
  · rw [symbolWith, List.getElem?_map, List.getElem?_range hbin, Option.map_some]
    cases hfind : m.map.carriers.findIdx? (binOf m.map m.fft · == bin) with
    | some i =>
      obtain ⟨hi, hplace, -⟩ := List.findIdx?_eq_some_iff_getElem.1 hfind
      rw [beq_iff_eq] at hplace
      have hgroup : i < groups.length := hlength ▸ hi
      have hpair : (m.map.carriers[i], groups[i]) ∈ m.map.carriers.zip groups := by
        refine List.mem_of_getElem (i := i) (h := by rw [List.length_zip]; omega) ?_
        rw [List.getElem_zip]
      obtain ⟨x, hx, hsymbol⟩ := hcarries.point _ hpair
      dsimp only
      rw [List.getD_eq_getElem _ _ hgroup, hx, ← hplace]
      exact hsymbol
    | none =>
      rw [List.findIdx?_eq_none_iff] at hfind
      refine hcarries.zero bin hbin fun p hp hplace => ?_
      have hno := hfind p.1 (List.of_mem_zip hp).1
      rw [hplace, beq_eq_false_iff_ne] at hno
      exact hno rfl
  · have hwide : (m.symbolWith groups).length = m.fft := by
      rw [symbolWith, List.length_map, List.length_range]
    rw [List.getElem?_eq_none (by rw [hcarries.length_eq]; omega),
      List.getElem?_eq_none (by rw [hwide]; omega)]

/-- The groups of a symbol are windows of the bytes. -/
theorem symbolWith_patternsAt (m : FrameMapper) (bytes : List UInt8) (s : Nat) :
    m.symbolWith (patternsAt m.constellation.bits m.map.size bytes s) =
      symbolAt m.constellation m.map m.fft bytes s := by
  rw [symbolWith, symbolAt]
  refine List.map_congr_left fun bin _ => ?_
  cases hfind : m.map.carriers.findIdx? (binOf m.map m.fft · == bin) with
  | none => rfl
  | some i =>
    obtain ⟨hi, -⟩ := List.findIdx?_eq_some_iff_getElem.1 hfind
    have hgroup : (patternsAt m.constellation.bits m.map.size bytes s).getD i 0 =
        bitsFrom bytes.toArray ((s * m.map.size + i) * m.constellation.bits)
          m.constellation.bits := by
      rw [List.getD_eq_getElem _ _ (by rw [length_patternsAt]; exact hi)]
      simp only [patternsAt, List.getElem_map, List.getElem_range]
    dsimp only
    rw [hgroup, bitsFrom_eq_spelt]
    rfl

/-! ### Bursts -/

/-- The header of a message: two copies of the field, each with its high byte first. -/
def headerBytes (m : Message) : List UInt8 :=
  let field := m.arg1.toUInt8.toNat * 4096 + m.payload.length
  let copy := [UInt8.ofNat (field / 256), UInt8.ofNat (field % 256)]
  copy ++ copy

theorem frameBytes_eq_append {m : Message} (h : m.isSendable = true) :
    m.frameBytes = headerBytes m ++ m.payload := by
  obtain ⟨-, -, b₀, b₁, hbytes, hfield⟩ := Burst.frameBytes_of_isSendable h
  have h₁ := b₁.toNat_lt
  have hhigh : UInt8.ofNat (FrameHeader.fieldOf b₀ b₁ / 256) = b₀ := by
    rw [FrameHeader.fieldOf, show (b₀.toNat * 256 + b₁.toNat) / 256 = b₀.toNat by omega]
    exact UInt8.ofNat_toNat
  have hlow : UInt8.ofNat (FrameHeader.fieldOf b₀ b₁ % 256) = b₁ := by
    rw [FrameHeader.fieldOf, show (b₀.toNat * 256 + b₁.toNat) % 256 = b₁.toNat by omega]
    exact UInt8.ofNat_toNat
  rw [hbytes, headerBytes, ← hfield, hhigh, hlow]
  rfl

/-- One symbol on its way out, with its flag, its end flag and the time that it is tagged with. -/
structure Emission where
  symbol : List Sample
  flag : UInt8
  last : UInt8
  time : Option (Timestamp Float)

/-- The tags of symbols, stated without the name that the mapper gives them. -/
def emissionTags (emitted : List Emission) : List (Tag Float) :=
  emitted.zipIdx.flatMap fun p => timeMark p.2 p.1.time

variable (constellation map fft) in
/-- The burst of a message. -/
def burstOf (m : Message) : List Emission :=
  let n := m.symbols (map.size * constellation.bits)
  (List.range n).map fun s =>
    { symbol := symbolAt constellation map fft (headerBytes m ++ m.payload) s
      flag := if s = 0 then 1 else 0
      last := if s + 1 = n then 1 else 0
      time := if s = 0 then m.time else none }

/-- Whether a header can describe the message: the length of its payload and its whitener offset. -/
def describable (m : Message) : Bool := decide (m.size ≤ 4095) && decide (m.arg1.toUInt8 ≤ 15)

/-- The messages up to the first one that ends the stream. -/
def untilEnd (messages : List Message) : List Message :=
  messages.takeWhile fun m => m.type != Message.endOfStream

variable (constellation map fft) in
/-- **The reference**: the bursts of the messages up to the end of the stream, one behind the other.
A message that no header can describe is passed over. -/
def reference (messages : List Message) : List Emission :=
  ((untilEnd messages).filter describable).flatMap (burstOf constellation map fft)

/-- A symbol of the mapper's cursor, written down. -/
def emissionOf (m : FrameMapper) (i : Item) : Emission :=
  { symbol := m.symbolWith i.groups, flag := i.flag, last := i.endFlag, time := i.time }

/-- The burst of a message is what the cursor makes of it. -/
theorem burstOf_eq_items (m : FrameMapper) {message : Message} (h : message.isSendable = true) :
    burstOf m.constellation m.map m.fft message =
      (items m.constellation.bits m.map.size message.frameBytes message.time).map m.emissionOf := by
  rw [burstOf, items, symbolCount_frameBytes _ h, List.map_map]
  refine List.map_congr_left fun s _ => ?_
  simp only [Function.comp_apply, emissionOf, item, Item.flag, Item.endFlag, beq_iff_eq,
    symbolWith_patternsAt, symbolCount_frameBytes _ h]
  rw [frameBytes_eq_append h]

/-- The messages up to the end of the stream that can be described are those that have a burst. -/
theorem filter_untilEnd (messages : List Message) :
    (untilEnd messages).filter describable = (untilEnd messages).filter Message.isSendable := by
  refine List.filter_congr fun m hm => ?_
  have htype : (m.type != Message.endOfStream) = true :=
    List.mem_takeWhile_imp (p := fun m : Message => m.type != Message.endOfStream) hm
  rw [Message.isSendable, htype, Bool.true_and]
  rfl

/-- The reference is what the cursor makes of the messages up to the end of the stream. -/
theorem reference_eq_itemsOf (m : FrameMapper) (messages : List Message) :
    reference m.constellation m.map m.fft messages =
      (itemsOf m.constellation.bits m.map.size (untilEnd messages)).map m.emissionOf := by
  rw [reference, filter_untilEnd, itemsOf, List.map_flatMap]
  refine List.flatMap_congr fun message hmessage => ?_
  exact burstOf_eq_items m (List.mem_filter.1 hmessage).2

/-! ### Schedules -/

/-- A session, and whether a call of work has finished. -/
structure Schedule where
  session : Session
  finished : Bool := false

namespace Schedule

/-- A mapper that nobody has used yet, with an empty queue. -/
def start (mapper : FrameMapper) (limit : Nat) : Schedule := { session := .start mapper limit }

/-- A schedule after an event. A mapper that has finished is not called again. -/
def act (c : Schedule) : Event → Except Fault Schedule
  | .work source =>
    if c.finished then .ok c
    else do
      let turn ← c.session.mapper.work source c.session.queue
      return ⟨{ c.session with mapper := turn.block, queue := turn.queue }, turn.finished⟩
  | e => do return { c with session := ← c.session.act e }

/-- A schedule after several events. -/
def run (c : Schedule) (events : List Event) : Except Fault Schedule := events.foldlM act c

/-- A schedule is a session with some of the calls of work left out. -/
theorem exists_session_run {c d : Schedule} {events : List Event} (h : c.run events = .ok d) :
    ∃ events', c.session.run events' = .ok d.session := by
  induction events generalizing c with
  | nil =>
    cases h
    exact ⟨[], rfl⟩
  | cons e rest ih =>
    rw [run, List.foldlM_cons, Fault.bind_eq_ok_iff] at h
    obtain ⟨next, hnext, hrest⟩ := h
    obtain ⟨events', hevents'⟩ := ih hrest
    have hone : next.session = c.session ∨ c.session.act e = .ok next.session := by
      cases e with
      | work source =>
        rw [act] at hnext
        split at hnext
        · cases hnext
          exact .inl rfl
        · obtain ⟨turn, hwork, rfl⟩ := Fault.exists_of_bind_pure hnext
          exact .inr (Fault.bind_eq_ok_iff.2 ⟨turn, hwork, rfl⟩)
      | _ =>
        obtain ⟨s, hs, rfl⟩ := Fault.exists_of_bind_pure hnext
        exact .inr hs
    rcases hone with hsame | hact
    · exact ⟨events', hsame ▸ hevents'⟩
    · exact ⟨e :: events', Fault.bind_eq_ok_iff.2 ⟨_, hact, hevents'⟩⟩

end Schedule

/-! ### Taking messages -/

/-- **What is taken from the queue**: all messages up to the first one that has a burst or that ends
the stream. -/
theorem nextBurst_spec {messages waiting : List Message} {next : Next}
    (h : nextBurst messages = (next, waiting)) :
    ∃ taken, messages = taken ++ waiting ∧
      match next with
      | .nothing => ∀ m ∈ taken, m.type ≠ Message.endOfStream
      | .burst _ => ∀ m ∈ taken, m.type ≠ Message.endOfStream
      | .endOfStream => ∃ passed m, taken = passed ++ [m] ∧ m.type = Message.endOfStream ∧
          ∀ m ∈ passed, m.type ≠ Message.endOfStream := by
  induction messages with
  | nil =>
    cases h
    exact ⟨[], rfl, by simp⟩
  | cons m rest ih =>
    rw [nextBurst] at h
    split at h
    next htype =>
      cases h
      exact ⟨[m], rfl, [], m, rfl, htype, by simp⟩
    next htype =>
      split at h
      · cases h
        exact ⟨[m], rfl, by simpa using htype⟩
      · obtain ⟨taken, rfl, hnext⟩ := ih h
        refine ⟨m :: taken, rfl, ?_⟩
        cases next with
        | nothing => exact List.forall_mem_cons.2 ⟨htype, hnext⟩
        | burst b => exact List.forall_mem_cons.2 ⟨htype, hnext⟩
        | endOfStream =>
          obtain ⟨passed, last, rfl, hlast, hpassed⟩ := hnext
          exact ⟨m :: passed, last, rfl, hlast, List.forall_mem_cons.2 ⟨htype, hpassed⟩⟩

/-- **The messages that were taken** are those that were accepted and do not wait. None of them ends
the stream, but for the last one if the mapper has finished. Then no burst is going on. -/
inductive Ordered (burst : Option Burst) (waiting accepted : List Message) : Bool → Prop
  | going {taken : List Message} (passed : ∀ m ∈ taken, m.type ≠ Message.endOfStream)
      (accepted_eq : accepted = taken ++ waiting) : Ordered burst waiting accepted false
  | ended {taken : List Message} {m : Message} (passed : ∀ m ∈ taken, m.type ≠ Message.endOfStream)
      (ends : m.type = Message.endOfStream) (accepted_eq : accepted = taken ++ m :: waiting)
      (burst_eq : burst = none) : Ordered burst waiting accepted true

namespace Ordered

variable {burst : Option Burst} {waiting accepted : List Message}

/-- A burst that begins or goes on changes nothing about the messages. -/
theorem going_burst (h : Ordered burst waiting accepted false) (burst' : Option Burst) :
    Ordered burst' waiting accepted false := by
  cases h with
  | going passed accepted_eq => exact .going passed accepted_eq

theorem enqueue {finished : Bool} (h : Ordered burst waiting accepted finished) (m : Message) :
    Ordered burst (waiting ++ [m]) (accepted ++ [m]) finished := by
  cases h with
  | going passed accepted_eq =>
    exact .going passed (by rw [accepted_eq, List.append_assoc])
  | ended passed ends accepted_eq burst_eq =>
    exact .ended passed ends (by rw [accepted_eq, List.append_assoc, List.cons_append]) burst_eq

/-- Taking messages none of which ends the stream. -/
theorem pass (h : Ordered burst waiting accepted false) {taken left : List Message}
    (heq : waiting = taken ++ left) (htaken : ∀ m ∈ taken, m.type ≠ Message.endOfStream)
    (burst' : Option Burst) : Ordered burst' left accepted false := by
  cases h with
  | going passed accepted_eq =>
    rw [heq, ← List.append_assoc] at accepted_eq
    exact .going (List.forall_mem_append.2 ⟨passed, htaken⟩) accepted_eq

/-- Taking messages the last of which ends the stream. -/
theorem stop (h : Ordered burst waiting accepted false) {left : List Message}
    (hburst : burst = none) (hnext : nextBurst waiting = (.endOfStream, left)) :
    Ordered burst left accepted true := by
  obtain ⟨_, heq, taken, m, rfl, hm, htaken⟩ := nextBurst_spec hnext
  cases h with
  | going passed accepted_eq =>
    rw [heq, List.append_assoc, ← List.append_assoc] at accepted_eq
    exact .ended (List.forall_mem_append.2 ⟨passed, htaken⟩) hm accepted_eq hburst

/-- **A call of work takes messages in order.** -/
theorem work {m : FrameMapper} {queue : MessageQueue} {source : String} {turn : Turn FrameMapper}
    (h : Ordered m.burst queue.messages accepted false) (hwork : m.work source queue = .ok turn) :
    Ordered turn.block.burst turn.queue.messages accepted turn.finished := by
  refine fill_stages (P := fun m queue finished =>
    Ordered m.burst queue.messages accepted finished) ?_ ?_ ?_ ?_ h hwork
  · intro m queue waiting h _ hnext
    obtain ⟨taken, heq, htaken⟩ := nextBurst_spec hnext
    exact h.pass heq htaken _
  · intro m queue waiting h hburst hnext
    exact h.stop hburst hnext
  · intro m queue b waiting h _ hnext
    obtain ⟨taken, heq, htaken⟩ := nextBurst_spec hnext
    exact h.pass heq htaken _
  · intro m queue b next h _ _
    exact h.going_burst _

end Ordered

namespace Schedule

/-- **A schedule takes messages in order.** -/
theorem ordered_run {c d : Schedule} {events : List Event}
    (h : Ordered c.session.mapper.burst c.session.queue.messages c.session.accepted c.finished)
    (hrun : c.run events = .ok d) :
    Ordered d.session.mapper.burst d.session.queue.messages d.session.accepted d.finished := by
  refine Fault.foldlM_induct (P := fun c : Schedule => Ordered c.session.mapper.burst
    c.session.queue.messages c.session.accepted c.finished) (fun c e d h hact => ?_) h hrun
  cases e with
  | enqueue m =>
    obtain ⟨s, hs, rfl⟩ := Fault.exists_of_bind_pure hact
    rw [Session.act] at hs
    split at hs
    next queue hqueue =>
      cases hs
      show Ordered _ queue.messages _ _
      rw [(MessageQueue.messages_enqueue? hqueue).1]
      exact h.enqueue m
    next =>
      cases hs
      exact h
  | symbols e =>
    obtain ⟨s, hs, rfl⟩ := Fault.exists_of_bind_pure hact
    obtain ⟨⟨p, r⟩, -, rfl⟩ := Fault.exists_of_bind_pure hs
    exact h
  | flags e =>
    obtain ⟨s, hs, rfl⟩ := Fault.exists_of_bind_pure hact
    obtain ⟨⟨p, r⟩, -, rfl⟩ := Fault.exists_of_bind_pure hs
    exact h
  | ends e =>
    obtain ⟨s, hs, rfl⟩ := Fault.exists_of_bind_pure hact
    obtain ⟨⟨p, r⟩, -, rfl⟩ := Fault.exists_of_bind_pure hs
    exact h
  | work source =>
    rw [act] at hact
    split at hact
    next =>
      cases hact
      exact h
    next hgoing =>
      obtain ⟨turn, hwork, rfl⟩ := Fault.exists_of_bind_pure hact
      rw [Bool.eq_false_iff.2 hgoing] at h
      exact h.work hwork

end Schedule

/-! ### The reference -/

/-- Messages that do not end the stream go before the end of those behind them. -/
theorem untilEnd_append {taken : List Message}
    (h : ∀ m ∈ taken, m.type ≠ Message.endOfStream) (waiting : List Message) :
    untilEnd (taken ++ waiting) = taken ++ untilEnd waiting :=
  List.takeWhile_append_of_pos fun m hm => bne_iff_ne.2 (h m hm)

theorem untilEnd_cons_end {m : Message} (h : m.type = Message.endOfStream)
    (waiting : List Message) : untilEnd (m :: waiting) = [] :=
  List.takeWhile_cons_of_neg (by rw [bne_iff_ne]; exact fun hne => hne h)

section Emitted

variable {made : FrameMapper} {s : Session} {emitted rest : List Item} {finished : Bool}

theorem itemsOf_append (bits carriers : Nat) (xs ys : List Message) :
    itemsOf bits carriers (xs ++ ys) = itemsOf bits carriers xs ++ itemsOf bits carriers ys := by
  rw [itemsOf, List.filter_append, List.flatMap_append]
  rfl

/-- What was emitted and what is left of the burst that is going on are the bursts of the messages
taken, and those go before what the messages that wait will bring. After the end of the stream there
is nothing left. -/
theorem Ordered.emitted_append (h : Ordered s.mapper.burst s.queue.messages s.accepted finished)
    (hsound : s.Sound made emitted rest) :
    emitted ++ rest <+: itemsOf made.constellation.bits made.map.size (untilEnd s.accepted) ∧
      (finished = true ∨ s.queue.messages = [] →
        emitted ++ rest = itemsOf made.constellation.bits made.map.size (untilEnd s.accepted)) := by
  have hwhole := hsound.whole
  cases h with
  | going passed accepted_eq =>
    rw [accepted_eq, itemsOf_append] at hwhole
    have htaken := List.append_cancel_right hwhole
    rw [accepted_eq, untilEnd_append passed, itemsOf_append, htaken]
    refine ⟨List.prefix_append _ _, ?_⟩
    rintro (hno | hnone)
    · cases hno
    · rw [hnone]
      exact (List.append_nil _).symm
  | ended passed ends accepted_eq burst_eq =>
    -- a message that ends the stream has no burst
    have hno : ∀ m : Message, m.type = Message.endOfStream →
        itemsOf made.constellation.bits made.map.size [m] = [] := by
      intro m hm
      simp [itemsOf, Message.isSendable, hm]
    rw [accepted_eq, itemsOf_append, ← List.singleton_append, itemsOf_append, hno _ ends,
      List.nil_append] at hwhole
    have htaken := List.append_cancel_right hwhole
    rw [accepted_eq, untilEnd_append passed, untilEnd_cons_end ends, List.append_nil, htaken]
    exact ⟨List.prefix_refl _, fun _ => rfl⟩

/-- The symbols of the mapper are those of the reference. -/
theorem symbols_eq_of_forall₂ {m : FrameMapper} (hnodup : m.map.carriers.Nodup)
    {items : List Item} {symbols : List (List Sample)}
    (hgroups : ∀ i ∈ items, i.groups.length = m.map.size)
    (h : List.Forall₂ (fun i x => m.symbolOf i.groups = .ok x) items symbols) :
    symbols = (items.map m.emissionOf).map (·.symbol) := by
  induction h with
  | nil => rfl
  | cons hx _ ih =>
    rw [List.forall_mem_cons] at hgroups
    rw [List.map_cons, List.map_cons, ← ih hgroups.2,
      eq_symbolWith_of_symbolOf hnodup hgroups.1 hx]
    rfl

theorem length_groups_of_mem {bits carriers : Nat} {messages : List Message} {i : Item}
    (h : i ∈ itemsOf bits carriers messages) : i.groups.length = carriers := by
  obtain ⟨m, -, hi⟩ := List.mem_flatMap.1 h
  obtain ⟨n, -, rfl⟩ := List.mem_map.1 hi
  exact length_patternsAt _ _ _ n

theorem emissionTags_map (m : FrameMapper) (items : List Item) :
    emissionTags (items.map m.emissionOf) = timeMarks 0 items := by
  rw [emissionTags, timeMarks, List.zipIdx_map, List.flatMap_map]
  rfl

end Emitted

/-- **However messages come and outlets are read, a mapper emits the reference.** What it has put out
at any time, with flags, end flags and times, begins the bursts of the messages up to the end of the
stream. It is all of them once the mapper has finished, or has nothing left to send. Every group has
a point, the bins of the carriers are bins of the symbol, and a call of work returns: with no room,
finished, or with nothing left to send. -/
theorem Schedule.emits_reference {constellation : Constellation Float32} {map : CarrierMap}
    {fft limit : Nat} {made : FrameMapper} {events : List Event} {c : Schedule}
    (hmade : ofParts constellation map fft = .ok made) (hbits : 0 < constellation.bits)
    (hnodup : map.carriers.Nodup) (hrun : (start made limit).run events = .ok c) :
    ∃ emitted, emitted <+: reference constellation map fft c.session.accepted ∧
      c.session.symbolsOut = emitted.flatMap (·.symbol) ∧
      c.session.flagsOut = emitted.map (·.flag) ∧
      c.session.endsOut = emitted.map (·.last) ∧
      (c.session.mapper.symbols.total c.session.symbols).tags.map Tag.unsourced =
        emissionTags emitted ∧
      (c.finished = true ∨ c.session.mapper.burst = none ∧ c.session.queue.messages = [] →
        emitted = reference constellation map fft c.session.accepted) ∧
      (∀ bytes s i, constellation.point? (UInt8.ofNat (valueAt constellation map bytes s i)) =
        some (pointAt constellation map bytes s i)) ∧
      (∀ carrier ∈ map.carriers, binOf map fft carrier < fft) ∧
      ∀ source, ∃ turn, c.session.mapper.work source c.session.queue = .ok turn ∧
        (turn.block.room = 0 ∨ turn.finished = true ∨
          turn.block.burst = none ∧ turn.queue.messages = []) := by
  obtain ⟨hstart, rfl, rfl, rfl⟩ := Session.sound_start hmade limit
  obtain ⟨events', hevents'⟩ := exists_session_run hrun
  obtain ⟨items, rest, hsound⟩ := Session.sound hstart hbits hevents'
  have hpassed : ∀ m ∈ ([] : List Message), m.type ≠ Message.endOfStream :=
    fun _ hm => absurd hm List.not_mem_nil
  have hordered : Ordered c.session.mapper.burst c.session.queue.messages c.session.accepted
      c.finished := ordered_run (.going hpassed rfl) hrun
  obtain ⟨hbegins, hwhole⟩ := hordered.emitted_append hsound
  have hitems : items <+: itemsOf made.constellation.bits made.map.size
      (untilEnd c.session.accepted) := (List.prefix_append _ _).trans hbegins
  obtain ⟨symbols, hsymbols, hout⟩ := hsound.made_of
  have hgroups : ∀ i ∈ items, i.groups.length = made.map.size := fun i hi =>
    length_groups_of_mem (hitems.subset hi)
  refine ⟨items.map made.emissionOf, ?_, ?_, ?_, ?_, ?_, ?_, point?_valueAt made, ?_, ?_⟩
  · rw [reference_eq_itemsOf]
    exact hitems.map _
  · rw [hout, symbols_eq_of_forall₂ hnodup hgroups hsymbols, List.flatMap_def]
  · rw [hsound.flags_eq, List.map_map]
    rfl
  · rw [hsound.ends_eq, List.map_map]
    rfl
  · rw [hsound.times_eq, emissionTags_map]
  · intro hdone
    have hburst : c.session.mapper.burst = none := by
      rcases hdone with hfinished | ⟨hburst, -⟩
      · rw [hfinished] at hordered
        cases hordered with
        | ended passed ends accepted_eq burst_eq => exact burst_eq
      · exact hburst
    have hleft := hsound.left
    rw [hburst] at hleft
    have hrest : rest = [] := hleft
    rw [reference_eq_itemsOf, ← hwhole (hdone.imp_right And.right), hrest, List.append_nil]
  · exact fun carrier hcarrier => binOf_lt made.occupied_le hcarrier
  · exact fun source => hsound.work_returns hbits source

/-- Two carriers, the second of which is filled first. -/
def crossed : CarrierMap where
  carriers := [1, 0]
  occupied := 2
  carriers_ne := by decide
  lt_occupied := by decide

/-- A message that no header can describe, one that is sent in two calls, the end of the stream, and
a message behind it. -/
def twoCalls : List Event :=
  [.enqueue { arg1 := 16 }, .enqueue {}, .enqueue { type := 1 }, .enqueue {},
    .symbols (.reserve 20), .flags (.reserve 10), .ends (.reserve 30), .work "mapper",
    .flags .take, .work "mapper", .work "mapper"]

theorem Schedule.emits_reference_two_calls :
    ∃ made c, ofParts .bpsk crossed 3 = .ok made ∧ (start made 0).run twoCalls = .ok c ∧
      c.finished = true ∧ c.session.accepted.length = 4 ∧ c.session.symbolsOut.length = 48 ∧
      c.session.symbolsOut =
        (reference .bpsk crossed 3 c.session.accepted).flatMap (·.symbol) := by
  obtain ⟨made, hmade, h⟩ := Fault.exists_ok_of_any (x := ofParts .bpsk crossed 3)
    (p := fun made => ((start made 0).run twoCalls).toOption.any fun c : Schedule =>
      c.finished && c.session.accepted.length == 4 && c.session.symbolsOut.length == 48)
    (by decide +kernel)
  obtain ⟨c, hc, h⟩ := Fault.exists_ok_of_any h
  simp only [Bool.and_eq_true, beq_iff_eq] at h
  obtain ⟨⟨hfinished, haccepted⟩, hlength⟩ := h
  obtain ⟨emitted, -, hsymbols, -, -, -, hwhole, -⟩ :=
    emits_reference hmade (by decide) (by decide) hc
  rw [hwhole (.inl hfinished)] at hsymbols
  exact ⟨made, c, hmade, hc, hfinished, haccepted, hlength, hsymbols⟩

end FrameMapper

end OfdmBurst
