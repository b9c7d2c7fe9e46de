import OfdmBurst.Proofs.Frame.Attribution
import OfdmBurst.Proofs.FrameReceiver.Isolation
import OfdmBurst.Proofs.RoundTrip

/-!
# Which burst the metadata of a message is of

A receiver reads the tags of a flagged symbol when it meets the symbol, and hands out the message
much later, perhaps after many calls of work and with the consumer busy in between. What is said
about decoders in `OfdmBurst.Proofs.Frame.Attribution` holds of every session: a message has the
time and the offset that were last said up to the flagged symbol of its own burst, by symbols met
while the receiver searched.

The tags of a reception are the ones that were put on its flag. More than one of a kind may be
there, and then the one that was put there last counts, also if it says nothing.

## Main results

* `messages_attributed` — every message of a session bears what was said when its burst began
-/

namespace OfdmBurst

namespace FrameReceiver

theorem placed_of_mem_receptions {width : Nat} {symbols : Record Sample Float}
    {flags : Record UInt8 Float} {n : Nat} :
    ∀ x ∈ receptions width symbols flags n, x.Placed := by
  intro x hx
  obtain ⟨i, -, rfl⟩ := List.mem_map.1 hx
  exact ⟨i, index_of_mem_reception⟩

/-- The symbols consumed so far. -/
def Session.consumed (width : Nat) (s : Session) : List Reception :=
  receptions width s.symbols s.flags s.receiver.symbols.read

theorem Session.length_consumed (width : Nat) (s : Session) :
    (s.consumed width).length = s.receiver.symbols.read := length_receptions ..

/-- What a receiver is when nobody has used it. -/
structure Unused (r : FrameReceiver) : Prop where
  /-- No symbol was consumed. -/
  read_eq : r.symbols.read = 0
  /-- Nothing was put out. -/
  total_eq : r.derotated.total {} = {}
  /-- Nobody listens. -/
  deaf : r.derotated.connected = false
  /-- No message was dropped. -/
  dropped_eq : r.dropped = 0
  /-- The decoder searches. -/
  searching : r.decoder.searching = true
  /-- Neither a time nor an offset was said. -/
  silent : r.decoder.time = none ∧ r.decoder.offset = none

theorem unused_of_build {o : ReceiverOptions} {r : FrameReceiver} (hbuild : o.build = .ok r) :
    r.Unused := by
  simp only [ReceiverOptions.build, Fault.bind_eq_ok_iff, Fault.pure_eq_ok_iff] at hbuild
  obtain ⟨_, -, _, -, _, -, _, -, rfl⟩ := hbuild
  exact ⟨rfl, rfl, rfl, rfl, rfl, rfl, rfl⟩

/-- The results of all symbols consumed since a receiver was built. -/
theorem exists_trace {o : ReceiverOptions} {r : FrameReceiver} (hbuild : o.build = .ok r)
    {queue : MessageQueue} {events : List Event} {s : Session}
    (hrun : (Session.start r queue).run events = .ok s) :
    ∃ results, r.decoder.trace (s.consumed r.decoder.map.occupied) = .ok results ∧
      s.receiver.decoder = r.decoder.reached results ∧
      s.Delivered queue [] 0 (results.filterMap (·.message)) := by
  obtain ⟨-, hstart⟩ := Session.sound_start hbuild queue
  obtain ⟨results, -, htrace, hdecoder, hdelivered⟩ := Session.exists_since hstart hrun
  have hunused := unused_of_build hbuild
  have hnone : (Session.start r queue).receiver.symbols.read = 0 := hunused.read_eq
  rw [Session.heard, hnone, List.drop_zero,
    BurstDecoder.trace_unplaced _ placed_of_mem_receptions] at htrace
  refine ⟨results, htrace, hdecoder, ?_⟩
  rw [← hunused.dropped_eq]
  exact hdelivered

/-- **Every message bears what was said when its burst began.** A session has one result for each
symbol consumed, and the queue was handed the messages in them, which are those of the frames of the
reference.

A burst begins with a flagged symbol, and under the strict policy with one whose last tag with each
of the two keys says something. A message belongs to a burst. Its bytes come from the symbols of the
burst, its time and offset are what was last said by flagged symbols met while searching, up to the
one that began the burst, and under the strict policy that one has said both.

Flags and tags inside of bursts have no influence. A second session whose symbols are the same, and
whose flags and tags are the same where the first one searched, was handed the same messages and has
come to the same state. -/
theorem messages_attributed {o : ReceiverOptions} {r : FrameReceiver} (hbuild : o.build = .ok r)
    {queue : MessageQueue} {events : List Event} {s : Session}
    (hrun : (Session.start r queue).run events = .ok s) :
    let map := r.decoder.map
    let fresh := Demapper.start o.constellation map.size o.gains
    let consumed := s.consumed map.occupied
    ∃ results, r.decoder.trace consumed = .ok results ∧
      s.receiver.decoder = r.decoder.reached results ∧
      s.Delivered queue [] 0 (results.filterMap (·.message)) ∧
      (results.filterMap (·.message)).map Message.view =
        (parse o.policy map fresh consumed).frames.map Frame.view ∧
      (∀ b, r.decoder.Begins results b → ∃ x, consumed[b]? = some x ∧ x.flagged = true ∧
        (o.policy = .drop → (x.tells Tag.syncTime Tag.time?).isSome = true ∧
          (x.tells Tag.syncOffset Tag.number?).isSome = true)) ∧
      (∀ i result m, results[i]? = some result → result.message = some m →
        ∃ b, r.decoder.Belongs o.policy map fresh consumed results m b i) ∧
      ∀ queue' events' s', (Session.start r queue').run events' = .ok s' →
        r.decoder.Heeds results consumed (s'.consumed map.occupied) →
          s'.receiver.decoder = s.receiver.decoder ∧
          s'.Delivered queue' [] 0 (results.filterMap (·.message)) := by
  intro map fresh consumed
  obtain ⟨-, hstart⟩ := Session.sound_start hbuild queue
  have hunused := unused_of_build hbuild
  have hfollows : r.decoder.Follows o.policy map fresh none :=
    hstart.follows_of_searching hunused.searching
  obtain ⟨results, htrace, hdecoder, hdelivered⟩ := exists_trace hbuild hrun
  refine ⟨results, htrace, hdecoder, hdelivered, hfollows.frames_trace htrace, fun b hb => ?_,
    fun i result m hresult hm => ?_, fun queue' events' s' hrun' hheeds => ?_⟩
  · obtain ⟨x, hx, hflag, -, hboth⟩ :=
      hfollows.tells_of_begins placed_of_mem_receptions htrace hb
    exact ⟨x, hx, hflag, hboth⟩
  · exact hfollows.exists_belongs hunused.silent placed_of_mem_receptions htrace hresult hm
  · obtain ⟨results', htrace', hdecoder', hdelivered'⟩ := exists_trace hbuild hrun'
    obtain rfl : results = results' := Except.ok.inj ((hheeds.trace htrace).symm.trans htrace')
    exact ⟨hdecoder'.trans hdecoder.symm, hdelivered'⟩

/-! ### An overlapping burst

Two times are put on the flagged symbol of a burst, and another one on a symbol inside of it that is
flagged as well. Every decision goes to the same point, so the uniform message is received. -/

/-- The flags of a burst that is interrupted by another. -/
def overlapping : List UInt8 := [1, 0, 0, 0, 0, 1] ++ List.replicate 15 0

/-- Times on both flags, two of them on the first. -/
def timed : List (Tag Float) :=
  [{ index := 0, key := Tag.syncTime, value := .time ⟨5, 0⟩ },
    { index := 0, key := Tag.syncTime, value := .time ⟨7, 0⟩ },
    { index := 5, key := Tag.syncTime, value := .time ⟨9, 0⟩ }]

/-- What the receiver is fed. -/
def overlap : List Event :=
  [.symbols (.push (List.replicate 21 Phasor.one) []), .flags (.push overlapping timed)]

theorem exists_overlap :
    ∃ (r : FrameReceiver) (s : Session), uniformReceiver.build = .ok r ∧
      (Session.start r {}).run (overlap ++ [.work]) = .ok s ∧
      r.decoder.map = soleCarrier ∧ s.taken = [] ∧ s.symbols.data.length = 21 ∧
      s.receiver.symbols.read = 21 ∧
      (reception 1 s.symbols s.flags 0).flagged = true ∧
      (reception 1 s.symbols s.flags 0).tells Tag.syncTime Tag.time? = some ⟨7, 0⟩ ∧
      (reception 1 s.symbols s.flags 0).tells Tag.syncOffset Tag.number? = none := by
  obtain ⟨r, hbuild, h⟩ := Fault.exists_ok_of_any (x := uniformReceiver.build)
    (p := fun r => ((Session.start r {}).run overlap).toOption.any fun s =>
      s.symbols.data.length == 21 && s.flags.data.length == 21 &&
        !s.receiver.derotated.connected && s.taken.isEmpty &&
        (reception 1 s.symbols s.flags 0).flagged &&
        (reception 1 s.symbols s.flags 0).tells Tag.syncTime Tag.time? == some ⟨7, 0⟩ &&
        ((reception 1 s.symbols s.flags 0).tells Tag.syncOffset Tag.number?).isNone)
    (by decide +kernel)
  obtain ⟨fed, hfed, h⟩ := Fault.exists_ok_of_any h
  simp only [Bool.and_eq_true, beq_iff_eq, Bool.not_eq_true', List.isEmpty_iff,
    Option.isNone_iff_eq_none] at h
  obtain ⟨⟨⟨⟨⟨⟨hsymbols, hflags⟩, hdeaf⟩, htaken⟩, hflagged⟩, htime⟩, hoffset⟩ := h
  have hmap := ReceiverOptions.carrierMap_of_some (Session.sound_start hbuild {}).1 rfl
  obtain ⟨s, hrun, hsymbols', hflags', htaken', hread⟩ :=
    Session.exists_worked hbuild (fun m hm => by cases hm; decide) hfed hdeaf
  rw [hmap, hsymbols, hflags] at hread
  rw [← hsymbols', ← hflags'] at hflagged htime hoffset
  exact ⟨r, s, hbuild, hrun, hmap, htaken'.trans htaken, hsymbols' ▸ hsymbols, hread, hflagged,
    htime, hoffset⟩

/-- The message has the time that was put last on the symbol that began its burst. -/
theorem messages_attributed_overlap :
    ∃ (r : FrameReceiver) (s : Session) (m : Message), uniformReceiver.build = .ok r ∧
      (Session.start r {}).run (overlap ++ [.work]) = .ok s ∧
      s.taken ++ s.queue.messages = [m] ∧ m.time = some ⟨7, 0⟩ ∧ m.offset = none := by
  obtain ⟨r, s, hbuild, hrun, hmap, htaken, hsymbols, hread, hflagged, htime, hoffset⟩ :=
    exists_overlap
  obtain ⟨results, htrace, -, hdelivered, hviews, -, hbelongs, -⟩ :=
    messages_attributed hbuild hrun
  let heard := reception 1 s.symbols s.flags
  have hconsumed : s.consumed soleCarrier.occupied = (uniformHop heard).air := by
    rw [Session.consumed, hread, air_uniformHop]
    rfl
  have hbrings : (uniformHop heard).Brings soleCarrier
      (Demapper.start onePlace soleCarrier.size uniformReceiver.gains) uniform := by
    refine brings_uniformHop (by decide +kernel) hflagged fun i hi => ?_
    simp only [heard, reception, List.length_take, List.length_drop, hsymbols]
    omega
  have hparsed := parse_hops (.cons hbrings .nil) (fun m hm => by
    rw [List.mem_singleton.1 hm]
    decide +kernel) rfl (Nat.lt_of_lt_of_eq (by decide) bits_onePlace.symm)
    (Nat.le_of_eq bits_onePlace) fun _ hr => absurd hr List.not_mem_nil
  rw [List.append_nil, List.flatMap_singleton, ← hconsumed] at hparsed
  rw [hmap] at htrace hviews hbelongs
  obtain ⟨m, hm, hview⟩ := List.map_eq_singleton_iff.1
    (hviews.trans (congrArg (fun p => p.frames.map Frame.view) hparsed))
  rw [hm] at hdelivered
  obtain ⟨result, hmem, hmessage⟩ :=
    List.mem_filterMap.1 (hm ▸ List.mem_singleton_self m : m ∈ results.filterMap (·.message))
  obtain ⟨i, hi⟩ := List.getElem?_of_mem hmem
  obtain ⟨b, hb⟩ := hbelongs i result m hi hmessage
  have hlength := BurstDecoder.length_trace htrace
  rw [Session.length_consumed, hread] at hlength
  have hfirst : b = 0 := by
    obtain ⟨offset, payload, -, hview'⟩ := hb.frame
    have hsymbols : i - b = 20 := by
      have hboth := congrArg (fun v => v.2.2) (hview'.symm.trans hview)
      dsimp only [Frame.view, Message.frame, Demapper.start] at hboth
      have hcount : symbolCount (soleCarrier.size * onePlace.bits) uniform.frameBytes = 20 := by
        rw [bits_onePlace]
        decide +kernel
      exact hboth.trans hcount
    have hlt := (List.getElem?_eq_some_iff.1 hi).1
    omega
  subst hfirst
  -- the first reception is all that was met up to the beginning of the burst
  have hmet : r.decoder.met ((s.consumed soleCarrier.occupied).take 1) (results.take 1) =
      [heard 0] := by
    obtain ⟨a, more, rfl⟩ := List.exists_cons_of_length_eq_add_one hlength
    rw [hconsumed]
    show r.decoder.met [heard 0] [a] = [heard 0]
    rw [BurstDecoder.met, (unused_of_build hbuild).searching, hflagged]
    rfl
  have hnoted := hb.time_eq
  have hnoted' := hb.offset_eq
  rw [Nat.zero_add, hmet, noted, List.filterMap_cons, htime] at hnoted
  rw [Nat.zero_add, hmet, noted, List.filterMap_cons, hoffset] at hnoted'
  obtain ⟨-, out, kept, hout, hkept, hsublist, hcount, hall⟩ := hdelivered
  rw [hall (.inl rfl), Nat.add_zero, Nat.zero_add] at hcount
  rw [List.nil_append] at hout
  rw [← hout, List.nil_append] at hkept
  exact ⟨r, s, m, hbuild, hrun, hkept.trans (hsublist.eq_of_length hcount), hnoted, hnoted'⟩

end FrameReceiver

end OfdmBurst
