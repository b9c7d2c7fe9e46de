import OfdmBurst.Proofs.Frame.Hops
import OfdmBurst.Proofs.FrameMapper.Emission
import OfdmBurst.Proofs.FrameReceiver.Refinement

/-!
# From messages to messages

A mapper turns messages into symbols, and a receiver turns symbols into messages. Between the two,
symbols are cut to the occupied carriers, a preamble is put in front of every burst, and whatever
the channel does to a symbol is done to it. None of this is described here. All that counts is what
is decided for the data carriers in the end: if these are the groups that the mapper has put there,
the receiver has the messages that the mapper was given.

Sender and receiver are independent programs that meet in one description of a burst, `patterns`: a
mapper's symbols carry these groups, and a hop brings a message if these groups are decided.

## Main results

* `receiver_inverts_mapper` — messages in, messages out
* `receiver_inverts_mapper_uniform_message` — a message that goes through
-/

namespace OfdmBurst

/-- Carriers that are listed once are not more than there are. -/
theorem CarrierMap.size_le_of_nodup {map : CarrierMap} (h : map.carriers.Nodup) :
    map.size ≤ map.occupied :=
  length_le_of_nodup h map.lt_occupied

theorem MessageQueue.HasRoom.mono {queue : MessageQueue} {n k : Nat} (h : queue.HasRoom n)
    (hk : k ≤ n) : queue.HasRoom k := by
  rw [HasRoom] at h ⊢
  omega

theorem ReceiverOptions.carrierMap_of_some {o : ReceiverOptions} {map map' : CarrierMap}
    (h : o.carrierMap = .ok map) (hmap : o.map = some map') : map = map' := by
  rw [carrierMap, hmap] at h
  obtain ⟨m, hm, h⟩ := Fault.bind_eq_ok_iff.1 h
  cases hm
  dsimp only at h
  split at h
  · cases h
    rfl
  · cases h

namespace FrameReceiver

/-- The queue has the messages of these frames, behind those that were in it before. -/
def Session.Has (before : MessageQueue) (s : Session) (frames : List Frame) : Prop :=
  ∃ kept : List Message, s.taken ++ s.queue.messages = before.messages ++ kept ∧
    kept.map Message.view = frames.map Frame.view

/-- What the reference makes of the symbols is what the receiver makes of them. -/
theorem Session.Sound.outcome {policy : MissingTagPolicy} {map : CarrierMap}
    {fresh : Demapper Float32} {before : MessageQueue} {s : Session}
    (h : s.Sound policy map fresh before) {p : Parse} (hp : s.parsed policy map fresh = p)
    (hroom : before.HasRoom p.frames.length) :
    s.receiver.decoder.searching = p.burst.isNone ∧ s.Has before p.frames := by
  subst hp
  obtain ⟨kept, hmessages, -, -, hall⟩ := h.handed
  exact ⟨h.searching_eq, kept, hmessages, hall hroom⟩

end FrameReceiver

section RoundTrip

variable {constellation : Constellation Float32} {map : CarrierMap} {fft : Nat}

/-- **A receiver inverts a mapper**, for any complete constellation of up to eight bits, any map that
lists no carrier twice, and any messages, in whatever pieces both are run.

A mapper never gets stuck. Once it has sent everything, it has emitted a burst for each message that
has one, in order, with the groups of the message on its data carriers. A receiver with the same
constellation and map is given hops in which these groups are decided. Between bursts its queue has
exactly the messages whose bursts are over, and it searches. Inside of a burst it does not search
until the last symbol, and with the last symbol it has the message. -/
theorem receiver_inverts_mapper (hbits : 1 ≤ constellation.bits) (hbits' : constellation.bits ≤ 8)
    (hnodup : map.carriers.Nodup)
    {mapper : FrameMapper} (hmapper : FrameMapper.ofParts constellation map fft = .ok mapper)
    {limit : Nat} {sending : List FrameMapper.Event} {sent : FrameMapper.Session}
    (hsending : (FrameMapper.Session.start mapper limit).run sending = .ok sent)
    {o : ReceiverOptions} {receiver : FrameReceiver} (hreceiver : o.build = .ok receiver)
    (hconstellation : o.constellation = constellation) (hmap : o.map = some map)
    (hpolicy : o.policy = .keep)
    {queue : MessageQueue} {receiving : List FrameReceiver.Event} {s : FrameReceiver.Session}
    (hreceiving : (FrameReceiver.Session.start receiver queue).run receiving = .ok s)
    {hops : List Hop} (hhops : List.Forall₂
      (fun m hop => hop.Brings map (Demapper.start constellation map.size o.gains) m)
      (sent.accepted.filter Message.isSendable) hops)
    (hroom : queue.HasRoom hops.length) :
    let messages := sent.accepted.filter Message.isSendable
    let frame := Message.frame (map.size * constellation.bits)
    let received := FrameReceiver.receptions map.occupied s.symbols s.flags s.receiver.symbols.read
    ((∀ source, ∃ turn, sent.mapper.work source sent.queue = .ok turn ∧
        (turn.block.room = 0 ∨ turn.finished = true ∨
          turn.block.burst = none ∧ turn.queue.messages = [])) ∧
      (sent.queue.messages = [] → sent.mapper.burst = none →
        ∃ bursts : List (List (List Sample)), sent.symbolsOut = bursts.flatten.flatten ∧
          List.Forall₂ (fun m burst => List.Forall₂ mapper.Carries
            (patterns constellation.bits map.size m.frameBytes) burst) messages bursts ∧
          sent.flagsOut = bursts.flatMap (fun b => FrameMapper.flagsOf b.length) ∧
          sent.endsOut = bursts.flatMap (fun b => FrameMapper.endsOf b.length))) ∧
    (∀ k gap, (∀ r ∈ gap, r.flagged = false) →
      received = (hops.take k).flatMap Hop.air ++ gap →
        s.receiver.decoder.searching = true ∧ s.Has queue ((messages.take k).map frame)) ∧
    (∀ k hop n, hops[k]? = some hop → n ≤ hop.burst.length →
      received = (hops.take k).flatMap Hop.air ++ (hop.gap ++ hop.sync :: hop.burst.take n) →
        s.receiver.decoder.searching = decide (n = hop.burst.length) ∧
          s.Has queue ((messages.take (if n = hop.burst.length then k + 1 else k)).map frame)) ∧
    ∃ turn, s.receiver.work s.queue = .ok turn ∧
      (turn.block.available = 0 ∨
        turn.block.derotated.connected ∧ turn.block.derotated.room = 0) := by
  obtain ⟨hfirst, rfl, rfl, -⟩ := FrameMapper.Session.sound_start hmapper limit
  obtain ⟨emitted, rest, hsent⟩ := FrameMapper.Session.sound hfirst hbits hsending
  obtain ⟨hcarrierMap, hstart⟩ := FrameReceiver.Session.sound_start hreceiver queue
  have hsame := ReceiverOptions.carrierMap_of_some hcarrierMap hmap
  have hsound := FrameReceiver.Session.sound hstart hreceiving
  rw [hsame, hconstellation, hpolicy] at hsound
  have hsendable : ∀ m ∈ sent.accepted.filter Message.isSendable, m.isSendable = true := fun m hm =>
    (List.mem_filter.1 hm).2
  have hlength := hhops.length_eq
  refine ⟨⟨hsent.work_returns hbits, fun hqueue hburst => hsent.bursts hnodup hqueue hburst⟩,
    fun k gap hgap hreceived => ?_, fun k hop n hhop hn hreceived => ?_,
    hsound.work_returns (CarrierMap.size_le_of_nodup hnodup)⟩
  · have hparsed := parse_hops (List.forall₂_take k hhops)
      (fun m hm => hsendable m (List.mem_of_mem_take hm)) rfl hbits hbits' hgap
    rw [← hreceived] at hparsed
    refine hsound.outcome hparsed (hroom.mono ?_)
    rw [List.length_map, List.length_take]
    omega
  · obtain ⟨hk, rfl⟩ := List.getElem?_eq_some_iff.1 hhop
    have hk' : k < (sent.accepted.filter Message.isSendable).length := hlength ▸ hk
    have hbrings : hops[k].Brings mapper.map
        (Demapper.start mapper.constellation mapper.map.size o.gains)
        (sent.accepted.filter Message.isSendable)[k] := (List.forall₂_iff_get.1 hhops).2 k hk' hk
    have hparsed := parse_hops_burst (List.forall₂_take k hhops)
      (fun m hm => hsendable m (List.mem_of_mem_take hm)) rfl hbits hbits' hbrings
      (hsendable _ (List.getElem_mem hk')) hn
    rw [List.take_append_getElem hk', ← hreceived] at hparsed
    by_cases hlast : n = hops[k].burst.length
    · rw [if_pos hlast] at hparsed ⊢
      rw [decide_eq_true hlast]
      refine hsound.outcome hparsed (hroom.mono ?_)
      rw [List.length_map, List.length_take]
      omega
    · rw [if_neg hlast] at hparsed ⊢
      rw [decide_eq_false hlast]
      refine hsound.outcome hparsed (hroom.mono ?_)
      rw [List.length_map, List.length_take]
      omega

end RoundTrip

/-! ### A message goes through

With all points in one place, every decision goes to the first of them, whatever the tracking does.
So a receiver hears one byte over and over. If that is sixteen, it hears a header for sixteen bytes
with offset one, and then these bytes. A mapper sends just that for the message of them. -/

theorem float32_not_lt_self (x : Float32) : ¬ x < x := by
  have hcompare : ∀ u : Float.Model.UnpackedFloat, u.compare u ≠ some .lt := by
    intro u
    cases u with
    | infinity s => cases s <;> decide
    | notANumber => decide
    | zero s => cases s <;> decide
    | finite s m e hm =>
      have hself : (compare e e).then (compare m m) = .eq := by simp
      cases s with
      | negative =>
        show some ((compare e e).then (compare m m)).swap ≠ some .lt
        rw [hself]
        decide
      | positive =>
        show some ((compare e e).then (compare m m)) ≠ some .lt
        rw [hself]
        decide
  intro h
  have hlt : x.lt x = true := h
  rw [Float32.lt, decide_eq_true_iff] at hlt
  have hmodel : x.toModel.unpack.lt x.toModel.unpack = true := hlt
  rw [Float.Model.UnpackedFloat.lt, beq_iff_eq] at hmodel
  exact hcompare _ hmodel

theorem nearest_of_one_place {c : Constellation Float32} {p : Sample} (h : ∀ i, c.pointAt i = p)
    (x : Sample) : c.nearest x = ⟨0, c.size_pos⟩ :=
  Constellation.nearest_eq (fun j hj => absurd hj (Nat.not_lt_zero j.val)) fun j _ => by
    rw [h, h]
    exact float32_not_lt_self _

theorem value_onePlace {c : Constellation Float32} (hc : c = onePlace) (gain : Float32)
    (carrier received tap : Sample) :
    (Demapper.decideOne c gain carrier received tap).value = 16 := by
  subst hc
  have hone : ∀ i, onePlace.pointAt i = Phasor.one := fun i =>
    List.eq_of_mem_replicate (List.get_mem onePlace.points i)
  rw [Decision.value, Demapper.decideOne]
  simp only [nearest_of_one_place hone]
  rfl

theorem decided_onePlace {d : Demapper Float32} (hd : d.constellation = onePlace)
    (htaps : d.taps.length = 1) {symbols : List (List Sample)} (h : ∀ x ∈ symbols, x.length = 1) :
    d.decided soleCarrier symbols = .ok (List.replicate symbols.length [16]) := by
  induction symbols generalizing d with
  | nil => rfl
  | cons x rest ih =>
    have hcarriers : ∀ k ∈ soleCarrier.carriers, k < x.length := by
      intro k hk
      rw [h x List.mem_cons_self]
      exact soleCarrier.lt_occupied k hk
    obtain ⟨e, report, hdemap⟩ := Demapper.demap_returns hcarriers (Nat.le_of_eq htaps.symm)
    obtain ⟨hconstellation, -, hlength, -⟩ := Demapper.demap_frame hdemap
    have hmore := ih (hconstellation.trans hd) (hlength.trans htaps)
      fun y hy => h y (List.mem_cons_of_mem _ hy)
    have hslice : d.slice soleCarrier x = .ok [16] := by
      obtain ⟨carriers, hcarriers, -⟩ := Fault.bind_eq_ok_iff.1 hdemap
      obtain ⟨⟨y, tap⟩, rfl⟩ := List.length_eq_one_iff.1 (Demapper.length_carriersOf hcarriers).1
      refine Fault.bind_eq_ok_iff.2 ⟨_, hcarriers, ?_⟩
      rw [List.map_singleton]
      dsimp only
      rw [value_onePlace hd]
      rfl
    exact Fault.bind_eq_ok_iff.2 ⟨[16], hslice, Fault.bind_eq_ok_iff.2 ⟨_, hdemap,
      Fault.bind_eq_ok_iff.2 ⟨_, hmore, rfl⟩⟩⟩

/-- The message that is one byte over and over, its header included. -/
def uniform : Message := { arg1 := 1, payload := List.replicate 16 16 }

/-- The mapper that sends it. Its table is written out. -/
def uniformMapper : FrameMapper where
  symbols := { name := "out", width := 1, width_pos := Nat.one_pos }
  flags := .scalar "flag"
  ends := .scalar "eob"
  constellation := onePlace
  map := soleCarrier
  fft := 1
  points := (List.replicate 256 Phasor.one).toArray
  occupied_le := Nat.le_refl 1
  complete := isComplete_onePlace
  points_eq := congrArg List.toArray pointTable_onePlace.symm

theorem ofParts_onePlace : FrameMapper.ofParts onePlace soleCarrier 1 = .ok uniformMapper := by
  rw [FrameMapper.ofParts, dif_neg (by decide), dif_pos isComplete_onePlace]
  simp only [pointTable_onePlace]
  rfl

/-- The message, and room for its twenty symbols. -/
def uniformSending : List FrameMapper.Event :=
  [.enqueue uniform, .symbols (.reserve 20), .flags (.reserve 20), .ends (.reserve 20),
    .work "mapper"]

theorem exists_sent :
    ∃ (sent : FrameMapper.Session) (m : Message),
      (FrameMapper.Session.start uniformMapper 0).run uniformSending = .ok sent ∧
      sent.symbolsOut = List.replicate 20 Phasor.one ∧
      sent.accepted.filter Message.isSendable = [m] ∧
      m.frameBytes = List.replicate 20 16 ∧ m.frame 8 = ⟨1, List.replicate 16 16, 20⟩ := by
  obtain ⟨sent, hsent, hchecks⟩ := Fault.exists_ok_of_any
    (x := (FrameMapper.Session.start uniformMapper 0).run uniformSending)
    (p := fun s => decide (s.symbolsOut = List.replicate 20 Phasor.one) &&
      (s.accepted.filter Message.isSendable).map (fun m => (m.frameBytes, m.frame 8)) ==
        [(List.replicate 20 16, ⟨1, List.replicate 16 16, 20⟩)])
    (by decide +kernel)
  simp only [Bool.and_eq_true, beq_iff_eq, decide_eq_true_eq, List.map_eq_singleton_iff,
    Prod.mk.injEq] at hchecks
  obtain ⟨hsymbols, m, hm, hbytes, hframe⟩ := hchecks
  exact ⟨sent, m, hsent, hsymbols, hm, hbytes, hframe⟩

/-- The hop of a flagged symbol and twenty symbols of one carrier. -/
def uniformHop (heard : Nat → Reception) : Hop :=
  ⟨[], heard 0, (List.range 20).map fun i => heard (i + 1)⟩

theorem air_uniformHop (heard : Nat → Reception) :
    (uniformHop heard).air = (List.range 21).map heard := by
  rw [List.range_succ_eq_map, List.map_cons, List.map_map]
  rfl

/-- What the receiver is built from. -/
def uniformReceiver : ReceiverOptions where
  constellation := onePlace
  occupied := 1
  map := some soleCarrier

/-- The hop brings any message whose bytes are those of `uniform`. -/
theorem brings_uniformHop {heard : Nat → Reception} {m : Message}
    (hm : m.frameBytes = List.replicate 20 16) (hsync : (heard 0).flagged = true)
    (hwidth : ∀ i < 20, (heard (i + 1)).symbol.length = 1) :
    (uniformHop heard).Brings soleCarrier
      (Demapper.start onePlace soleCarrier.size uniformReceiver.gains) m := by
  refine ⟨fun _ hr => absurd hr List.not_mem_nil, hsync, ?_⟩
  have hpatterns : patterns (Demapper.start onePlace soleCarrier.size
      uniformReceiver.gains).constellation.bits soleCarrier.size m.frameBytes =
        List.replicate 20 [16] := by
    rw [hm, Demapper.start, bits_onePlace]
    decide +kernel
  refine (decided_onePlace rfl rfl fun x hx => ?_).trans (congrArg Except.ok hpatterns.symm)
  obtain ⟨r, hr, rfl⟩ := List.mem_map.1 hx
  obtain ⟨i, hi, rfl⟩ := List.mem_map.1 hr
  exact hwidth i (List.mem_range.1 hi)

/-- A receiver to which nobody listens consumes whatever it is fed. -/
theorem exists_received :
    ∃ (receiver : FrameReceiver) (s : FrameReceiver.Session), uniformReceiver.build = .ok receiver ∧
      (FrameReceiver.Session.start receiver {}).run
        [.symbols (.push (Phasor.zero :: List.replicate 20 Phasor.one) []),
          .flags (.push (1 :: List.replicate 20 0) []), .work] = .ok s ∧
      s.symbols.data.length = 21 ∧ s.flags.data = 1 :: List.replicate 20 0 ∧
      s.receiver.symbols.read = 21 := by
  obtain ⟨receiver, hreceiver, hfeeding⟩ := Fault.exists_ok_of_any (x := uniformReceiver.build)
    (p := fun receiver => ((FrameReceiver.Session.start receiver {}).run
      [.symbols (.push (Phasor.zero :: List.replicate 20 Phasor.one) []),
        .flags (.push (1 :: List.replicate 20 0) [])]).toOption.any fun s =>
          s.symbols.data.length == 21 && s.flags.data == 1 :: List.replicate 20 0 &&
            !s.receiver.derotated.connected)
    (by decide +kernel)
  obtain ⟨fed, hfed, hchecks⟩ := Fault.exists_ok_of_any hfeeding
  simp only [Bool.and_eq_true, beq_iff_eq, Bool.not_eq_true'] at hchecks
  obtain ⟨⟨hsymbols, hflags⟩, hdeaf⟩ := hchecks
  have hmap := ReceiverOptions.carrierMap_of_some
    (FrameReceiver.Session.sound_start hreceiver {}).1 rfl
  obtain ⟨s, hrun, hsymbols', hflags', -, hread⟩ :=
    FrameReceiver.Session.exists_worked hreceiver (fun m hm => by cases hm; decide) hfed hdeaf
  rw [hmap, hsymbols, hflags] at hread
  exact ⟨receiver, s, hreceiver, hrun, hsymbols' ▸ hsymbols, hflags' ▸ hflags, hread⟩

/-- **A message goes through.** The mapper sends it as twenty symbols. They are received as they were
sent, behind a flagged one, and in the end the receiver has the message and searches. -/
theorem receiver_inverts_mapper_uniform_message :
    ∃ (mapper : FrameMapper) (sent : FrameMapper.Session) (receiver : FrameReceiver)
      (s : FrameReceiver.Session),
      FrameMapper.ofParts onePlace soleCarrier 1 = .ok mapper ∧
      (FrameMapper.Session.start mapper 0).run uniformSending = .ok sent ∧
      uniformReceiver.build = .ok receiver ∧
      (FrameReceiver.Session.start receiver {}).run
        [.symbols (.push (Phasor.zero :: sent.symbolsOut) []),
          .flags (.push (1 :: List.replicate 20 0) []), .work] = .ok s ∧
      s.receiver.decoder.searching = true ∧ s.Has {} [⟨1, List.replicate 16 16, 20⟩] := by
  obtain ⟨sent, m, hsending, hsent, hm, hbytes, hframe⟩ := exists_sent
  obtain ⟨receiver, s, hreceiver, hreceiving, hsymbols, hflags, hread⟩ := exists_received
  let heard := FrameReceiver.reception 1 s.symbols s.flags
  have hsync : (heard 0).flagged = true := by
    show (s.flags.data.getD 0 0 != 0) = true
    rw [hflags]
    rfl
  have hbrings := brings_uniformHop hbytes hsync fun i hi => by
    simp only [heard, FrameReceiver.reception, List.length_take, List.length_drop, hsymbols]
    omega
  have hreceived : FrameReceiver.receptions soleCarrier.occupied s.symbols s.flags
      s.receiver.symbols.read = [uniformHop heard].flatMap Hop.air ++ [] := by
    rw [hread, List.append_nil, List.flatMap_singleton, air_uniformHop]
    rfl
  have hhops : List.Forall₂ (fun m hop => hop.Brings soleCarrier
      (Demapper.start onePlace soleCarrier.size uniformReceiver.gains) m)
      (sent.accepted.filter Message.isSendable) [uniformHop heard] := hm ▸ .cons hbrings .nil
  obtain ⟨-, hbetween, -⟩ := receiver_inverts_mapper (by rw [bits_onePlace]; decide)
    (Nat.le_of_eq bits_onePlace) (by decide) ofParts_onePlace hsending hreceiver rfl rfl rfl
    hreceiving hhops (.inl rfl)
  obtain ⟨hsearching, hhas⟩ := hbetween 1 [] (fun _ hr => absurd hr List.not_mem_nil) hreceived
  rw [hm, bits_onePlace] at hhas
  refine ⟨uniformMapper, sent, receiver, s, ofParts_onePlace, hsending, hreceiver, ?_, hsearching,
    hframe ▸ hhas⟩
  rw [hsent]
  exact hreceiving

end OfdmBurst
