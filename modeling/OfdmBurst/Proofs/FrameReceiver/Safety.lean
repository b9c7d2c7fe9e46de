import OfdmBurst.Proofs.Carrier.Constellation
import OfdmBurst.Proofs.Carrier.Packing
import OfdmBurst.Proofs.Frame.Absorption
import OfdmBurst.Proofs.FrameReceiver.Refinement

/-!
# A receiver under guards

What a receiver is sent comes over the air, and anyone may send it. So it must not be possible to
lead it to a place where it has no way on: an index behind a symbol, a shift by more than a byte, a
length below zero, or a loop that makes no progress.

`FrameReceiver.stepGuarded` is the step of a receiver in which the bits are packed and the bytes are
gone through as a machine does it, with guards. It is the step of the program, and that leads to a
result. Both rest on the bounds that hold between two steps, `BurstDecoder.Bounded`, and these rest
on what was checked when constellation, map and receiver were built.

## Scope

`Session.Sound` already says that a receiver never gets stuck, for faults of the program. What it
does not say is what the parser and the packer hold, because its reference has neither.

## Main definitions

* `Demapper.demapGuarded`, `BurstDecoder.stepGuarded`, `FrameReceiver.stepGuarded`
* `BurstDecoder.Bounded` — the bounds between steps
* `FrameReceiver.steps` — some of the steps of a call of work

## Main results

* `BurstDecoder.Bounded.step` — a step keeps the bounds
* `FrameReceiver.stepGuarded_eq` — within the bounds no guard fails
* `FrameReceiver.never_faults` — every receiver, whatever it is sent
-/

namespace OfdmBurst

/-! ### Demapping -/

namespace Demapper

/-- Demap one symbol, and pack its bits under guards. -/
def demapGuarded (d : Demapper Float32) (map : CarrierMap) (symbol : List Sample) :
    Except Fault (Demapper Float32 × SymbolReport Float32 Float) := do
  let carriers ← carriersOf symbol d.taps map
  let carrier := Phasor.turn d.phase
  let decisions := carriers.map fun (received, tap) =>
    decideOne d.constellation d.gains.equalizer carrier received tap
  let (bytes, packer) ←
    d.packer.pack d.constellation.bits decisions.length (decisions.map fun x => x.value.toNat)
  let off := sum (· + ·) Phasor.zero (fun x => x.turned * x.point.conj) decisions
  let next := d.track off.angle
  return ({ next with
      taps := decisions.map (·.tap) ++ d.taps.drop decisions.length
      packer },
    report bytes decisions)

variable {d e : Demapper Float32} {map : CarrierMap} {symbol : List Sample}

theorem value_lt (hc : d.constellation.Valid) (decisions : List (Decision d.constellation)) :
    ∀ v ∈ decisions.map fun x => x.value.toNat, v < 2 ^ d.constellation.bits := by
  intro v hv
  obtain ⟨x, -, rfl⟩ := List.mem_map.1 hv
  exact hc.valueAt_lt x.place

theorem demapGuarded_eq (hc : d.constellation.Valid) (hp : d.packer.Settled) :
    d.demapGuarded map symbol = d.demap map symbol := by
  rw [demapGuarded, demap]
  refine bind_congr fun carriers => ?_
  dsimp only
  rw [BitPacker.pack_eq_placeAll hp hc.bits_le (value_lt hc _)
    (Nat.le_of_eq (List.length_map _))]
  rfl

/-- Between symbols a packer is settled. -/
theorem settled_demap (hc : d.constellation.Valid) (hp : d.packer.Settled)
    {report : SymbolReport Float32 Float} (h : d.demap map symbol = .ok (e, report)) :
    e.packer.Settled := by
  obtain ⟨carriers, -, hpure⟩ := Fault.bind_eq_ok_iff.1 h
  cases hpure
  exact (BitPacker.bits_placeAll hp hc.bits_le (value_lt hc _)).1

end Demapper

/-! ### Decoding -/

namespace BurstDecoder

/-- Go on to the next symbol, under guards. -/
def stepGuarded (d : BurstDecoder) (flagged : Bool) (tags : List (Tag Float))
    (symbol : List Sample) : Except Fault Result :=
  match d.parser with
  | none => .ok { decoder := if flagged then d.meet tags else d }
  | some parser => do
    let (demapper, report) ← d.demapper.demapGuarded d.map symbol
    let d := { d with demapper, quality := d.quality.add report }
    let verdict ← parser.absorb report.bytes report.bytes.length 0
    let (decoder, message) := d.conclude verdict
    return { decoder, message, report := some report }

/-- **The bounds between steps.** A header that is open has fewer than four bytes, and its word has
no more. A payload that is open is shorter than announced, and no more than twelve bits are. There is
a tap for every data carrier. The open byte has room, with nothing above its filled bits, and the
residue is less than a byte and waits only behind an empty one. -/
structure Bounded (d : BurstDecoder) : Prop where
  /-- An open header or payload is within its bounds. -/
  parser : ∀ p, d.parser = some p → p.Bounded
  /-- There is a tap for every data carrier. -/
  taps : d.demapper.taps.length = d.map.size
  /-- The open byte and the residue are within theirs. -/
  packer : d.demapper.packer.Settled

namespace Bounded

variable {d : BurstDecoder} {flagged : Bool} {tags : List (Tag Float)} {symbol : List Sample}

/-- **Within the bounds no guard fails.** -/
theorem stepGuarded_eq (h : d.Bounded) (hc : d.demapper.constellation.Valid) :
    d.stepGuarded flagged tags symbol = d.step flagged tags symbol := by
  rw [stepGuarded, BurstDecoder.step]
  cases hparser : d.parser with
  | none => rfl
  | some p =>
    dsimp only
    rw [Demapper.demapGuarded_eq hc h.packer]
    refine bind_congr fun demapped => ?_
    obtain ⟨demapper, report⟩ := demapped
    dsimp only
    rw [FrameParser.absorb_eq_feed (h.parser p hparser) (by omega)]
    rfl

theorem meet (h : d.Bounded) (tags : List (Tag Float)) : (d.meet tags).Bounded := by
  rw [meet_eq]
  dsimp only
  split
  · refine ⟨fun p hp => ?_, ?_, BitPacker.settled_empty⟩
    · cases hp
      exact FrameParser.bounded_start
    · exact List.length_replicate.trans h.taps
  · exact ⟨h.parser, h.taps, h.packer⟩

/-- A verdict leaves the bounds as they are, whatever it is. -/
theorem conclude (htaps : d.demapper.taps.length = d.map.size) (hpacker : d.demapper.packer.Settled)
    {verdict : FrameParser.Verdict} (hmore : ∀ p, verdict = .more p → p.Bounded) :
    (d.conclude verdict).1.Bounded := by
  cases verdict with
  | more p =>
    refine ⟨fun q hq => ?_, htaps, hpacker⟩
    cases hq
    exact hmore p rfl
  | refused => exact ⟨fun q hq => (by cases hq), htaps, hpacker⟩
  | frame header payload => exact ⟨fun q hq => (by cases hq), htaps, hpacker⟩

/-- **A step keeps the bounds.** -/
theorem step (h : d.Bounded) (hc : d.demapper.constellation.Valid) {result : Result}
    (hstep : d.step flagged tags symbol = .ok result) : result.decoder.Bounded := by
  rw [BurstDecoder.step] at hstep
  cases hparser : d.parser with
  | none =>
    rw [hparser] at hstep
    cases hstep
    dsimp only
    split
    · exact h.meet tags
    · exact h
  | some p =>
    simp only [hparser, Fault.bind_eq_ok_iff, Fault.pure_eq_ok_iff] at hstep
    obtain ⟨⟨demapper, report⟩, hdemap, rfl⟩ := hstep
    obtain ⟨-, -, htaps, -⟩ := Demapper.demap_frame hdemap
    refine conclude (htaps.trans h.taps) (Demapper.settled_demap hc h.packer hdemap) ?_
    exact fun q hq => (h.parser p hparser).feed hq

end Bounded

end BurstDecoder

/-! ### Receiving -/

namespace FrameReceiver

/-- Go on to the next symbol, under guards. -/
def stepGuarded (r : FrameReceiver) (queue : MessageQueue) :
    Except Fault (FrameReceiver × MessageQueue) := do
  let flag ← Fault.found r.flags.buffer.toList.head?
  let symbol ← r.symbols.item 0
  let result ← r.decoder.stepGuarded (flag != 0) (r.flags.tagsOn r.flags.read) symbol
  let derotated ←
    if r.derotated.connected then r.derotated.put (← r.shown result.report) else pure r.derotated
  let symbols ← r.symbols.consume 1
  let flags ← r.flags.consume 1
  let next := { r with symbols, flags, derotated, decoder := result.decoder }
  match result.message with
  | some m => return next.deliver queue m
  | none => return (next, queue)

/-- The first `n` of the steps of a call of work. -/
def steps : Nat → FrameReceiver → MessageQueue → Except Fault (FrameReceiver × MessageQueue)
  | 0, r, queue => .ok (r, queue)
  | n + 1, r, queue => do
    let (next, queue) ← r.step queue
    steps n next queue

/-- **Within the bounds no guard fails.** -/
theorem stepGuarded_eq {r : FrameReceiver} (h : r.decoder.Bounded)
    (hc : r.decoder.demapper.constellation.Valid) (queue : MessageQueue) :
    r.stepGuarded queue = r.step queue := by
  rw [stepGuarded, step]
  refine bind_congr fun flag => bind_congr fun symbol => ?_
  exact congrArg (· >>= _) (h.stepGuarded_eq hc)

namespace Session

variable {o : ReceiverOptions} {map : CarrierMap} {before : MessageQueue} {s : Session}

/-- The constellation of a receiver is the one that it was built with. -/
theorem Sound.constellation_eq
    (h : s.Sound o.policy map (Demapper.start o.constellation map.size o.gains) before) :
    s.receiver.decoder.demapper.constellation = o.constellation :=
  congrArg Demapper.constellation h.follows.reset_eq

/-- **The bounds hold after every step**, between calls of work and within them. -/
theorem bounded_run (hc : o.constellation.Valid)
    (h : s.Sound o.policy map (Demapper.start o.constellation map.size o.gains) before)
    (hbounded : s.receiver.decoder.Bounded) {events : List Event} {t : Session}
    (hrun : s.run events = .ok t) :
    t.Sound o.policy map (Demapper.start o.constellation map.size o.gains) before ∧
      t.receiver.decoder.Bounded := by
  refine run_induct (P := fun s => s.Sound o.policy map
    (Demapper.start o.constellation map.size o.gains) before ∧ s.receiver.decoder.Bounded)
    ?_ ?_ ?_ ?_ ?_ ⟨h, hbounded⟩ hrun
  · rintro s p r e ⟨h, hb⟩ hmeet
    exact ⟨h.feedSymbols hmeet, hb⟩
  · rintro s p r e ⟨h, hb⟩ hmeet
    exact ⟨h.feedFlags hmeet, hb⟩
  · rintro s p r e ⟨h, hb⟩ hmeet
    exact ⟨h.readDerotated hmeet, hb⟩
  · rintro s m queue ⟨h, hb⟩ hm
    exact ⟨h.dequeue hm, hb⟩
  · rintro s next queue ⟨h, hb⟩ hstep
    refine ⟨h.step hstep, ?_⟩
    cases hstep with
    | mk _ _ decoded => exact hb.step (h.constellation_eq.symm ▸ hc) decoded

theorem bounded_steps (hc : o.constellation.Valid)
    (h : s.Sound o.policy map (Demapper.start o.constellation map.size o.gains) before)
    (hbounded : s.receiver.decoder.Bounded) {n : Nat} {r : FrameReceiver} {queue : MessageQueue}
    (hsteps : s.receiver.steps n s.queue = .ok (r, queue)) :
    ({ s with receiver := r, queue } : Session).Sound o.policy map
        (Demapper.start o.constellation map.size o.gains) before ∧ r.decoder.Bounded := by
  induction n generalizing s with
  | zero =>
    cases hsteps
    exact ⟨h, hbounded⟩
  | succ n ih =>
    obtain ⟨⟨next, queue'⟩, hstep, hrest⟩ := Fault.bind_eq_ok_iff.1 hsteps
    have hmoved := step_cases hstep
    refine ih (s := { s with receiver := next, queue := queue' }) (h.step hmoved) ?_ hrest
    cases hmoved with
    | mk _ _ decoded => exact hbounded.step (h.constellation_eq.symm ▸ hc) decoded

end Session

/-- **A receiver never faults**, whatever it is sent and however it is called. After any number of
steps of a call of work the bounds hold, no guard of the next step fails, and with a symbol at hand
and room for what it shows that step leads to a result. A call of work returns. -/
theorem never_faults {o : ReceiverOptions} {r : FrameReceiver} (hbuild : o.build = .ok r)
    (hc : o.constellation.Valid) (hgiven : ∀ m, o.map = some m → m.size ≤ m.occupied)
    {queue : MessageQueue} {events : List Event} {s : Session}
    (hrun : (Session.start r queue).run events = .ok s) :
    (∀ n next queue', s.receiver.steps n s.queue = .ok (next, queue') →
      next.decoder.Bounded ∧ next.stepGuarded queue' = next.step queue' ∧
        (next.available ≠ 0 → ¬ (next.derotated.connected ∧ next.derotated.room = 0) →
          ∃ after, next.step queue' = .ok after)) ∧
      ∃ turn, s.receiver.work s.queue = .ok turn := by
  obtain ⟨hmap, hstart⟩ := Session.sound_start hbuild queue
  have hsize := Session.size_le_of_carrierMap hmap hgiven
  have hbounded : (Session.start r queue).receiver.decoder.Bounded := by
    simp only [ReceiverOptions.build, Fault.bind_eq_ok_iff, Fault.pure_eq_ok_iff] at hbuild
    obtain ⟨map, -, _, -, _, -, _, -, rfl⟩ := hbuild
    exact ⟨fun p hp => (by cases hp), List.length_replicate, BitPacker.settled_empty⟩
  obtain ⟨hsound, hbounded⟩ := Session.bounded_run hc hstart hbounded hrun
  refine ⟨fun n next queue' hsteps => ?_, ?_⟩
  · obtain ⟨hsound, hbounded⟩ := Session.bounded_steps hc hsound hbounded hsteps
    refine ⟨hbounded, stepGuarded_eq hbounded (hsound.constellation_eq.symm ▸ hc) queue', ?_⟩
    exact fun havailable hroom => hsound.step_returns hsize havailable hroom
  · obtain ⟨turn, hturn, -⟩ := hsound.work_returns hsize
    exact ⟨turn, hturn⟩

/-- A receiver of one data carrier, which is the second of two. -/
def secondCarrier : ReceiverOptions where
  constellation := .bpsk
  occupied := 2
  map := some ⟨[1], 2, by decide, by decide⟩

/-- The last symbol of a preamble, and two symbols of the burst behind it. -/
def begun : List Event :=
  [.symbols (.push [⟨1, 0⟩, ⟨0, 1⟩, ⟨1, 1⟩, ⟨0, 0⟩, ⟨1, 0⟩, ⟨1, 0⟩] []), .flags (.push [1, 0, 0] [])]

theorem never_faults_begun :
    ∃ r s next queue, secondCarrier.build = .ok r ∧ (Session.start r {}).run begun = .ok s ∧
      s.receiver.steps 2 s.queue = .ok (next, queue) ∧ next.decoder.searching = false ∧
      next.decoder.Bounded ∧ next.stepGuarded queue = next.step queue ∧
      ∃ after, next.step queue = .ok after := by
  obtain ⟨r, hbuild, h⟩ := Fault.exists_ok_of_any (x := secondCarrier.build)
    (p := fun r => ((Session.start r {}).run begun).toOption.any fun s =>
      (s.receiver.steps 2 s.queue).toOption.any fun next =>
        !next.1.decoder.searching && next.1.available == 1 && !next.1.derotated.connected)
    (by decide +kernel)
  obtain ⟨s, hrun, h⟩ := Fault.exists_ok_of_any h
  obtain ⟨⟨next, queue⟩, hsteps, h⟩ := Fault.exists_ok_of_any h
  simp only [Bool.and_eq_true, Bool.not_eq_true', beq_iff_eq] at h
  obtain ⟨⟨hsearching, havailable⟩, hconnected⟩ := h
  have hgiven : ∀ m, secondCarrier.map = some m → m.size ≤ m.occupied := by
    intro m hm
    cases hm
    decide
  obtain ⟨hall, -⟩ := never_faults hbuild Constellation.valid_standard.1 hgiven hrun
  obtain ⟨hbounded, hguarded, hreturns⟩ := hall 2 next queue hsteps
  refine ⟨r, s, next, queue, hbuild, hrun, hsteps, hsearching, hbounded, hguarded, ?_⟩
  refine hreturns (by rw [havailable]; decide) ?_
  rintro ⟨hyes, -⟩
  rw [hconnected] at hyes
  cases hyes

end FrameReceiver

end OfdmBurst
