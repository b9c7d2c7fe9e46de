import OfdmBurst.Block.Basic
import OfdmBurst.Frame.Decoder

/-!
# From symbols to messages

The receiver takes symbols with their flags, has them decoded, and puts the messages into the queue.
It never waits for the queue: a message that a full queue refuses is dropped, and counted.

If somebody listens at the outlet, every symbol leaves one there: the results of its data carriers
in the order of the map with zeros behind them, or zeros alone for a symbol that was not demapped.
Then the receiver also waits for room.

## Main definitions

* `ReceiverOptions`, `ReceiverOptions.build`: what a receiver is built from
* `FrameReceiver`, `FrameReceiver.step`: the state, and one symbol
* `FrameReceiver.drain`, `FrameReceiver.work`: as many symbols as there are
-/

namespace OfdmBurst

/-- What a receiver is built from. Without a map it uses the centred one, and without a frequency
gain a quarter of the square of the phase gain. -/
structure ReceiverOptions where
  constellation : Constellation Float32
  occupied : Nat
  map : Option CarrierMap := none
  phaseGain : Float32 := 1 / 4
  frequencyGain : Option Float32 := none
  equalizerGain : Float32 := 1 / 20
  policy : MissingTagPolicy := .keep

/-- A block that receives frames. -/
structure FrameReceiver where
  /-- Where symbols arrive. -/
  symbols : Inlet Sample Float
  /-- Where their flags arrive, with the tags of a burst. -/
  flags : Inlet UInt8 Float
  /-- Where the results of the data carriers are put out. -/
  derotated : Outlet Sample Float
  /-- The state of the reception. -/
  decoder : BurstDecoder
  /-- The frames that met a full queue. -/
  dropped : Nat := 0

namespace ReceiverOptions

/-- The gains of the tracking. -/
def gains (o : ReceiverOptions) : Gains Float32 where
  phase := o.phaseGain
  frequency := o.frequencyGain.getD (o.phaseGain * o.phaseGain / 4)
  equalizer := o.equalizerGain

/-- A gain is a finite number that is not negative. -/
def checkGain (name : String) (gain : Float32) : Except FramingError Unit :=
  if !gain.isFinite || gain < 0 then .error (.parameter (.gain name (Scalar.written gain)))
  else .ok ()

/-- The carrier map of a receiver, which is made for as many carriers as its symbols have. -/
def carrierMap (o : ReceiverOptions) : Except FramingError CarrierMap := do
  let map ←
    match o.map with
    | some map => pure map
    | none => CarrierMap.centred o.occupied
  if map.occupied = o.occupied then return map
  else throw (.parameter (.mapWidth map.occupied o.occupied))

/-- Build a receiver. -/
def build (o : ReceiverOptions) : Except FramingError FrameReceiver := do
  let map ← o.carrierMap
  checkGain "phase gain" o.gains.phase
  checkGain "frequency gain" o.gains.frequency
  checkGain "equalizer gain" o.gains.equalizer
  return {
    symbols := { name := "in", width := map.occupied, width_pos := map.occupied_pos }
    flags := .scalar "flag"
    derotated := { name := "derotated", width := map.occupied, width_pos := map.occupied_pos }
    decoder := {
      map
      demapper := Demapper.start o.constellation map.size o.gains
      policy := o.policy } }

end ReceiverOptions

namespace FrameReceiver

/-- The receiver with a place for a byte of every carrier. There is none for more bytes than half
the words can count. -/
def allocated (r : FrameReceiver) : Except Fault FrameReceiver :=
  if r.symbols.width < wordLimit / 2 then .ok r else .error .overflow

/-- Hand a message to the queue, or drop it. -/
def deliver (r : FrameReceiver) (queue : MessageQueue) (m : Message) :
    FrameReceiver × MessageQueue :=
  match queue.enqueue? m with
  | some queue => (r, queue)
  | none => ({ r with dropped := r.dropped + 1 }, queue)

/-- The symbol that a step leaves at the outlet. -/
def shown (r : FrameReceiver) (report : Option (SymbolReport Float32 Float)) :
    Except Fault (List Sample) :=
  match report with
  | some report => report.spread r.derotated.width
  | none => .ok (List.replicate r.derotated.width Phasor.zero)

/-- Go on to the next symbol. -/
def step (r : FrameReceiver) (queue : MessageQueue) :
    Except Fault (FrameReceiver × MessageQueue) := do
  let flag ← Fault.found r.flags.buffer.toList.head?
  let symbol ← r.symbols.item 0
  let result ← r.decoder.step (flag != 0) (r.flags.tagsOn r.flags.read) symbol
  let derotated ←
    if r.derotated.connected then r.derotated.put (← r.shown result.report) else pure r.derotated
  let symbols ← r.symbols.consume 1
  let flags ← r.flags.consume 1
  let next := { r with symbols, flags, derotated, decoder := result.decoder }
  match result.message with
  | some m => return next.deliver queue m
  | none => return (next, queue)

/-- The number of symbols known with their flags. -/
def available (r : FrameReceiver) : Nat := min r.symbols.items r.flags.items

/-- Go through `available` symbols, as far as there is room for what they leave. -/
def drain : (available : Nat) → FrameReceiver → MessageQueue → Except Fault (Turn FrameReceiver)
  | 0, r, queue =>
    .ok { block := r, queue, finished := r.symbols.closed || r.flags.closed }
  | available + 1, r, queue =>
    if r.derotated.connected ∧ r.derotated.room = 0 then .ok { block := r, queue }
    else do
      let (next, queue) ← r.step queue
      drain available next queue

/-- Go through the symbols there are. -/
def work (r : FrameReceiver) (queue : MessageQueue) : Except Fault (Turn FrameReceiver) :=
  drain r.available r queue

instance : Block FrameReceiver where
  kind := "OfdmFrameSink"
  inlets r := [.samples r.symbols, .bytes r.flags]
  outlets r := [.samples r.derotated]
  setInlet r
    | 0, .samples p => { r with symbols := p }
    | 1, .bytes p => { r with flags := p }
    | _, _ => r
  setOutlet r
    | 0, .samples p => { r with derotated := p }
    | _, _ => r
  work r _ queue := r.work queue

end FrameReceiver

end OfdmBurst
