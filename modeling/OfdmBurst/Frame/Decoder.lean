import OfdmBurst.Carrier.Demapper
import OfdmBurst.Frame.Message
import OfdmBurst.Frame.Parser
import OfdmBurst.Stream.AppendList
import OfdmBurst.Stream.Tag

/-!
# Decoding bursts

A decoder goes through the symbols one by one. While it searches, only flagged symbols matter. A
flagged symbol is the last preamble symbol of a burst: it is not demapped, but starts the demapper
and the parser afresh, and its tags say when the burst began and how far its carrier is off. The
symbols after it are demapped, whatever their flags, until the parser has a frame or refuses the
header. Then the decoder searches again.

A burst may lack one of the two tags. Either the burst is decoded all the same, with the value that
was last known, or it is passed over; in both cases a tag that is there is remembered.

## Main definitions

* `BurstDecoder`: the state
* `BurstDecoder.step`: one symbol
-/

namespace OfdmBurst

/-- What becomes of a burst that lacks a tag. -/
inductive MissingTagPolicy where
  /-- It is decoded with the values last known. -/
  | keep
  /-- It is passed over. -/
  | drop
deriving DecidableEq, Repr

/-- The powers of the symbols of a burst so far. -/
structure BurstQuality where
  reference : Float := 0
  error : Float := 0
  power : AppendList Float := .empty

/-- The quality after one more symbol. -/
def BurstQuality.add (q : BurstQuality) (r : SymbolReport Float32 Float) : BurstQuality :=
  { reference := q.reference + r.referencePower
    error := q.error + r.errorPower
    power := q.power.push r.receivedPower }

/-- The ratio of signal to noise in decibels, if there was a signal. -/
def BurstQuality.snr (q : BurstQuality) : Option Float :=
  if q.power.isEmpty || q.reference == 0 then none
  else some (10 * (q.reference / q.error).log10)

/-- The state of a decoder. It searches while it has no parser. -/
structure BurstDecoder where
  /-- The data carriers. -/
  map : CarrierMap
  /-- What decides them. -/
  demapper : Demapper Float32
  /-- What is done with a burst that has no time or carrier offset. -/
  policy : MissingTagPolicy
  /-- How far the frame has come, if one is going on. -/
  parser : Option FrameParser := none
  /-- The last time that was said while searching. -/
  time : Option (Timestamp Float) := none
  /-- The last carrier offset that was said while searching. -/
  offset : Option Float := none
  /-- The powers of the symbols so far. -/
  quality : BurstQuality := {}

namespace BurstDecoder

/-- Whether the decoder waits for a burst. -/
def searching (d : BurstDecoder) : Bool := d.parser.isNone

/-- What one symbol leads to: the next state, the message it completes, and what was learnt from it
if it was demapped. -/
structure Result where
  decoder : BurstDecoder
  message : Option Message := none
  report : Option (SymbolReport Float32 Float) := none

/-- The most recent tag with a key says this. -/
def said {β : Type} (tags : List (Tag Float)) (key : String) (value : Tag Float → Option β) :
    Option β :=
  (Tag.latest? (tags.filter (·.key == key))).bind value

/-- Meet a flagged symbol with its tags while searching. -/
def meet (d : BurstDecoder) (tags : List (Tag Float)) : BurstDecoder :=
  let time := said tags Tag.syncTime Tag.time?
  let offset := said tags Tag.syncOffset Tag.number?
  let d := { d with time := time.or d.time, offset := offset.or d.offset }
  if d.policy = .keep ∨ (time.isSome ∧ offset.isSome) then
    { d with demapper := d.demapper.reset, quality := {}, parser := some .start }
  else d

/-- The message of a complete frame. -/
def message (d : BurstDecoder) (header : FrameHeader) (payload : List UInt8) : Message where
  arg1 := Float.ofNat header.offset.toNat
  payload := payload
  time := d.time
  offset := d.offset
  snr := d.quality.snr
  power := d.quality.power.toList

/-- Act on the verdict on the bytes of a symbol. -/
def conclude (d : BurstDecoder) : FrameParser.Verdict → BurstDecoder × Option Message
  | .more parser => ({ d with parser := some parser }, none)
  | .refused => ({ d with parser := none }, none)
  | .frame header payload =>
    ({ d with parser := none, quality := { d.quality with power := .empty } },
      some (d.message header payload))

/-- Go on to the next symbol. -/
def step (d : BurstDecoder) (flagged : Bool) (tags : List (Tag Float)) (symbol : List Sample) :
    Except Fault Result :=
  match d.parser with
  | none => .ok { decoder := if flagged then d.meet tags else d }
  | some parser => do
    let (demapper, report) ← d.demapper.demap (σ := Float) d.map symbol
    let d := { d with demapper, quality := d.quality.add report }
    let (decoder, message) := d.conclude (parser.feed report.bytes)
    return { decoder, message, report := some report }

end BurstDecoder

end OfdmBurst
