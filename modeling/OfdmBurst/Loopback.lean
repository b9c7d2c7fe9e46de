import OfdmBurst.Block.Bench
import OfdmBurst.Block.CyclicPrefixer
import OfdmBurst.Block.FourierBlock
import OfdmBurst.Block.FrameMapper
import OfdmBurst.Block.FrameReceiver
import OfdmBurst.Block.PreambleInserter
import OfdmBurst.Block.SymbolCutter

/-!
# A link without a radio

The whole chain on one bench after the other: messages are mapped to symbols, get a preamble and a
cyclic prefix, pass a channel, and are cut into symbols and received again. Between mapper and
prefixer, and between cutter and receiver, the symbols may be taken to the time domain and back.

The channel puts silence in front of the samples and behind them, and can turn all of them. It also
plays the radio and the detector. It sets the trigger at the end of the preamble of every burst that
the transmitter marked, hands on a carrier offset there, and reports the transmit times as receive
times.

Every block runs once, with room for the same number of symbols.
-/

namespace OfdmBurst

/-- What a link is made of. -/
structure Link where
  fft : Nat
  symbol : Nat
  constellation : Constellation Float32
  map : CarrierMap
  preamble : List (List Sample)
  messages : List Message
  room : Nat
  lead : Nat
  tail : Nat
  bandwidth : Float
  timeout : Nat
  offset : Option Float := none
  timeDomain : Bool := false
  turn : Option Sample := none
  gains : Option (Gains Float32) := none
  queueLimit : Nat := 0

/-- What is seen of a link. -/
structure LinkReport where
  sent : List Sample
  sentTags : List (Tag Float)
  mapperFinished : Bool
  cutterFinished : Bool
  flags : List UInt8
  flagTags : List (Tag Float)
  received : List Message
  receiverFinished : Bool
  searching : Bool
  dropped : Nat

namespace Link

/-- A computation that a block may refuse or that may have no answer. -/
abbrev Trial := ExceptT FramingError (Except Fault)

/-- What a constructor makes, or why it refuses. -/
def made {α : Type} (x : Except FramingError α) : Trial α := ExceptT.mk (.ok x)

/-- Run a block on its bench. The blocks of a link do not fail in their work. -/
def ran {β : Type} [Block β] (b : Bench β) (queue : MessageQueue) :
    Trial (Bench β × MessageQueue) := do
  let (b, queue, failure) ← b.run queue
  match failure with
  | none => return (b, queue)
  | some cause => throwThe Fault (.terminal cause)

/-- The symbols on an outlet with their tags. -/
def samplesOf {β : Type} [Block β] (b : Bench β) (terminal : Nat) :
    Trial (List Sample × List (Tag Float)) := do
  match ← b.peek terminal .sample with
  | (.samples xs, tags) => return (xs, tags)
  | (.bytes _, _) => throwThe Fault (b.wrongKind terminal)

/-- The bytes on an outlet with their tags. -/
def bytesOf {β : Type} [Block β] (b : Bench β) (terminal : Nat) :
    Trial (List UInt8 × List (Tag Float)) := do
  match ← b.peek terminal .byte with
  | (.bytes xs, tags) => return (xs, tags)
  | (.samples _, _) => throwThe Fault (b.wrongKind terminal)

/-! ### The channel -/

/-- The samples and triggers on the receiving side, with the tags on the samples. -/
structure Air where
  samples : List Sample
  triggers : Array UInt8
  tags : AppendList (Tag Float) := .empty

/-- Set the trigger of the burst that starts at a sample, which is the last sample of its
preamble. -/
def Air.trigger (a : Air) (place : Nat) : Except Fault Air :=
  if h : place < a.triggers.size then .ok { a with triggers := a.triggers.set place 1 h }
  else .error .outOfRange

/-- Put a tag on a sample. -/
def Air.mark (a : Air) (index : Nat) (key : String) (value : Tag.Value Float) : Air :=
  { a with tags := a.tags.push { index, key, value } }

/-- What a tag of the transmitter makes the radio do. -/
def heard (l : Link) (a : Air) (t : Tag Float) : Except Fault Air := do
  let index := l.lead + t.index
  if t.key = Tag.txStart then
    let a ← a.trigger (index + l.preamble.length * l.symbol - 1)
    match l.offset with
    | some x => return a.mark index Tag.syncOffset (.double x)
    | none => return a
  else if t.key = Tag.txTime then
    match t.time? with
    | some time => return a.mark index Tag.rxTime (.time time)
    | none => return a
  else return a

/-- What the receiving side gets of the samples sent. -/
def air (l : Link) (sent : List Sample) (tags : List (Tag Float)) : Except Fault Air :=
  let silence (n : Nat) : List Sample := List.replicate n Phasor.zero
  let turned :=
    match l.turn with
    | some turn => sent.map (· * turn)
    | none => sent
  let samples := silence l.lead ++ turned ++ silence l.tail
  tags.foldlM l.heard { samples, triggers := Array.replicate samples.length 0 }

/-! ### The chain -/

/-- The mapper after it has sent the messages. -/
def mapped (l : Link) : Trial (Bench FrameMapper) := do
  let mapper ← made (FrameMapper.ofParts l.constellation l.map l.fft)
  let bench := Bench.mount mapper
  let bench ← bench.reserve 0 .sample l.room
  let bench ← bench.reserve 1 .byte l.room
  let bench ← bench.reserve 2 .byte l.room
  let (bench, _) ←
    ran bench { messages := l.messages ++ [{ type := Message.endOfStream }] }
  return bench

/-- The inserter after it has put preambles in front of the bursts. -/
def announced (l : Link) (mapper : Bench FrameMapper) :
    Trial (Bench (PreambleInserter Sample Float)) := do
  let inserter : PreambleInserter Sample Float ←
    made (PreambleInserter.ofPreamble l.fft l.preamble)
  let (symbols, tags) ← samplesOf mapper 0
  let bench := Bench.mount inserter
  let bench ← bench.feed 0 (.samples symbols) tags
  let bench ← bench.feed 1 (.bytes (← bytesOf mapper 1).1) []
  let bench ← bench.feed 2 (.bytes (← bytesOf mapper 2).1) []
  let bench ← bench.reserve 0 .sample l.room
  let bench ← bench.reserve 1 .byte l.room
  let bench ← bench.reserve 2 .byte l.room
  let (bench, _) ← ran bench {}
  return bench

/-- Symbols in another domain. -/
def transformed (l : Link) (domain : Domain) (gain : Option Float32) (symbols : List Sample)
    (tags : List (Tag Float)) : Trial (List Sample × List (Tag Float)) := do
  let block ← (FourierBlock.ofLength l.fft domain false gain : Except Fault FourierBlock)
  let bench ← (Bench.mount block).feed 0 (.samples symbols) tags
  let bench ← bench.reserve 0 .sample l.room
  let (bench, _) ← ran bench {}
  samplesOf bench 0

/-- The symbols as samples with cyclic prefixes, and their tags. -/
def prefixed (l : Link) (symbols : List Sample) (tags : List (Tag Float)) (ends : List UInt8) :
    Trial (List Sample × List (Tag Float)) := do
  let prefixer : CyclicPrefixer Sample Float ← made (CyclicPrefixer.ofSizes l.fft l.symbol)
  let bench ← (Bench.mount prefixer).feed 0 (.samples symbols) tags
  let bench ← bench.feed 1 (.bytes ends) []
  let bench ← bench.reserve 0 .sample (l.room * l.symbol)
  let (bench, _) ← ran bench {}
  samplesOf bench 0

/-- The cutter after it has cut the samples on the receiving side. -/
def cut (l : Link) (a : Air) : Trial (Bench (SymbolCutter Sample Float)) := do
  let options : CutterOptions Float :=
    { fft := l.fft, symbol := l.symbol, bandwidth := l.bandwidth, timeout := l.timeout,
      preamble := l.preamble.length }
  let cutter : SymbolCutter Sample Float ← made options.build
  let bench ← (Bench.mount cutter).feed 0 (.samples a.samples) a.tags.toList
  let bench ← bench.feed 1 (.bytes a.triggers.toList) []
  let bench ← bench.reserve 0 .sample l.room
  let bench ← bench.reserve 1 .byte l.room
  let (bench, _) ← ran bench {}
  return bench

/-- The receiver for the symbols. Its carriers are those of the transmitter, counted in the whole
symbol. -/
def receiver (l : Link) : Trial FrameReceiver := do
  let leading := (l.fft - l.map.occupied + 1) / 2
  let map ← made (CarrierMap.ofCarriers (l.map.carriers.map (· + leading)) l.fft)
  let standard : ReceiverOptions :=
    { constellation := l.constellation, occupied := l.fft, map := some map }
  let options : ReceiverOptions :=
    match l.gains with
    | some g =>
      { standard with
        phaseGain := g.phase, frequencyGain := some g.frequency, equalizerGain := g.equalizer }
    | none => standard
  (← made options.build).allocated

/-- Send the messages over the link. -/
def run (l : Link) : Trial LinkReport := do
  let mapper ← l.mapped
  let inserter ← l.announced mapper
  let (symbols, tags) ← samplesOf inserter 0
  let (ends, _) ← bytesOf inserter 2
  let (symbols, tags) ←
    if l.timeDomain then l.transformed .time (some (1 / Float32.ofNat l.fft)) symbols tags
    else pure (symbols, tags)
  let (sent, sentTags) ← l.prefixed symbols tags ends
  let cutter ← l.cut (← l.air sent sentTags)
  let (symbols, _) ← samplesOf cutter 0
  let (flags, flagTags) ← bytesOf cutter 1
  let (symbols, _) ←
    if l.timeDomain then l.transformed .frequency none symbols [] else pure (symbols, [])
  let queue ← MessageQueue.ofLimit l.queueLimit
  let bench ← (Bench.mount (← l.receiver)).feed 0 (.samples symbols) []
  let bench ← bench.feed 1 (.bytes flags) flagTags
  let (bench, queue) ← ran bench queue
  return {
    sent, sentTags
    mapperFinished := mapper.finished
    cutterFinished := cutter.finished
    flags, flagTags
    received := queue.messages
    receiverFinished := bench.finished
    searching := bench.block.decoder.searching
    dropped := bench.block.dropped }

end Link

end OfdmBurst
