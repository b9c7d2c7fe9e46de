import OfdmBurst.Block.Basic
import OfdmBurst.Carrier.Constellation
import OfdmBurst.Carrier.Map
import OfdmBurst.Frame.Burst

/-!
# From messages to symbols

The mapper takes messages from the queue and sends each as a burst of symbols. The occupied carriers
stand in the middle of a symbol, all other carriers are zero. Every data carrier holds the point
that stands for the next group of bits, which is looked up in a table. The first symbol of a burst
is flagged, and tagged with the time of the message if it has one; the last symbol is flagged as the
end of the burst.

A message that no header can describe is left out. A message that ends the stream is taken from the
queue and ends the work.

A message is only taken when there is room for a symbol on all outlets, so a mapper without room
leaves the queue alone.
-/

namespace OfdmBurst

/-- A block that sends messages as symbols. It keeps the points in the order of their patterns. -/
structure FrameMapper where
  /-- Where symbols are put out, tagged with the time of a burst. -/
  symbols : Outlet Sample Float
  /-- Where the beginning of a burst is flagged. -/
  flags : Outlet UInt8 Float
  /-- Where the end of a burst is flagged. -/
  ends : Outlet UInt8 Float
  /-- The points and their patterns. -/
  constellation : Constellation Float32
  /-- The data carriers among the occupied ones. -/
  map : CarrierMap
  /-- Carriers of a symbol. -/
  fft : Nat
  /-- The points in the order of their patterns. -/
  points : Array Sample
  /-- What is left of the burst that is going on. -/
  burst : Option Burst := none
  /-- The occupied carriers are carriers of a symbol. -/
  occupied_le : map.occupied ≤ fft
  /-- Every pattern stands for a point. -/
  complete : constellation.isComplete = true
  /-- The table is that of the constellation. -/
  points_eq : points = constellation.pointTable.toArray

namespace FrameMapper

/-- A mapper. The occupied carriers fit the symbol, and every pattern has a point. -/
def ofParts (constellation : Constellation Float32) (map : CarrierMap) (fft : Nat) :
    Except FramingError FrameMapper :=
  if hm : fft < map.occupied then .error (.parameter (.mapTooWide map.occupied fft))
  else if hc : constellation.isComplete = true then
    have hle : map.occupied ≤ fft := Nat.le_of_not_lt hm
    .ok {
      symbols :=
        { name := "out", width := fft, width_pos := Nat.lt_of_lt_of_le map.occupied_pos hle }
      flags := .scalar "flag"
      ends := .scalar "eob"
      constellation, map, fft
      points := constellation.pointTable.toArray
      occupied_le := hle
      complete := hc
      points_eq := rfl }
  else .error (.parameter (.incompleteConstellation constellation.bits))

/-- The number of carriers in front of the occupied ones. -/
def leading (m : FrameMapper) : Nat := (m.fft - m.map.occupied + 1) / 2

/-- The number of symbols there is room for on all outlets. -/
def room (m : FrameMapper) : Nat := min m.symbols.room (min m.flags.room m.ends.room)

/-! ### Symbols -/

/-- Put the point for a group of bits on a carrier. -/
def place (m : FrameMapper) (symbol : Array Sample) (carrier group : Nat) :
    Except Fault (Array Sample) :=
  match m.points[group]? with
  | some point =>
    if h : m.leading + carrier < symbol.size then .ok (symbol.set (m.leading + carrier) point h)
    else .error .outOfRange
  | none => .error .outOfRange

/-- The symbol with the given groups on its data carriers. -/
def symbolOf (m : FrameMapper) (groups : List Nat) : Except Fault (List Sample) := do
  let symbol ← (m.map.carriers.zip groups).foldlM
    (fun symbol (carrier, group) => m.place symbol carrier group)
    (Array.replicate m.fft Phasor.zero)
  return symbol.toList

/-- Send one symbol of a burst. -/
def send (m : FrameMapper) (source : String) (b : Burst) : Except Fault FrameMapper := do
  let bits := m.constellation.bits
  let symbol ← m.symbolOf (b.groups bits m.map.size)
  let rest := b.after (m.map.size * bits)
  let marks : List (Tag Float) :=
    match b.fresh, b.time with
    | true, some time =>
      [{ index := m.symbols.written, key := Tag.txTime, value := .time time,
         source := some source }]
    | _, _ => []
  let symbols ← (m.symbols.attachAll marks).put symbol
  let flags ← m.flags.put [if b.fresh then 1 else 0]
  let ends ← m.ends.put [if rest.isDone then 1 else 0]
  return { m with symbols, flags, ends, burst := if rest.isDone then none else some rest }

/-! ### Messages -/

/-- What the queue has to send. -/
inductive Next where
  | nothing
  | endOfStream
  | burst (b : Burst)

/-- Take messages up to the first that can be sent or that ends the stream. -/
def nextBurst : List Message → Next × List Message
  | [] => (.nothing, [])
  | m :: rest =>
    if m.type = Message.endOfStream then (.endOfStream, rest)
    else
      match Burst.ofMessage m with
      | .ok b => (.burst b, rest)
      | .error _ => nextBurst rest

/-- Send as many symbols as there is room for and messages for. -/
def fill (source : String) : (room : Nat) → FrameMapper → MessageQueue →
    Except Fault (Turn FrameMapper)
  | 0, m, queue => .ok { block := m, queue }
  | room + 1, m, queue =>
    match m.burst with
    | some b => do fill source room (← m.send source b) queue
    | none =>
      let (next, waiting) := nextBurst queue.messages
      let queue := { queue with messages := waiting }
      match next with
      | .nothing => .ok { block := m, queue }
      | .endOfStream => .ok { block := m, queue, finished := true }
      | .burst b => do fill source room (← m.send source b) queue

/-- Send as many symbols as there is room for on all outlets. -/
def work (m : FrameMapper) (source : String) (queue : MessageQueue) :
    Except Fault (Turn FrameMapper) :=
  fill source m.room m queue

instance : Block FrameMapper where
  kind := "OfdmMapper"
  inlets _ := []
  outlets m := [.samples m.symbols, .bytes m.flags, .bytes m.ends]
  setInlet m _ _ := m
  setOutlet m
    | 0, .samples p => { m with symbols := p }
    | 1, .bytes p => { m with flags := p }
    | 2, .bytes p => { m with ends := p }
    | _, _ => m
  work m identity queue := m.work identity.source queue

end FrameMapper

end OfdmBurst
