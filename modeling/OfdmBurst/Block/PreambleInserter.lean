import OfdmBurst.Block.Basic

/-!
# Preambles

In front of the first symbol of every burst goes the preamble, a fixed list of symbols. The inserter
walks along its input symbols. A symbol that starts a burst sends it through the preamble first, and
only then is the symbol itself passed on; it stays at the front of the input all the while. Symbols
before the first burst are dropped.

The first preamble symbol of a burst is flagged and marked as the start of the burst, and if the
most recent time on the burst's first symbol is one, it is given that time. Payload symbols keep
their other tags and their auxiliary byte.

The walk itself, `advance`, is a function of the symbols at hand and the room, without terminals.
Some of its moves neither use a symbol nor fill room, but no two of those follow each other around
the circle of phases without a move that does.

## Main definitions

* `PreambleInserter.Slot`, `Emission`: what stands at a place of the input and the output
* `PreambleInserter.advance`: the walk
* `PreambleInserter.work`: the walk along the terminals
-/

namespace OfdmBurst

namespace PreambleInserter

/-- One place of the input: a symbol, whether it starts a burst, and what goes with it. -/
structure Slot (α τ : Type) where
  symbol : List α
  starts : Bool
  aux : UInt8
  tags : List (Tag τ)

/-- One place of the output. The tags are those of this place, whatever their index. -/
structure Emission (α τ : Type) where
  symbol : List α
  flag : UInt8
  aux : UInt8
  tags : List (Tag τ)

/-- What the inserter is about to do. -/
inductive Phase where
  /-- Drop symbols up to the first burst. -/
  | idle
  /-- Emit the preamble from its symbol `n` on. -/
  | preamble (n : Nat)
  /-- Pass on the symbol that started the burst. -/
  | firstPayload
  /-- Pass on symbols up to the next burst. -/
  | payload
deriving DecidableEq, Repr

/-- The order in which phases follow without using a symbol or filling room. -/
def Phase.rank : Phase → Nat
  | .idle => 2
  | .payload => 2
  | .preamble _ => 1
  | .firstPayload => 0

variable {α τ : Type}

/-- Whether a tag belongs to the burst as a whole and is made anew for every burst. -/
def isBurstTag (t : Tag τ) : Bool :=
  t.key == Tag.txTime || t.key == Tag.syncTime || t.key == Tag.txStart

/-- The marks on the first preamble symbol of the burst that starts with a symbol. -/
def startTags (source : String) (s : Slot α τ) : List (Tag τ) :=
  let times := s.tags.filter fun t => t.key == Tag.txTime || t.key == Tag.syncTime
  let mark : Tag τ := { index := 0, key := Tag.txStart, value := .flag, source := some source }
  match (Tag.latest? times).bind Tag.time? with
  | some time =>
    [mark, { index := 0, key := Tag.txTime, value := .time time, source := some source }]
  | none => [mark]

/-- A payload symbol as it is passed on. -/
def passed (s : Slot α τ) : Emission α τ :=
  { symbol := s.symbol, flag := 0, aux := s.aux, tags := s.tags.filter fun t => !isBurstTag t }

/-- Symbol `n` of the preamble, for the burst that starts with `s`. -/
def announced (source : String) (s : Slot α τ) (n : Nat) (symbol : List α) : Emission α τ :=
  { symbol, flag := if n = 0 then 1 else 0, aux := 0,
    tags := if n = 0 then startTags source s else [] }

/-- Where the walk ends: what was emitted, the phase, and the symbols not used. -/
structure Walk (α τ : Type) where
  emitted : List (Emission α τ) := []
  phase : Phase
  rest : List (Slot α τ)

/-- Put an emission in front of a walk. -/
def Walk.after (e : Emission α τ) (w : Walk α τ) : Walk α τ := { w with emitted := e :: w.emitted }

/-- Walk along the symbols until they or the room run out. -/
def advance (preamble : List (List α)) (source : String) (phase : Phase)
    (slots : List (Slot α τ)) (room : Nat) : Walk α τ :=
  match slots, room with
  | [], _ => { phase, rest := [] }
  | s :: rest, 0 => { phase, rest := s :: rest }
  | s :: rest, room + 1 =>
    match phase with
    | .idle =>
      if s.starts then advance preamble source (.preamble 0) (s :: rest) (room + 1)
      else advance preamble source .idle rest (room + 1)
    | .preamble n =>
      match preamble[n]? with
      | none => advance preamble source .firstPayload (s :: rest) (room + 1)
      | some symbol =>
        (advance preamble source (.preamble (n + 1)) (s :: rest) room).after
          (announced source s n symbol)
    | .firstPayload => (advance preamble source .payload rest room).after (passed s)
    | .payload =>
      if s.starts then advance preamble source (.preamble 0) (s :: rest) (room + 1)
      else (advance preamble source .payload rest room).after (passed s)
termination_by 3 * (slots.length + room) + phase.rank
decreasing_by all_goals simp only [List.length_cons, Phase.rank]; omega

end PreambleInserter

/-- A block that puts the preamble in front of every burst. -/
structure PreambleInserter (α τ : Type) where
  /-- Where symbols arrive. -/
  input : Inlet α τ
  /-- Where the beginning of a burst is flagged. -/
  starts : Inlet UInt8 τ
  /-- Where a byte for each symbol arrives. -/
  auxIn : Inlet UInt8 τ
  /-- Where symbols are put out, tagged at the beginning of a burst. -/
  output : Outlet α τ
  /-- Where the beginning of a preamble is flagged. -/
  flags : Outlet UInt8 τ
  /-- Where the bytes are put out with their symbols. -/
  auxOut : Outlet UInt8 τ
  /-- Samples of a symbol. -/
  length : Nat
  /-- The symbols put in front of every burst. -/
  preamble : List (List α)
  /-- How far the burst has come. -/
  phase : PreambleInserter.Phase := .idle
  /-- There is a preamble. -/
  preamble_ne : preamble ≠ []
  /-- Its symbols are as long as all others. -/
  preamble_length : ∀ s ∈ preamble, s.length = length

namespace PreambleInserter

variable {α τ : Type}

/-- An inserter of the given preamble. Its symbols have as many samples as all symbols, and there
is at least one. -/
def ofPreamble (length : Nat) (preamble : List (List α)) :
    Except FramingError (PreambleInserter α τ) :=
  if hl : length = 0 then .error (.parameter .zeroFft)
  else if hp : preamble = [] then .error (.parameter .noPreamble)
  else
    match h : preamble.findIdx? fun s => s.length != length with
    | some i => .error (.preambleLength i ((preamble[i]?).elim 0 List.length) length)
    | none =>
      .ok {
        input := { name := "in", width := length, width_pos := Nat.pos_of_ne_zero hl }
        starts := .scalar "flag"
        auxIn := .scalar "aux"
        output := { name := "out", width := length, width_pos := Nat.pos_of_ne_zero hl }
        flags := .scalar "flag"
        auxOut := .scalar "aux"
        length, preamble
        preamble_ne := hp
        preamble_length := fun s hs => by
          have := List.findIdx?_eq_none_iff.1 h s hs
          simpa using this }

/-- The number of symbols known with their flags. -/
def ready (b : PreambleInserter α τ) : Nat :=
  min b.input.items (min b.starts.items b.auxIn.items)

/-- The number of symbols there is room for on all outlets. -/
def room (b : PreambleInserter α τ) : Nat :=
  min b.output.room (min b.flags.room b.auxOut.room)

/-- The places of the symbols that are known with their flags. -/
def slots (b : PreambleInserter α τ) : Except Fault (List (Slot α τ)) := do
  let symbols ← b.input.firstItems b.ready
  let bytes := b.starts.buffer.toList.zip b.auxIn.buffer.toList
  let tags := (b.input.firstTags b.ready).toList
  return (symbols.zip (bytes.zip tags)).map fun (symbol, (flag, aux), tags) =>
    { symbol, starts := flag &&& 1 != 0, aux, tags }

/-- The tags of the emissions at their places of the stream, the first at `index`. -/
def placedTags (index : Nat) (emitted : List (Emission α τ)) : List (Tag τ) :=
  (emitted.zipIdx index).flatMap fun (e, i) => e.tags.map fun t => { t with index := i }

/-- Walk as far as the symbols and the room reach. The end of the symbols is the end of the
stream, whatever flags are still to come. -/
def work [Inhabited α] (b : PreambleInserter α τ) (source : String) :
    Except Fault (PreambleInserter α τ × Bool) := do
  let slots ← b.slots
  let walk := advance b.preamble source b.phase slots b.room
  let used := slots.length - walk.rest.length
  let output ← (b.output.attachAll (placedTags b.output.written walk.emitted)).put
    (walk.emitted.flatMap (·.symbol))
  let flags ← b.flags.put (walk.emitted.map (·.flag))
  let auxOut ← b.auxOut.put (walk.emitted.map (·.aux))
  let input ← b.input.consume used
  let starts ← b.starts.consume used
  let auxIn ← b.auxIn.consume used
  return ({ b with input, starts, auxIn, output, flags, auxOut, phase := walk.phase },
    input.closed && walk.rest.isEmpty)

instance : Block (PreambleInserter Sample Float) where
  kind := "OfdmInsertPreamble"
  inlets b := [.samples b.input, .bytes b.starts, .bytes b.auxIn]
  outlets b := [.samples b.output, .bytes b.flags, .bytes b.auxOut]
  setInlet b
    | 0, .samples p => { b with input := p }
    | 1, .bytes p => { b with starts := p }
    | 2, .bytes p => { b with auxIn := p }
    | _, _ => b
  setOutlet b
    | 0, .samples p => { b with output := p }
    | 1, .bytes p => { b with flags := p }
    | 2, .bytes p => { b with auxOut := p }
    | _, _ => b
  work b identity queue := do
    let (block, finished) ← b.work identity.source
    return { block, queue, finished }

end PreambleInserter

end OfdmBurst
