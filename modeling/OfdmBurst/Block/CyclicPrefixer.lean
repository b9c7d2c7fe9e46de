import OfdmBurst.Block.Basic

/-!
# The cyclic prefix

A symbol is sent with a copy of its own end in front of it. The prefixer turns every symbol into
more samples: first the last ones of the symbol, then the whole symbol. The tags of a symbol move
to its first sample. If the inlet of burst ends is connected, the last sample of a symbol that ends
a burst is tagged.

The output size is free above the input size, but a symbol has no end longer than itself: work on a
symbol with too long a prefix is a fault.
-/

namespace OfdmBurst

/-- A block that puts a cyclic prefix in front of every symbol. -/
structure CyclicPrefixer (α τ : Type) where
  /-- Where symbols arrive. -/
  input : Inlet α τ
  /-- Where the end of a burst is flagged, if it is connected. -/
  ends : Inlet UInt8 τ
  /-- Where the samples are put out. -/
  output : Outlet α τ
  /-- Samples of a symbol. -/
  inputSize : Nat
  /-- Samples of a symbol with its prefix. -/
  outputSize : Nat
  /-- A symbol has a sample. -/
  input_pos : 0 < inputSize
  /-- A prefix takes nothing away. -/
  input_le : inputSize ≤ outputSize

namespace CyclicPrefixer

variable {α τ : Type}

/-- A prefixer from symbols of `inputSize` to `outputSize` samples each. -/
def ofSizes (inputSize outputSize : Nat) : Except FramingError (CyclicPrefixer α τ) :=
  if h : 0 < inputSize ∧ inputSize ≤ outputSize then
    .ok {
      input := { name := "in", width := inputSize, width_pos := h.1 }
      ends := .scalar "eob"
      output := .scalar "out"
      inputSize, outputSize
      input_pos := h.1
      input_le := h.2 }
  else .error (.prefixSize inputSize outputSize)

/-- The number of samples put in front of a symbol. -/
def prefixLength (b : CyclicPrefixer α τ) : Nat := b.outputSize - b.inputSize

/-- A symbol behind a copy of its last samples. -/
def extended (length : Nat) (symbol : List α) : Except Fault (List α) :=
  if length ≤ symbol.length then .ok (symbol.drop (symbol.length - length) ++ symbol)
  else .error .outOfRange

/-- The number of symbols that can be worked on. -/
def ready (b : CyclicPrefixer α τ) : Nat :=
  let n := min b.input.items (b.output.room / b.outputSize)
  if b.ends.connected then min n b.ends.items else n

/-- The tags of the first `n` symbols, on the first sample of each. -/
def movedTags (b : CyclicPrefixer α τ) (n : Nat) : List (Tag τ) :=
  (b.input.tags.filter (·.index < b.input.read + n)).map fun t =>
    { t with index := b.output.written + (t.index - b.input.read) * b.outputSize }

/-- The marks of the burst ends among the first `n` symbols, on the last sample of each. -/
def endTags (b : CyclicPrefixer α τ) (source : String) (n : Nat) : List (Tag τ) :=
  ((b.ends.front n).zipIdx.filter fun (byte, _) => byte &&& 1 != 0).map fun (_, i) =>
    { index := b.output.written + (i + 1) * b.outputSize - 1
      key := Tag.txEnd, value := .flag, source := some source }

/-- Extend as many symbols as there are, as there is room for, and as the burst ends are known
of. -/
def work [Inhabited α] (b : CyclicPrefixer α τ) (source : String) :
    Except Fault (CyclicPrefixer α τ × Bool) := do
  let n := b.ready
  let marks := if b.ends.connected then b.endTags source n else []
  let symbols ← b.input.firstItems n
  let samples ← symbols.mapM (extended b.prefixLength)
  let output ← (b.output.attachAll (b.movedTags n ++ marks)).put samples.flatten
  let input ← b.input.consume n
  let ends ← if b.ends.connected then b.ends.consume n else pure b.ends
  return ({ b with input, ends, output }, input.closed && input.items == 0)

/-- The number of symbols that make up at least `n` samples. -/
def forecast (b : CyclicPrefixer α τ) (n : Nat) : Nat := (n + (b.outputSize - 1)) / b.outputSize

instance : Block (CyclicPrefixer Sample Float) where
  kind := "OfdmCyclicPrefixer"
  inlets b := [.samples b.input, .bytes b.ends]
  outlets b := [.samples b.output]
  setInlet b
    | 0, .samples p => { b with input := p }
    | 1, .bytes p => { b with ends := p }
    | _, _ => b
  setOutlet b
    | 0, .samples p => { b with output := p }
    | _, _ => b
  work b identity queue := do
    let (block, finished) ← b.work identity.source
    return { block, queue, finished }
  forecast b n := .ok (b.forecast n)

end CyclicPrefixer

end OfdmBurst
