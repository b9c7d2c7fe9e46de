import OfdmBurst.Block.Basic
import OfdmBurst.Signal.Fourier

/-!
# The Fourier block

Every symbol is transformed by itself, so one symbol goes out for every symbol that comes in, and
its tags stay on it. Two options apply. A shifted block keeps the zero frequency in the middle of
its frequency-domain symbols, which it rotates after a transform into the frequency domain and
before one into the time domain. A gain scales all results.

The transform itself is a field of the block, a `Plan`. Nothing but the length of its result is
used here.
-/

namespace OfdmBurst

/-- A way to transform symbols of one length. -/
structure Plan (length : Nat) where
  apply : List Sample → List Sample
  length_apply : ∀ xs, xs.length = length → (apply xs).length = length

/-- The discrete Fourier transform, computed with 64-bit numbers. -/
def Plan.fourier (domain : Domain) (length : Nat) : Plan length where
  apply xs :=
    let wide : List (Phasor Float) := xs.map fun x => ⟨x.re.toFloat, x.im.toFloat⟩
    (Fourier.transform domain wide).map fun x => ⟨x.re.toFloat32, x.im.toFloat32⟩
  length_apply xs h := by simpa [Fourier.length_transform] using h

/-- A block that transforms symbols. -/
structure FourierBlock where
  /-- Where symbols arrive. -/
  input : Inlet Sample Float
  /-- Where they are put out. -/
  output : Outlet Sample Float
  /-- Samples of a symbol. -/
  length : Nat
  /-- What the symbols are transformed to. -/
  domain : Domain
  /-- Whether the zero carrier stands in the middle of a spectrum. -/
  shifted : Bool
  /-- What every result is multiplied with. -/
  gain : Option Float32
  /-- How a symbol is transformed. -/
  plan : Plan length

namespace FourierBlock

/-- A block for symbols of any length but zero, with a plan for them. -/
def withPlan (length : Nat) (domain : Domain) (shifted : Bool) (gain : Option Float32)
    (plan : Plan length) : Except Fault FourierBlock := do
  return {
    input := ← Inlet.ofWidth "in" length
    output := ← Outlet.ofWidth "out" length
    length, domain, shifted, gain, plan }

/-- A block for symbols of any length but zero. -/
def ofLength (length : Nat) (domain : Domain := .frequency) (shifted : Bool := false)
    (gain : Option Float32 := none) : Except Fault FourierBlock :=
  withPlan length domain shifted gain (.fourier domain length)

/-- What becomes of one symbol. -/
def symbol (b : FourierBlock) (xs : List Sample) : List Sample :=
  let arranged := if b.shifted ∧ b.domain = .time then Fourier.rotated xs else xs
  let result := b.plan.apply arranged
  let placed := if b.shifted ∧ b.domain = .frequency then Fourier.rotated result else result
  match b.gain with
  | some factor => placed.map (·.scale factor)
  | none => placed

/-- Transform as many symbols as there are and as there is room for. -/
def work (b : FourierBlock) : Except Fault (FourierBlock × Bool) := do
  let n := min b.input.items b.output.room
  let moved := (b.input.tags.filter (·.index < b.input.read + n)).map fun t =>
    { t with index := b.output.written + (t.index - b.input.read) }
  let symbols ← b.input.firstItems n
  let output ← (b.output.attachAll moved).put (symbols.flatMap b.symbol)
  let input ← b.input.consume n
  return ({ b with input, output }, input.closed && input.items == 0)

instance : Block FourierBlock where
  kind := "Fft"
  inlets b := [.samples b.input]
  outlets b := [.samples b.output]
  setInlet b
    | 0, .samples p => { b with input := p }
    | _, _ => b
  setOutlet b
    | 0, .samples p => { b with output := p }
    | _, _ => b
  work b _ queue := do
    let (block, finished) ← b.work
    return { block, queue, finished }

end FourierBlock

end OfdmBurst
