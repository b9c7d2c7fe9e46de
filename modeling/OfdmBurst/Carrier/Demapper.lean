import OfdmBurst.Carrier.BitPacker
import OfdmBurst.Carrier.Constellation
import OfdmBurst.Carrier.Map
import OfdmBurst.Fault

/-!
# Demapping

A demapper decides the data carriers of one symbol after the other. Every received value is turned
back by the tracked phase and multiplied by the tap of its carrier, the result is decided by the
constellation, and the decided bits are packed into bytes that run on from symbol to symbol.

Three things adapt. The tap of a carrier moves by the equaliser gain toward the factor that would
have carried the result exactly onto the decided point, unless the result is close to nothing. The
angle between all results and their decisions of one symbol drives a loop of second order: it moves
the frequency, and the frequency together with the angle moves the phase.

The decisions of a symbol do not depend on one another. They all use the phase from before the
symbol, and each uses the tap of its own carrier.

## Main definitions

* `Demapper`, `Demapper.reset`: the adapting state, and its start
* `Demapper.decideOne`: one carrier
* `Demapper.demap`: one symbol
* `SymbolReport`: what is learnt from a symbol
-/

namespace OfdmBurst

/-- How fast the tracking follows. -/
structure Gains (ρ : Type) where
  phase : ρ
  frequency : ρ
  equalizer : ρ

/-- The state of a demapper. There is a tap for every data carrier. -/
structure Demapper (ρ : Type) where
  /-- What the carriers are decided for. -/
  constellation : Constellation ρ
  /-- How fast the tracking follows. -/
  gains : Gains ρ
  /-- What every data carrier is multiplied with. -/
  taps : List (Phasor ρ)
  /-- The angle by which the next symbol is turned. -/
  phase : ρ
  /-- How much the angle moves with a symbol, before it is corrected. -/
  frequency : ρ
  /-- The bits that are no whole byte yet. -/
  packer : BitPacker

/-- One decided carrier: what was received, what it was turned into, the place of the nearest point
in the table, and the tap for the next symbol. -/
structure Decision {ρ : Type} (c : Constellation ρ) where
  received : Phasor ρ
  turned : Phasor ρ
  place : Fin c.size
  tap : Phasor ρ

/-- The point a carrier was decided for. -/
def Decision.point {ρ : Type} {c : Constellation ρ} (d : Decision c) : Phasor ρ :=
  c.pointAt d.place

/-- The bits a carrier was decided for. -/
def Decision.value {ρ : Type} {c : Constellation ρ} (d : Decision c) : UInt8 :=
  c.valueAt d.place

/-- What is learnt from a symbol: the completed bytes, the power of the decided points, of their
distance to the results, and of the received carriers on average, and the results themselves in
the order of the carrier map. -/
structure SymbolReport (ρ σ : Type) where
  bytes : List UInt8
  referencePower : σ
  errorPower : σ
  receivedPower : σ
  derotated : List (Phasor ρ)

/-- The results written to the front of a symbol of `width` carriers, zero behind them. -/
def SymbolReport.spread {ρ σ : Type} [Scalar ρ] (r : SymbolReport ρ σ) (width : Nat) :
    Except Fault (List (Phasor ρ)) :=
  if r.derotated.length ≤ width then
    .ok (r.derotated ++ List.replicate (width - r.derotated.length) Phasor.zero)
  else .error .outOfRange

namespace Demapper

variable {ρ σ : Type} [Elementary ρ]

/-- A demapper with a tap of one for each of `carriers` data carriers. -/
def start (constellation : Constellation ρ) (carriers : Nat) (gains : Gains ρ) : Demapper ρ where
  constellation := constellation
  gains := gains
  taps := List.replicate carriers Phasor.one
  phase := Scalar.whole 0
  frequency := Scalar.whole 0
  packer := .empty

/-- Back to the start, with as many taps as before. -/
def reset (d : Demapper ρ) : Demapper ρ := start d.constellation d.taps.length d.gains

/-! ### One carrier -/

/-- The power below which a result says nothing about its tap. -/
def silence : ρ := Scalar.whole 1 / Scalar.whole 1000

/-- The tap after a result was decided for a point. -/
def adaptedTap (gain : ρ) (tap turned point : Phasor ρ) : Phasor ρ :=
  if silence < turned.power then tap + (point / turned - tap).scale gain else tap

/-- Decide one carrier of a symbol turned by `carrier`. -/
def decideOne (c : Constellation ρ) (gain : ρ) (carrier received tap : Phasor ρ) : Decision c :=
  let turned := received * carrier * tap
  let place := c.nearest turned
  { received, turned, place, tap := adaptedTap gain tap turned (c.pointAt place) }

/-! ### One symbol -/

/-- The received values of the data carriers, each with its tap. -/
def carriersOf (symbol : List (Phasor ρ)) (taps : List (Phasor ρ)) (map : CarrierMap) :
    Except Fault (List (Phasor ρ × Phasor ρ)) := do
  let values := symbol.toArray
  let received ← map.carriers.mapM fun carrier => Fault.found values[carrier]?
  if received.length ≤ taps.length then return received.zip taps else throw .outOfRange

/-- A sum in the order of the list. -/
def sum {β σ : Type} (add : σ → σ → σ) (zero : σ) (f : β → σ) (xs : List β) : σ :=
  xs.foldl (fun total x => add total (f x)) zero

/-- A phase moved by one whole turn into the range of a turn, if it left the range by less. -/
def wrapped (phase : ρ) : ρ :=
  let turn : ρ := Scalar.whole 2 * Elementary.pi
  let phase := if turn ≤ phase then phase - turn else phase
  if phase < Scalar.whole 0 then phase + turn else phase

/-- Follow the angle by which the results of a symbol are off. -/
def track (d : Demapper ρ) (angle : ρ) : Demapper ρ :=
  let frequency := d.frequency - d.gains.frequency * angle
  { d with frequency, phase := wrapped (d.phase + (frequency - d.gains.phase * angle)) }

/-- What the decisions of a symbol add up to. -/
def report [Scalar σ] [Widened ρ σ] {c : Constellation ρ} (bytes : List UInt8)
    (decisions : List (Decision c)) : SymbolReport ρ σ :=
  let total (f : Decision c → ρ) : σ :=
    sum (· + ·) (Scalar.whole 0) (fun x => Widened.widen (f x)) decisions
  { bytes
    referencePower := total fun x => x.point.power
    errorPower := total fun x => (x.turned - x.point).power
    receivedPower := total (fun x => x.received.power) / Scalar.whole decisions.length
    derotated := decisions.map (·.turned) }

/-- Demap one symbol. The symbol has a value on every carrier of the map, and there is a tap for
each. -/
def demap [Scalar σ] [Widened ρ σ] (d : Demapper ρ) (map : CarrierMap)
    (symbol : List (Phasor ρ)) : Except Fault (Demapper ρ × SymbolReport ρ σ) := do
  let carriers ← carriersOf symbol d.taps map
  let carrier := Phasor.turn d.phase
  let decisions := carriers.map fun (received, tap) =>
    decideOne d.constellation d.gains.equalizer carrier received tap
  let (bytes, packer) :=
    d.packer.placeAll d.constellation.bits (decisions.map fun x => x.value.toNat)
  let off := sum (· + ·) Phasor.zero (fun x => x.turned * x.point.conj) decisions
  let next := d.track off.angle
  return ({ next with
      taps := decisions.map (·.tap) ++ d.taps.drop decisions.length
      packer },
    report bytes decisions)

end Demapper

end OfdmBurst
