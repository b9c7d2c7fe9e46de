import OfdmBurst.Fault
import OfdmBurst.Signal.Scalar
import OfdmBurst.Text.Places

/-!
# Times

A time is a count of whole seconds and a fraction of a second. Keeping the two apart leaves the
fraction its full resolution however long the clock has been running. The fraction is a scalar, so
that times can be computed on machine numbers and reasoned about exactly.

A fraction of one second or more is carried into the seconds. A time before zero is time zero.
-/

namespace OfdmBurst

/-- A time: whole seconds, and a fraction of the next one. -/
structure Timestamp (τ : Type) where
  seconds : UInt64
  fraction : τ

namespace Timestamp

variable {τ : Type}

/-- The start of the clock. -/
def zero [Scalar τ] : Timestamp τ := ⟨0, Scalar.whole 0⟩

/-- Carry whole seconds out of the fraction. The clock has no time past its word. -/
def carried [Rounded τ] (t : Timestamp τ) : Except Fault (Timestamp τ) :=
  if Scalar.whole 1 ≤ t.fraction then do
    let carry := Rounded.floor t.fraction
    let seconds ← Fault.word (t.seconds.toNat + (Rounded.toUInt64 carry).toNat)
    return ⟨UInt64.ofNat seconds, t.fraction - carry⟩
  else
    return t

/-- The time with these seconds and this fraction, carried. -/
def ofParts [Rounded τ] (seconds : UInt64) (fraction : τ) : Except Fault (Timestamp τ) :=
  carried ⟨seconds, fraction⟩

/-- The time `elapsed` seconds later. The whole part of `elapsed` moves the seconds, as signed
words, and the rest moves the fraction. A time before the start of the clock is its start. -/
def shift [Rounded τ] (t : Timestamp τ) (elapsed : τ) : Except Fault (Timestamp τ) :=
  let whole := Rounded.floor elapsed
  let seconds := t.seconds.toInt64.toInt + (Rounded.toInt64 whole).toInt
  if seconds < Int64.minValue.toInt ∨ Int64.maxValue.toInt < seconds then .error .overflow
  else if seconds < 0 then .ok zero
  else carried ⟨UInt64.ofNat seconds.toNat, t.fraction + (elapsed - whole)⟩

/-- The time as one number of seconds, as near as the scalars come. -/
def total [Scalar τ] (t : Timestamp τ) : τ := Scalar.whole t.seconds.toNat + t.fraction

/-- Seconds and nine places of the fraction, with a plus sign between them. -/
def text (t : Timestamp Float) : String :=
  s!"{t.seconds.toNat}+" ++ Text.fixedPlaces 9 t.fraction ++ "s"

end Timestamp

end OfdmBurst
