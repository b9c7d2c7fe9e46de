import Mathlib.Algebra.Order.Floor.Ring
import OfdmBurst.Stream.Timestamp

/-!
# Exact scalars

Machine numbers round, and what a block computes with them depends on how. Statements about what it
is meant to compute are about scalars that do not round: every ordered field in which numbers have a
whole part. The rational numbers are one, so such statements can also be evaluated.

Words stay words. The whole part of a scalar saturates at the ends of a word here as it does for
machine numbers.

## Main results

* `Timestamp.shift_zero` — no time passes between a sample and itself
-/

namespace OfdmBurst

section Exact

variable {τ : Type} [Field τ] [LinearOrder τ] [IsStrictOrderedRing τ] [FloorRing τ]

/-- The whole part of a scalar, rounded toward zero. -/
def truncated (x : τ) : Int := if 0 ≤ x then ⌊x⌋ else ⌈x⌉

instance (priority := low) exactScalar : Scalar τ where
  whole n := n
  decideLT := inferInstance
  decideLE := inferInstance
  isFinite _ := true
  written x := toString (truncated x)

instance (priority := low) exactRounded : Rounded τ where
  floor x := (⌊x⌋ : τ)
  toInt64 x := Int64.ofInt (max Int64.minValue.toInt (min Int64.maxValue.toInt (truncated x)))
  toUInt64 x := UInt64.ofNat (min (wordLimit - 1) (truncated x).toNat)

namespace Timestamp

/-- A time with a fraction of less than a second that the signed words can count. -/
structure Normal (t : Timestamp τ) : Prop where
  fraction_lt : t.fraction < 1
  seconds_lt : t.seconds.toNat < 2 ^ 63

/-- No time passes between a sample and itself. -/
theorem shift_zero {t : Timestamp τ} (h : t.Normal) : t.shift 0 = .ok t := by
  have hlt := h.seconds_lt
  have hseconds : t.seconds.toInt64.toInt = t.seconds.toNat :=
    BitVec.toInt_eq_toNat_of_lt (x := t.seconds.toBitVec) (by
      have : t.seconds.toBitVec.toNat = t.seconds.toNat := rfl
      omega)
  have hwhole : (Rounded.floor (0 : τ) : τ) = 0 := by
    show ((⌊(0 : τ)⌋ : Int) : τ) = 0
    rw [Int.floor_zero, Int.cast_zero]
  have hword : (Rounded.toInt64 (0 : τ)).toInt = 0 := by
    have : truncated (0 : τ) = 0 := by rw [truncated, if_pos (le_refl _), Int.floor_zero]
    show (Int64.ofInt (max _ (min _ (truncated (0 : τ))))).toInt = 0
    rw [this]
    rfl
  have hsame : UInt64.ofNat (t.seconds.toNat : Int).toNat = t.seconds := by
    rw [Int.toNat_natCast]
    exact UInt64.ofNat_toNat
  have hmin : Int64.minValue.toInt = -2 ^ 63 := rfl
  have hmax : Int64.maxValue.toInt = 2 ^ 63 - 1 := rfl
  simp only [shift, hwhole, hword, hseconds, Int.add_zero]
  rw [if_neg (by omega), if_neg (by omega), hsame]
  have hfraction : (t.fraction + (0 - 0) : τ) = t.fraction := by rw [sub_zero, add_zero]
  have hcarried : ¬ (Scalar.whole 1 : τ) ≤ t.fraction := by
    show ¬ ((1 : ℕ) : τ) ≤ t.fraction
    rw [Nat.cast_one]
    exact not_le.2 h.fraction_lt
  show carried ⟨t.seconds, (t.fraction + (0 - 0) : τ)⟩ = .ok t
  rw [hfraction, carried, if_neg hcarried]
  rfl

end Timestamp

end Exact

end OfdmBurst
