import Mathlib.Data.Rat.Floor
import Mathlib.Tactic.Linarith
import OfdmBurst.Proofs.Fault
import OfdmBurst.Proofs.Signal.Exact

/-!
# Arithmetic of times

A time stands for one number of seconds, its total. Making a time out of seconds and a fraction
should keep the total, and shifting a time should add to it, up to the two ends of the clock. This
module says how far that is so, over scalars that do not round.

## Scope

Both operations carry whole seconds out of a fraction of one second or more. Neither borrows. Two
things follow, and the statements below name them.

A negative fraction stays as it is. The total is right, but the fraction is not a fraction of a
second. Nothing in the library makes such a time by shifting: a shift adds a fraction that is not
negative.

A shift looks at the whole seconds alone when it asks whether it is before the start of the clock.
If they are one second before it, and the two fractions make up more than a second, the time is
behind the start of the clock. The shift still ends at the start.

## Main definitions

* `Reduced` — the fraction is a fraction of a second
* `movedSeconds` — the seconds of a shifted time before anything is carried
* `LosesCarry` — the shifts that end at the start of the clock and should not

## Main results

* `ofParts_reduces` — making a time
* `shift_saturates` — shifting a time
-/

namespace OfdmBurst

namespace Timestamp

variable {τ : Type} [Field τ] [LinearOrder τ] [IsStrictOrderedRing τ] [FloorRing τ]
  {t r : Timestamp τ}

/-- The fraction of the time is a fraction of a second. -/
structure Reduced (t : Timestamp τ) : Prop where
  fraction_nonneg : 0 ≤ t.fraction
  fraction_lt : t.fraction < 1

omit [IsStrictOrderedRing τ] in
theorem total_eq (t : Timestamp τ) : t.total = (t.seconds.toNat : τ) + t.fraction := rfl

omit [IsStrictOrderedRing τ] in
theorem reduced_zero : (zero : Timestamp τ).Reduced where
  fraction_nonneg := (Nat.cast_zero (R := τ)).ge
  fraction_lt := (Nat.cast_zero (R := τ)).trans_lt one_pos

omit [IsStrictOrderedRing τ] in
theorem total_zero : (zero : Timestamp τ).total = 0 := by
  show ((0 : ℕ) : τ) + ((0 : ℕ) : τ) = 0
  rw [Nat.cast_zero, add_zero]

/-! ### Words

A word reads a scalar by its whole part, as far as the word reaches. -/

theorem truncated_intCast (n : ℤ) : truncated (n : τ) = n := by
  rw [truncated]
  split
  · exact Int.floor_intCast n
  · exact Int.ceil_intCast n

theorem toInt_toInt64 (n : ℤ) :
    (Rounded.toInt64 (n : τ)).toInt = max Int64.minValue.toInt (min Int64.maxValue.toInt n) := by
  have hmin : Int64.minValue.toInt = -2 ^ 63 := rfl
  have hmax : Int64.maxValue.toInt = 2 ^ 63 - 1 := rfl
  show (Int64.ofInt (max _ (min _ (truncated (n : τ))))).toInt = _
  rw [truncated_intCast, Int64.toInt_ofInt_of_le (by omega) (by omega)]

theorem toNat_toUInt64 {n : ℤ} (hpos : 0 ≤ n) (hlt : n < wordLimit) :
    ((Rounded.toUInt64 (n : τ)).toNat : ℤ) = n := by
  have hlimit : wordLimit = UInt64.size := rfl
  show ((UInt64.ofNat (min (wordLimit - 1) (truncated (n : τ)).toNat)).toNat : ℤ) = n
  rw [truncated_intCast, UInt64.toNat_ofNat_of_lt' (by omega)]
  omega

theorem toInt_seconds {seconds : UInt64} (h : (seconds.toNat : ℤ) ≤ Int64.maxValue.toInt) :
    seconds.toInt64.toInt = seconds.toNat := by
  have hmax : Int64.maxValue.toInt = 2 ^ 63 - 1 := rfl
  have hnat : seconds.toBitVec.toNat = seconds.toNat := rfl
  exact BitVec.toInt_eq_toNat_of_lt (x := seconds.toBitVec) (by omega)

/-! ### Carrying -/

omit [IsStrictOrderedRing τ] in
theorem carried_of_lt (h : t.fraction < 1) : t.carried = .ok t := by
  refine if_neg ?_
  show ¬ ((1 : ℕ) : τ) ≤ t.fraction
  rw [Nat.cast_one]
  exact not_le.2 h

/-- Whatever is carried leaves less than a second. -/
theorem fraction_lt_of_carried (h : t.carried = .ok r) :
    r.fraction < 1 ∧ (0 ≤ t.fraction → 0 ≤ r.fraction) := by
  by_cases hlt : t.fraction < 1
  · rw [carried_of_lt hlt] at h
    cases h
    exact ⟨hlt, id⟩
  · have hle : Scalar.whole 1 ≤ t.fraction := by
      show ((1 : ℕ) : τ) ≤ t.fraction
      rw [Nat.cast_one]
      exact not_lt.1 hlt
    rw [carried, if_pos hle] at h
    obtain ⟨seconds, -, rfl⟩ := Fault.exists_of_bind_pure h
    show t.fraction - (⌊t.fraction⌋ : τ) < 1 ∧
      (0 ≤ t.fraction → 0 ≤ t.fraction - (⌊t.fraction⌋ : τ))
    rw [Int.self_sub_floor]
    exact ⟨Int.fract_lt_one _, fun _ => Int.fract_nonneg _⟩

/-- **Carrying keeps the total** and leaves a fraction of a second, if the seconds fit their
word. -/
theorem carried_spec (hpos : 0 ≤ t.fraction)
    (hfits : (t.seconds.toNat : ℤ) + ⌊t.fraction⌋ < wordLimit) :
    ∃ r, t.carried = .ok r ∧ r.Reduced ∧ r.total = t.total := by
  by_cases hlt : t.fraction < 1
  · exact ⟨t, carried_of_lt hlt, ⟨hpos, hlt⟩, rfl⟩
  · have hle : Scalar.whole 1 ≤ t.fraction := by
      show ((1 : ℕ) : τ) ≤ t.fraction
      rw [Nat.cast_one]
      exact not_lt.1 hlt
    have hfloor : 0 ≤ ⌊t.fraction⌋ := Int.floor_nonneg.2 hpos
    have hcarry : ((Rounded.toUInt64 (Rounded.floor t.fraction)).toNat : ℤ) = ⌊t.fraction⌋ :=
      toNat_toUInt64 hfloor (by omega)
    obtain ⟨n, hn⟩ := Int.eq_ofNat_of_zero_le hfloor
    have hsum : t.seconds.toNat + (Rounded.toUInt64 (Rounded.floor t.fraction)).toNat =
        t.seconds.toNat + n := by omega
    have hword : t.seconds.toNat + n < wordLimit := by omega
    have hok : t.carried = .ok ⟨UInt64.ofNat (t.seconds.toNat + n), Int.fract t.fraction⟩ := by
      rw [carried, if_pos hle]
      refine Fault.bind_eq_ok_iff.2 ⟨t.seconds.toNat + n, ?_, rfl⟩
      rw [hsum]
      exact Fault.word_ok hword
    refine ⟨_, hok, ⟨Int.fract_nonneg _, Int.fract_lt_one _⟩, ?_⟩
    rw [total_eq, total_eq, UInt64.toNat_ofNat_of_lt' hword, Nat.cast_add, add_assoc]
    congr 1
    have hwhole : ((n : ℕ) : τ) = (⌊t.fraction⌋ : τ) := by
      rw [hn]
      exact (Int.cast_natCast n).symm
    rw [hwhole, Int.floor_add_fract]

/-! ### Shifting -/

/-- The seconds of a shifted time before anything is carried, as signed words add them. -/
def movedSeconds (t : Timestamp τ) (elapsed : τ) : ℤ :=
  t.seconds.toInt64.toInt + (Rounded.toInt64 (Rounded.floor elapsed)).toInt

/-- The signed words reach that far. -/
def InRange (t : Timestamp τ) (elapsed : τ) : Prop :=
  Int64.minValue.toInt ≤ t.movedSeconds elapsed ∧ t.movedSeconds elapsed ≤ Int64.maxValue.toInt

/-- A shift that ends at the start of the clock, although the fractions make up for the second that
the whole seconds are before it. -/
def LosesCarry (t : Timestamp τ) (elapsed : τ) : Prop :=
  (t.seconds.toNat : ℤ) + ⌊elapsed⌋ = -1 ∧ 1 < t.fraction + Int.fract elapsed

variable {elapsed : τ}

omit [IsStrictOrderedRing τ] in
theorem shift_of_neg (h : t.InRange elapsed) (hneg : t.movedSeconds elapsed < 0) :
    t.shift elapsed = .ok zero := by
  have hrange : ¬ (t.movedSeconds elapsed < Int64.minValue.toInt ∨
      Int64.maxValue.toInt < t.movedSeconds elapsed) := by
    rw [not_or, not_lt, not_lt]
    exact h
  exact (if_neg hrange).trans (if_pos hneg)

omit [IsStrictOrderedRing τ] in
theorem shift_of_nonneg (h : t.InRange elapsed) (hpos : 0 ≤ t.movedSeconds elapsed) :
    t.shift elapsed =
      carried ⟨UInt64.ofNat (t.movedSeconds elapsed).toNat, t.fraction + Int.fract elapsed⟩ := by
  have hrange : ¬ (t.movedSeconds elapsed < Int64.minValue.toInt ∨
      Int64.maxValue.toInt < t.movedSeconds elapsed) := by
    rw [not_or, not_lt, not_lt]
    exact h
  exact (if_neg hrange).trans (if_neg (not_lt.2 hpos))

/-- A shift to behind the start of the clock adds up. -/
theorem shift_forward (ht : t.Reduced) (h : t.InRange elapsed) (hpos : 0 ≤ t.movedSeconds elapsed) :
    ∃ r, t.shift elapsed = .ok r ∧ r.Reduced ∧
      r.total = (t.movedSeconds elapsed : τ) + (t.fraction + Int.fract elapsed) := by
  have hmax : Int64.maxValue.toInt = 2 ^ 63 - 1 := rfl
  have hlimit : wordLimit = UInt64.size := rfl
  have hsize : UInt64.size = 2 ^ 64 := rfl
  obtain ⟨n, hn⟩ := Int.eq_ofNat_of_zero_le hpos
  have hlt : n < 2 ^ 63 := by
    have hle := h.2
    omega
  have hfraction : 0 ≤ t.fraction + Int.fract elapsed :=
    add_nonneg ht.fraction_nonneg (Int.fract_nonneg _)
  have hfloor : ⌊t.fraction + Int.fract elapsed⌋ < 2 := by
    rw [Int.floor_lt]
    have hone := Int.fract_lt_one elapsed
    have htwo := ht.fraction_lt
    push_cast
    linarith
  have hnat : (UInt64.ofNat n).toNat = n := UInt64.toNat_ofNat_of_lt' (by omega)
  have hfits : ((UInt64.ofNat n).toNat : ℤ) + ⌊t.fraction + Int.fract elapsed⌋ < wordLimit := by
    omega
  rw [shift_of_nonneg h hpos, hn, Int.toNat_natCast]
  obtain ⟨r, hr, hreduced, htotal⟩ :=
    carried_spec (t := ⟨UInt64.ofNat n, t.fraction + Int.fract elapsed⟩) hfraction hfits
  refine ⟨r, hr, hreduced, ?_⟩
  rw [htotal, total_eq, hnat, Int.cast_natCast]

/-- A shift within the words gives a time, and its fraction is a fraction of a second again. -/
theorem shift_returns (ht : t.Reduced) (h : t.InRange elapsed) :
    ∃ r, t.shift elapsed = .ok r ∧ r.Reduced := by
  rcases lt_or_ge (t.movedSeconds elapsed) 0 with hneg | hpos
  · exact ⟨zero, shift_of_neg h hneg, reduced_zero⟩
  · obtain ⟨r, hr, hreduced, -⟩ := shift_forward ht h hpos
    exact ⟨r, hr, hreduced⟩

/-- From seconds that the signed words can count, and not past what they can count, the words reach
far enough. A shift that they do not reach downwards saturates, and is before the start of the clock
as it is without words. -/
theorem movedSeconds_cases
    (hfits : (t.seconds.toNat : ℤ) + ⌊elapsed⌋ ≤ Int64.maxValue.toInt)
    (hseconds : (t.seconds.toNat : ℤ) ≤ Int64.maxValue.toInt) :
    t.InRange elapsed ∧
      (t.movedSeconds elapsed = t.seconds.toNat + ⌊elapsed⌋ ∨
        t.movedSeconds elapsed < 0 ∧ (t.seconds.toNat : ℤ) + ⌊elapsed⌋ < 0) := by
  have hmin : Int64.minValue.toInt = -2 ^ 63 := rfl
  have hmax : Int64.maxValue.toInt = 2 ^ 63 - 1 := rfl
  have hmoved : t.movedSeconds elapsed = t.seconds.toNat +
      max Int64.minValue.toInt (min Int64.maxValue.toInt ⌊elapsed⌋) := by
    rw [movedSeconds, toInt_seconds hseconds]
    congr 1
    exact toInt_toInt64 ⌊elapsed⌋
  rw [InRange, hmoved]
  omega

/-! ### The two operations -/

/-- **Making a time** keeps the total. It leaves a fraction of a second if the fraction was not
negative, and then shifting within the words does so again. A negative fraction is kept. Making a
time of a time that was made changes nothing. -/
theorem ofParts_reduces (seconds : UInt64) (fraction : τ) :
    (0 ≤ fraction → (seconds.toNat : ℤ) + ⌊fraction⌋ < wordLimit →
      ∃ t, ofParts seconds fraction = .ok t ∧ t.Reduced ∧
        t.total = (seconds.toNat : τ) + fraction ∧
        ∀ elapsed, t.InRange elapsed → ∃ r, t.shift elapsed = .ok r ∧ r.Reduced) ∧
    (fraction < 0 → ofParts seconds fraction = .ok ⟨seconds, fraction⟩) ∧
    ∀ t, ofParts seconds fraction = .ok t → ofParts t.seconds t.fraction = .ok t := by
  refine ⟨fun hpos hfits => ?_, fun hneg => ?_, fun t ht => ?_⟩
  · obtain ⟨t, ht, hreduced, htotal⟩ := carried_spec (t := ⟨seconds, fraction⟩) hpos hfits
    exact ⟨t, ht, hreduced, htotal, fun elapsed => shift_returns hreduced⟩
  · exact carried_of_lt (t := ⟨seconds, fraction⟩) (hneg.trans one_pos)
  · exact carried_of_lt (fraction_lt_of_carried ht).1

/-- Two seconds are carried out of a fraction, and a shift takes all but a part of a second back. -/
theorem ofParts_reduces_carries :
    ∃ t : Timestamp ℚ, ofParts 5 (7 / 3) = .ok t ∧ t.Reduced ∧ t.total = 5 + 7 / 3 ∧
      ofParts t.seconds t.fraction = .ok t ∧ ∃ r, t.shift (-29 / 4) = .ok r ∧ r.Reduced := by
  obtain ⟨hmakes, -, hagain⟩ := ofParts_reduces 5 (7 / 3 : ℚ)
  obtain ⟨t, ht, hreduced, htotal, hshift⟩ := hmakes (by norm_num) (by decide +kernel)
  obtain ⟨u, hu, hrange⟩ := Fault.exists_ok_of_any (x := ofParts 5 (7 / 3 : ℚ))
    (p := fun t => decide (Int64.minValue.toInt ≤ t.movedSeconds (-29 / 4) ∧
      t.movedSeconds (-29 / 4) ≤ Int64.maxValue.toInt))
    (by decide +kernel)
  cases ht.symm.trans hu
  have hbounds := of_decide_eq_true hrange
  exact ⟨t, ht, hreduced, htotal, hagain t ht, hshift _ hbounds⟩

/-- A negative fraction is kept, although a second could be borrowed. -/
theorem ofParts_keeps_negative :
    ∃ t : Timestamp ℚ, ofParts 5 (-1 / 2) = .ok t ∧ ¬ t.Reduced ∧ 0 ≤ 5 + ⌊(-1 / 2 : ℚ)⌋ := by
  refine ⟨⟨5, -1 / 2⟩, carried_of_lt (by norm_num), fun h => ?_, by decide +kernel⟩
  have hpos : (0 : ℚ) ≤ -1 / 2 := h.fraction_nonneg
  norm_num at hpos

/-- **Shifting a time adds to it**, and what would be before the start of the clock is its start.
The exception is a shift that loses a carry. It ends at the start, and should not. -/
theorem shift_saturates (ht : t.Reduced)
    (hseconds : (t.seconds.toNat : ℤ) ≤ Int64.maxValue.toInt) (elapsed : τ)
    (hfits : (t.seconds.toNat : ℤ) + ⌊elapsed⌋ ≤ Int64.maxValue.toInt) :
    ∃ r, t.shift elapsed = .ok r ∧ r.Reduced ∧
      (¬ t.LosesCarry elapsed → r.total = max 0 (t.total + elapsed)) ∧
      (t.LosesCarry elapsed → r.total = 0 ∧ 0 < t.total + elapsed) := by
  obtain ⟨hrange, hmoved⟩ := movedSeconds_cases hfits hseconds
  have hsum : t.total + elapsed =
      (((t.seconds.toNat : ℤ) + ⌊elapsed⌋ : ℤ) : τ) + (t.fraction + Int.fract elapsed) := by
    rw [total_eq, Int.cast_add, Int.cast_natCast]
    linarith [Int.floor_add_fract elapsed]
  have hfraction : 0 ≤ t.fraction + Int.fract elapsed :=
    add_nonneg ht.fraction_nonneg (Int.fract_nonneg _)
  rcases lt_or_ge (t.movedSeconds elapsed) 0 with hneg | hpos
  · -- before the start of the clock by the whole seconds
    have hbefore : (t.seconds.toNat : ℤ) + ⌊elapsed⌋ < 0 := by omega
    refine ⟨zero, shift_of_neg hrange hneg, reduced_zero, fun hkeeps => ?_, fun hloses => ?_⟩
    · rw [total_zero, hsum, max_eq_left]
      by_cases hone : (t.seconds.toNat : ℤ) + ⌊elapsed⌋ = -1
      · have hcarry : t.fraction + Int.fract elapsed ≤ 1 := not_lt.1 fun hgt => hkeeps ⟨hone, hgt⟩
        rw [hone]
        push_cast
        linarith
      · have htwo : (((t.seconds.toNat : ℤ) + ⌊elapsed⌋ : ℤ) : τ) ≤ ((-2 : ℤ) : τ) :=
          Int.cast_le.2 (by omega)
        have hfirst := ht.fraction_lt
        have hsecond := Int.fract_lt_one elapsed
        push_cast at htwo ⊢
        linarith
    · rw [hsum, hloses.1]
      have hcarry := hloses.2
      refine ⟨total_zero, ?_⟩
      push_cast
      linarith
  · have hwhole : t.movedSeconds elapsed = t.seconds.toNat + ⌊elapsed⌋ := by omega
    obtain ⟨r, hr, hreduced, htotal⟩ := shift_forward ht hrange hpos
    have hbehind : (0 : τ) ≤ (((t.seconds.toNat : ℤ) + ⌊elapsed⌋ : ℤ) : τ) :=
      Int.cast_nonneg (hwhole ▸ hpos)
    refine ⟨r, hr, hreduced, fun _ => ?_, fun hloses => ?_⟩
    · rw [htotal, hwhole, ← hsum, max_eq_right]
      rw [hsum]
      exact add_nonneg hbehind hfraction
    · have hone := hloses.1
      omega

/-- Half a second back over the start of a second, and twenty seconds back over the start of the
clock. -/
theorem shift_saturates_borrow :
    (∃ r, (⟨10, 1 / 4⟩ : Timestamp ℚ).shift (-1 / 2) = .ok r ∧ r.Reduced ∧ r.total = 39 / 4) ∧
      ∃ r, (⟨10, 1 / 4⟩ : Timestamp ℚ).shift (-20) = .ok r ∧ r.Reduced ∧ r.total = 0 := by
  have hreduced : (⟨10, 1 / 4⟩ : Timestamp ℚ).Reduced := ⟨by norm_num, by norm_num⟩
  have htotal : (⟨10, 1 / 4⟩ : Timestamp ℚ).total = 41 / 4 := by decide +kernel
  obtain ⟨r, hr, hborrow, hsum, -⟩ :=
    shift_saturates hreduced (by decide) (-1 / 2) (by decide +kernel)
  obtain ⟨u, hu, hbefore, hzero, -⟩ :=
    shift_saturates hreduced (by decide) (-20) (by decide +kernel)
  refine ⟨⟨r, hr, hborrow, ?_⟩, u, hu, hbefore, ?_⟩
  · rw [hsum fun h => absurd h.1 (by decide +kernel), htotal]
    norm_num
  · rw [hzero fun h => absurd h.1 (by decide +kernel), htotal]
    norm_num

/-- A quarter of a second back from half a second is the start of the clock, and should be a quarter
of a second. -/
theorem shift_loses_carry :
    ∃ r, (⟨0, 1 / 2⟩ : Timestamp ℚ).shift (-1 / 4) = .ok r ∧ r.total = 0 ∧
      max 0 ((⟨0, 1 / 2⟩ : Timestamp ℚ).total + -1 / 4) = 1 / 4 := by
  obtain ⟨r, hr, hzero⟩ := Fault.exists_ok_of_any
    (x := (⟨0, 1 / 2⟩ : Timestamp ℚ).shift (-1 / 4)) (p := fun r => decide (r.total = 0))
    (by decide +kernel)
  exact ⟨r, hr, of_decide_eq_true hzero, by decide +kernel⟩

end Timestamp

end OfdmBurst
