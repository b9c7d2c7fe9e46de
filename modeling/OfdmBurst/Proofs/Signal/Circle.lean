import Mathlib.Algebra.Order.Field.Basic
import Mathlib.Analysis.SpecialFunctions.Complex.Arg
import OfdmBurst.Signal.Phasor

/-!
# Turning without rounding

A demapper turns what it receives by an angle and measures by which angle the result is off. On
machine numbers all of that rounds. Here it is done over an ordered field, and the functions of the
circle are a parameter: nothing is known of them but what a statement asks for. Whoever needs an
angle that is at most half a turn either way asks for `CircleFunctions.Bounded`, and whoever needs
that nothing is turned by an angle of zero asks for `CircleFunctions.Level`.

The real numbers with their own sine, cosine and argument have both.

No whole part is taken of any scalar, so the field need not be Archimedean. That is why the
instances are apart from those of the exact times, which do take whole parts.

## Main definitions

* `CircleFunctions` — sine, cosine, angle and half a turn
* `CircleFunctions.Bounded`, `CircleFunctions.Level` — what may be asked of them

## Main results

* `CircleFunctions.bounded_real`, `CircleFunctions.level_real` — the real numbers
* `Phasor.mul_one_eq`, `Phasor.mul_conj_eq`, `Phasor.div_self_eq` — exact arithmetic in the plane
-/

namespace OfdmBurst

/-- The functions of a circle, over scalars that do not round. -/
class CircleFunctions (τ : Type) where
  cos : τ → τ
  sin : τ → τ
  /-- The angle of the vector with the second coordinate first. -/
  angle : τ → τ → τ
  /-- Half a turn. -/
  pi : τ

section Exact

variable {τ : Type} [Field τ] [LinearOrder τ]

instance (priority := low) exactElementary [CircleFunctions τ] : Elementary τ where
  whole n := n
  decideLT := inferInstance
  decideLE := inferInstance
  isFinite _ := true
  written _ := ""
  cos := CircleFunctions.cos
  sin := CircleFunctions.sin
  angle := CircleFunctions.angle
  pi := CircleFunctions.pi

instance (priority := low) exactWidened : Widened τ τ := ⟨id⟩

namespace CircleFunctions

variable (τ) [CircleFunctions τ]

/-- An angle is at most half a turn either way. -/
structure Bounded : Prop where
  /-- Half a turn is positive. -/
  pi_pos : 0 < (pi : τ)
  /-- No angle is more than half a turn backward. -/
  neg_pi_le : ∀ y x : τ, -pi ≤ angle y x
  /-- No angle is more than half a turn forward. -/
  angle_le_pi : ∀ y x : τ, angle y x ≤ pi

/-- An angle of zero turns nothing, and what lies on the positive axis is not off. -/
structure Level : Prop where
  /-- Half a turn is positive. -/
  pi_pos : 0 < (pi : τ)
  /-- An angle of zero keeps the in-phase part. -/
  cos_zero : cos (0 : τ) = 1
  /-- An angle of zero adds no quadrature part. -/
  sin_zero : sin (0 : τ) = 0
  /-- The angle of what lies on the positive axis is zero. -/
  angle_of_nonneg : ∀ x : τ, 0 ≤ x → angle 0 x = 0

end CircleFunctions

/-! ### The plane -/

namespace Phasor

variable [CircleFunctions τ]

theorem one_eq : (one : Phasor τ) = ⟨1, 0⟩ := by
  simp only [one, mk.injEq]
  exact ⟨Nat.cast_one, Nat.cast_zero⟩

theorem zero_eq : (zero : Phasor τ) = ⟨0, 0⟩ := by
  simp only [zero, mk.injEq]
  exact ⟨Nat.cast_zero, Nat.cast_zero⟩

theorem mul_one_eq (x : Phasor τ) : x * one = x := by
  show (⟨x.re * one.re - x.im * one.im, x.re * one.im + x.im * one.re⟩ : Phasor τ) = x
  rw [one_eq]
  simp

theorem mul_conj_eq (x : Phasor τ) : x * x.conj = ⟨x.power, 0⟩ := by
  show (⟨x.re * x.re - x.im * -x.im, x.re * -x.im + x.im * x.re⟩ : Phasor τ) = ⟨x.power, 0⟩
  simp only [mk.injEq]
  constructor
  · rw [power]
    ring
  · ring

theorem sub_self_eq (x : Phasor τ) : x - x = zero := by
  show (⟨x.re - x.re, x.im - x.im⟩ : Phasor τ) = zero
  simp [zero_eq]

theorem power_zero : (zero : Phasor τ).power = 0 := by
  rw [zero_eq, power]
  simp

theorem div_self_eq {x : Phasor τ} (h : x.power ≠ 0) : x / x = one := by
  show (⟨(x.re * x.re + x.im * x.im) / x.power, (x.im * x.re - x.re * x.im) / x.power⟩ :
    Phasor τ) = one
  rw [one_eq, ← power, div_self h]
  simp [mul_comm]

/-- Nothing is turned by an angle of zero. -/
theorem turn_zero (h : CircleFunctions.Level τ) : turn (0 : τ) = one := by
  show (⟨CircleFunctions.cos 0, CircleFunctions.sin 0⟩ : Phasor τ) = one
  rw [h.cos_zero, h.sin_zero, one_eq]

end Phasor

end Exact

/-! ### The real numbers -/

namespace CircleFunctions

noncomputable instance realCircle : CircleFunctions ℝ where
  cos := Real.cos
  sin := Real.sin
  angle y x := Complex.arg ⟨x, y⟩
  pi := Real.pi

theorem bounded_real : Bounded ℝ where
  pi_pos := Real.pi_pos
  neg_pi_le y x := (Complex.neg_pi_lt_arg ⟨x, y⟩).le
  angle_le_pi y x := Complex.arg_le_pi ⟨x, y⟩

theorem level_real : Level ℝ where
  pi_pos := Real.pi_pos
  cos_zero := Real.cos_zero
  sin_zero := Real.sin_zero
  angle_of_nonneg _ hx := Complex.arg_ofReal_of_nonneg hx

end CircleFunctions

end OfdmBurst
