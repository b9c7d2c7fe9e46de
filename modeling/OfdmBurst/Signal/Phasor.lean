import OfdmBurst.Signal.Scalar

/-!
# Phasors

A sample of a baseband signal, or the value on a carrier, is a point of the plane: an in-phase and
a quadrature coordinate. The operations below fix the order in which the coordinates are combined,
because every one of them may round.
-/

namespace OfdmBurst

/-- A point of the signal plane. -/
structure Phasor (ρ : Type) where
  re : ρ
  im : ρ
deriving DecidableEq

/-- The samples a stream carries. -/
abbrev Sample := Phasor Float32

namespace Phasor

variable {ρ : Type} [Scalar ρ]

/-- The origin. -/
def zero : Phasor ρ := ⟨Scalar.whole 0, Scalar.whole 0⟩

/-- The unit on the in-phase axis. -/
def one : Phasor ρ := ⟨Scalar.whole 1, Scalar.whole 0⟩

instance : Inhabited (Phasor ρ) := ⟨zero⟩

instance : Add (Phasor ρ) := ⟨fun x y => ⟨x.re + y.re, x.im + y.im⟩⟩

instance : Sub (Phasor ρ) := ⟨fun x y => ⟨x.re - y.re, x.im - y.im⟩⟩

instance : Mul (Phasor ρ) :=
  ⟨fun x y => ⟨x.re * y.re - x.im * y.im, x.re * y.im + x.im * y.re⟩⟩

/-- The squared distance from the origin. -/
def power (x : Phasor ρ) : ρ := x.re * x.re + x.im * x.im

instance : Div (Phasor ρ) :=
  ⟨fun x y =>
    ⟨(x.re * y.re + x.im * y.im) / y.power, (x.im * y.re - x.re * y.im) / y.power⟩⟩

/-- The reflection in the in-phase axis. -/
def conj (x : Phasor ρ) : Phasor ρ := ⟨x.re, -x.im⟩

/-- Both coordinates times a factor. -/
def scale (x : Phasor ρ) (factor : ρ) : Phasor ρ := ⟨x.re * factor, x.im * factor⟩

/-- The unit phasor at an angle. -/
def turn {ρ : Type} [Elementary ρ] (angle : ρ) : Phasor ρ :=
  ⟨Elementary.cos angle, Elementary.sin angle⟩

/-- The angle of a phasor. -/
def angle {ρ : Type} [Elementary ρ] (x : Phasor ρ) : ρ := Elementary.angle x.im x.re

end Phasor

end OfdmBurst
