import OfdmBurst.Text.Shortest

/-!
# The numbers signals are made of

The definitions of this library that compute with real quantities are written over a type of
scalars, so that they can be run on machine numbers and reasoned about over an ordered field.
`Scalar` collects what all of them need. Two refinements follow: `Rounded` for times, whose whole
seconds are kept in machine words, and `Elementary` for carriers, which turn in the plane.

Constants are written as quotients of whole numbers. One division rounds once, so `1 / 20` is the
machine number nearest to five hundredths.

## Main definitions

* `Scalar`: arithmetic, order, whole numbers, and how a value is written in a message
* `Rounded`: rounding down and saturating conversion to words
* `Elementary`: sine, cosine, angle of a vector, and half a turn
* `Widened`: a scalar type held exactly inside another
-/

namespace OfdmBurst

/-- Arithmetic with an order. Nothing is asked of the operations: on machine numbers every one of
them rounds. -/
class Scalar (α : Type) extends Add α, Sub α, Mul α, Div α, Neg α, LT α, LE α where
  /-- The scalar nearest to a whole number. -/
  whole : Nat → α
  decideLT : ∀ a b : α, Decidable (a < b)
  decideLE : ∀ a b : α, Decidable (a ≤ b)
  /-- Whether a value is neither infinite nor undefined. -/
  isFinite : α → Bool
  /-- How a value is written in a message. -/
  written : α → String

attribute [reducible, instance] Scalar.decideLT Scalar.decideLE

/-- Scalars with a whole part that fits a machine word. The conversions saturate at the ends of the
word, and what is not a number becomes zero. -/
class Rounded (α : Type) extends Scalar α where
  floor : α → α
  toInt64 : α → Int64
  toUInt64 : α → UInt64

/-- Scalars with the functions of the circle. -/
class Elementary (α : Type) extends Scalar α where
  cos : α → α
  sin : α → α
  /-- The angle of the vector with the second coordinate first. -/
  angle : α → α → α
  /-- Half a turn. -/
  pi : α

/-- Every `α` is also a `β`. -/
class Widened (α β : Type) where
  widen : α → β

instance : Scalar Float where
  whole := Float.ofNat
  decideLT := Float.decLt
  decideLE := Float.decLe
  isFinite := Float.isFinite
  written := Text.ofFloat

instance : Rounded Float where
  floor := Float.floor
  toInt64 := Float.toInt64
  toUInt64 := Float.toUInt64

instance : Scalar Float32 where
  whole := Float32.ofNat
  decideLT := Float32.decLt
  decideLE := Float32.decLe
  isFinite := Float32.isFinite
  written := Text.ofFloat32

instance : Elementary Float32 where
  cos := Float32.cos
  sin := Float32.sin
  angle := Float32.atan2
  pi := Float32.ofBits 0x40490FDB

instance : Elementary Float where
  cos := Float.cos
  sin := Float.sin
  angle := Float.atan2
  pi := Float.ofBits 0x400921FB54442D18

instance : Widened Float32 Float where
  widen := Float32.toFloat

end OfdmBurst
