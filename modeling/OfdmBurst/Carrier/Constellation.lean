import OfdmBurst.FramingError
import OfdmBurst.Signal.Phasor

/-!
# Constellations

A constellation is a list of points of the signal plane, each with the bit pattern it stands for. A
carrier is decided by the nearest point, and by the first of several that are equally near.

The number of bits of a pattern is not stored. It follows from the number of points, as the least
that gives every point a pattern of its own.

## Main definitions

* `Constellation`, `Constellation.ofTables`: points with patterns
* `Constellation.nearest`: the decision for a received value
* `Constellation.point?`, `Constellation.isComplete`: from pattern to point
* `Constellation.pointTable`: the points in the order of their patterns
* `Constellation.bpsk`, `qpsk`, `psk8`, `qam16`: the standard tables, Gray coded
-/

namespace OfdmBurst

/-- Points of the signal plane with the bit patterns they stand for. -/
structure Constellation (ρ : Type) where
  points : List (Phasor ρ)
  values : List UInt8
  length_eq : values.length = points.length
  points_ne : points ≠ []

namespace Constellation

variable {ρ : Type}

/-- The number of points. -/
def size (c : Constellation ρ) : Nat := c.points.length

theorem size_pos (c : Constellation ρ) : 0 < c.size :=
  List.length_pos_iff.2 c.points_ne

/-- The least number of bits with at least `points` patterns. -/
def bitsFor (points : Nat) : Nat := if points ≤ 1 then 0 else (points - 1).log2 + 1

/-- Bits per carrier. -/
def bits (c : Constellation ρ) : Nat := bitsFor c.size

/-- The point at a place of the table. -/
def pointAt (c : Constellation ρ) (i : Fin c.size) : Phasor ρ := c.points.get i

/-- The pattern at a place of the table. -/
def valueAt (c : Constellation ρ) (i : Fin c.size) : UInt8 :=
  c.values.get (i.cast c.length_eq.symm)

/-- A constellation from its two tables. It has 2 to 256 points, and no pattern has more bits than
the number of points calls for. -/
def ofTables (points : List (Phasor ρ)) (values : List UInt8) :
    Except FramingError (Constellation ρ) :=
  if h : values.length = points.length then
    if h0 : points = [] then .error .emptyConstellation
    else if points.length < 2 ∨ 256 < points.length then
      .error (.parameter (.constellationSize points.length))
    else
      let bits := bitsFor points.length
      match values.find? fun v => v.toNat / Nat.pow 2 bits ≠ 0 with
      | some v => .error (.constellationValue v.toNat bits)
      | none => .ok ⟨points, values, h, h0⟩
  else .error (.constellationMismatch points.length values.length)

/-! ### Decisions -/

/-- Search the points from place `i` on for one that is strictly nearer than the best so far. -/
def nearestFrom [Scalar ρ] (x : Phasor ρ) : List (Phasor ρ) → (i best : Nat) → ρ → Nat
  | [], _, best, _ => best
  | p :: rest, i, best, distance =>
    if (x - p).power < distance then nearestFrom x rest (i + 1) i (x - p).power
    else nearestFrom x rest (i + 1) best distance

theorem nearestFrom_lt [Scalar ρ] (x : Phasor ρ) (points : List (Phasor ρ)) (i best : Nat)
    (distance : ρ) (h : best < i) : nearestFrom x points i best distance < i + points.length := by
  induction points generalizing i best distance with
  | nil => simpa [nearestFrom] using h
  | cons p rest ih =>
    simp only [nearestFrom, List.length_cons]
    split
    · have := ih (i + 1) i (x - p).power (by omega); omega
    · have := ih (i + 1) best distance (by omega); omega

/-- The place of the nearest point, the first of several that are equally near. -/
def nearest [Scalar ρ] (c : Constellation ρ) (x : Phasor ρ) : Fin c.size :=
  match h : c.points with
  | [] => absurd h c.points_ne
  | p :: rest =>
    ⟨nearestFrom x rest 1 0 (x - p).power, by
      have := nearestFrom_lt x rest 1 0 (x - p).power Nat.one_pos
      simp [size, h]; omega⟩

/-- The point that stands for a pattern, the first if there are several. -/
def point? (c : Constellation ρ) (value : UInt8) : Option (Phasor ρ) :=
  (c.values.findIdx? (· == value)).bind (c.points[·]?)

/-- Whether every pattern has a point. -/
def isComplete (c : Constellation ρ) : Bool :=
  (List.range (Nat.pow 2 c.bits)).all fun v => c.values.contains (UInt8.ofNat v)

/-- The points in the order of their patterns. -/
def pointTable (c : Constellation ρ) : List (Phasor ρ) :=
  (List.range (Nat.pow 2 c.bits)).filterMap fun v => c.point? (UInt8.ofNat v)

/-! ### Standard tables

Neighbours differ in one bit. -/

/-- The Gray code of a place. -/
def gray (i : UInt8) : UInt8 := i ^^^ (i >>> 1)

/-- The points in the order of their Gray codes. -/
def grayCoded (points : List (Phasor ρ)) (h : points ≠ []) : Constellation ρ where
  points := points
  values := (List.range points.length).map fun i => gray (UInt8.ofNat i)
  length_eq := by simp
  points_ne := h

/-- Two points on the in-phase axis. -/
def bpsk : Constellation Float32 := grayCoded [⟨-1, 0⟩, ⟨1, 0⟩] (by simp)

/-- Four points of the unit circle, on the diagonals. -/
def qpsk : Constellation Float32 :=
  grayCoded ((List.range 4).map fun k =>
      Phasor.turn (Elementary.pi / 4 + Float32.ofNat k * Elementary.pi / 2))
    (by simp [List.range, List.range.loop])

/-- Eight points of the unit circle, the first on the in-phase axis. -/
def psk8 : Constellation Float32 :=
  grayCoded ((List.range 8).map fun k => Phasor.turn (Float32.ofNat k * Elementary.pi / 4))
    (by simp [List.range, List.range.loop])

/-- A square grid of sixteen points with unit mean power. Each axis has a Gray code of two bits,
the in-phase axis the upper ones. -/
def qam16 : Constellation Float32 :=
  let scale := 1 / Float32.sqrt 10
  let axis : List (UInt8 × Float32) := [(0, -3), (1, -1), (2, 1), (3, 3)]
  let grid := axis.flatMap fun re => axis.map fun im => (re, im)
  { points := grid.map fun (re, im) => ⟨re.2 * scale, im.2 * scale⟩
    values := grid.map fun (re, im) => (gray re.1 <<< 2) ||| gray im.1
    length_eq := by simp
    points_ne := by simp [grid, axis] }

end Constellation

end OfdmBurst
