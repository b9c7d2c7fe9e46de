import OfdmBurst.Signal.Phasor

/-!
# The discrete Fourier transform

The transform of `n` samples is the list of their sums along the `n` directions of the circle: into
the frequency domain the directions turn backward, into the time domain forward, and neither way is
scaled. Rotating a symbol by half its length puts the zero frequency into the middle.

A number of samples that has factors is transformed factor by factor: for a factor `p`, every
`p`-th sample makes up a shorter transform, and `p` of those are put together.

A direction on an axis is written exactly. The others come from the sine and cosine of an angle in
the first quarter, so that directions a quarter turn apart have the same coordinates.

## Main definitions

* `Fourier.direction`: the points that divide the circle
* `Fourier.along`, `Fourier.transform`: the transform of a list
* `Fourier.rotated`: the zero frequency in the middle
-/

namespace OfdmBurst

/-- Which domain a transform leads to. -/
inductive Domain where
  | frequency
  | time
deriving DecidableEq, Repr

namespace Fourier

variable {ρ : Type} [Elementary ρ]

/-- Turn a phasor by quarters of a turn. -/
def quarterTurns : Nat → Phasor ρ → Phasor ρ
  | 0, x => x
  | q + 1, x => quarterTurns q ⟨-x.im, x.re⟩

/-- The direction `j / n` of a turn from the in-phase axis. -/
def direction (n j : Nat) : Phasor ρ :=
  let within := 4 * j % n
  let first : Phasor ρ :=
    if within = 0 then Phasor.one
    else Phasor.turn (Elementary.pi * Scalar.whole within / Scalar.whole (2 * n))
  quarterTurns (4 * j / n % 4) first

/-- The directions along which a transform of `n` samples sums. -/
def directions (domain : Domain) (n : Nat) : Array (Phasor ρ) :=
  Array.ofFn fun j : Fin n =>
    match domain with
    | .frequency => (direction n j).conj
    | .time => direction n j

/-- The factors of a number from `divisor` on, in increasing order. Beyond the square root there is
nothing to look for, and `fuel` divisors are tried at most. -/
def factorsFrom : (fuel divisor n : Nat) → List Nat
  | 0, _, n => [n]
  | fuel + 1, divisor, n =>
    if n < divisor * divisor then [n]
    else if n % divisor = 0 then divisor :: factorsFrom fuel divisor (n / divisor)
    else factorsFrom fuel (divisor + 1) n

/-- The prime factors of a number. -/
def factors (n : Nat) : List Nat := if n < 2 then [] else factorsFrom n 2 n

example : factors 360 = [2, 2, 2, 3, 3, 5] ∧ factors 97 = [97] ∧ factors 1 = [] := by decide

/-- Every `step`-th sample from `first` on. -/
@[specialize]
def every (step first : Nat) (xs : Array (Phasor ρ)) : List (Phasor ρ) :=
  (List.range (xs.size / step)).map fun i => xs.getD (first + step * i) Phasor.zero

/-- Entry `k` of a transform, from the transforms of every so many samples. The part that starts
with sample `r` counts along the multiple `k` of direction `r`. -/
@[specialize]
def merged (ways : Array (Phasor ρ)) (stride : Nat) (parts : Array (Array (Phasor ρ))) (k : Nat) :
    Phasor ρ :=
  (List.range parts.size).foldl
    (fun total r =>
      let part := parts.getD r #[]
      total + part.getD (k % part.size) Phasor.zero *
        ways.getD (stride * k * r % ways.size) Phasor.one)
    Phasor.zero

/-- The transform of samples whose number is the product of `factors`. Their directions are every
`stride`-th of all. It is put together from the transforms of every `p`-th sample for the first
factor `p`, so a prime number of samples is summed as it stands. -/
@[specialize]
def along (ways : Array (Phasor ρ)) :
    (factors : List Nat) → (stride : Nat) → List (Phasor ρ) → List (Phasor ρ)
  | [], _, xs => xs
  | p :: rest, stride, xs =>
    let samples := xs.toArray
    let parts := (Array.range p).map fun r =>
      (along ways rest (stride * p) (every p r samples)).toArray
    (List.range xs.length).map (merged ways stride parts)

/-- The transform of a list of samples. -/
@[specialize]
def transform (domain : Domain) (xs : List (Phasor ρ)) : List (Phasor ρ) :=
  along (directions domain xs.length) (factors xs.length) 1 xs

theorem length_along (ways : Array (Phasor ρ)) (factors : List Nat) (stride : Nat)
    (xs : List (Phasor ρ)) : (along ways factors stride xs).length = xs.length := by
  cases factors <;> simp [along]

theorem length_transform (domain : Domain) (xs : List (Phasor ρ)) :
    (transform domain xs).length = xs.length :=
  length_along ..

/-- A list turned to the left by half its length. -/
def rotated {α : Type} (xs : List α) : List α :=
  xs.drop (xs.length / 2) ++ xs.take (xs.length / 2)

theorem length_rotated {α : Type} (xs : List α) : (rotated xs).length = xs.length := by
  simp [rotated]; omega

end Fourier

end OfdmBurst
