import Mathlib.Data.Fintype.EquivFin
import Mathlib.Data.Fintype.Lattice
import Mathlib.Data.Prod.Lex
import OfdmBurst.Proofs.Carrier.Constellation
import OfdmBurst.Proofs.Signal.Order

/-!
# The first of the nearest points

A decision keeps the best point so far, and only a point that compares as strictly nearer takes its
place. If the distances are in order, this leaves a point that none is nearer than, and of several
such points the one that stands first in the table. There is only one such point, so a decision
depends on the order of the distances and on nothing else.

Distances are what is computed for them. They may round, overflow to infinity and tie, as long as
all of them are numbers.

## Main definitions

* `Constellation.distance` — the squared distance of a point, as it is computed

## Main results

* `Constellation.nearest_iff_of_rank` — the decision, for distances that compare as ranks do
* `Constellation.nearest_iff` — the decision, for machine numbers that are totally ordered
-/

namespace OfdmBurst

/-- Of finitely many ranks one is the least, and the first of the least. -/
theorem exists_first_least {κ : Type} [LinearOrder κ] {n : Nat} (hn : 0 < n) (rank : Fin n → κ) :
    ∃ i, (∀ j, rank i ≤ rank j) ∧ ∀ j < i, rank i < rank j := by
  have : Nonempty (Fin n) := ⟨⟨0, hn⟩⟩
  obtain ⟨i, hi⟩ := Finite.exists_min fun i => toLex (rank i, i)
  refine ⟨i, fun j => ?_, fun j hj => ?_⟩
  · rcases Prod.Lex.toLex_le_toLex.1 (hi j) with hlt | ⟨heq, -⟩
    · exact hlt.le
    · exact heq.le
  · rcases Prod.Lex.toLex_le_toLex.1 (hi j) with hlt | ⟨-, hle⟩
    · exact hlt
    · exact absurd hj hle.not_gt

namespace Constellation

variable {ρ : Type} [Scalar ρ]

/-- The squared distance of a point from a received value, as it is computed. -/
def distance (c : Constellation ρ) (x : Phasor ρ) (i : Fin c.size) : ρ := (x - c.pointAt i).power

/-- **The decision is the first of the least distances**, if distances compare as ranks do. -/
theorem nearest_iff_of_rank {κ : Type} [LinearOrder κ] {c : Constellation ρ} {x : Phasor ρ}
    {rank : Fin c.size → κ} (hrank : ∀ i j, c.distance x i < c.distance x j ↔ rank i < rank j)
    {i : Fin c.size} :
    c.nearest x = i ↔ (∀ j, rank i ≤ rank j) ∧ ∀ j < i, rank i < rank j := by
  have hnearest : ∀ i, (∀ j, rank i ≤ rank j) → (∀ j < i, rank i < rank j) → c.nearest x = i :=
    fun i hleast hfirst => nearest_eq (fun j hj => (hrank i j).2 (hfirst j hj))
      fun j _ hj => (hleast j).not_gt ((hrank j i).1 hj)
  refine ⟨?_, fun ⟨hleast, hfirst⟩ => hnearest i hleast hfirst⟩
  rintro rfl
  obtain ⟨i, hleast, hfirst⟩ := exists_first_least c.size_pos rank
  rw [hnearest i hleast hfirst]
  exact ⟨hleast, hfirst⟩

/-- **The nearest point.** If the computed distances of a received value are totally ordered, that
is, if all of them are numbers, the decision is for the one point that no point is strictly nearer
than and that all points in front of it are strictly farther than. -/
theorem nearest_iff {c : Constellation Float32} {x : Sample}
    (htotal : ∀ i j, c.distance x i ≤ c.distance x j ∨ c.distance x j ≤ c.distance x i)
    (i : Fin c.size) :
    c.nearest x = i ↔ (∀ j, ¬ c.distance x j < c.distance x i) ∧
      ∀ j < i, c.distance x i < c.distance x j := by
  have hnumbers := MachineNumber.total_iff.1 htotal
  have hrank : ∀ i j, c.distance x i < c.distance x j ↔
      MachineNumber.placeOf (c.distance x i) < MachineNumber.placeOf (c.distance x j) :=
    fun i j => MachineNumber.lt_iff_placeOf_lt (hnumbers i) (hnumbers j)
  rw [nearest_iff_of_rank hrank]
  simp only [hrank, not_lt]

/-- Four points on the axes. -/
def diamond : Constellation Float32 where
  points := [⟨1, 0⟩, ⟨-1, 0⟩, ⟨0, 1⟩, ⟨0, -1⟩]
  values := [0, 1, 2, 3]
  length_eq := rfl
  points_ne := List.cons_ne_nil _ _

theorem nearest_iff_diamond :
    (∀ i j, diamond.distance ⟨-1, -1⟩ i ≤ diamond.distance ⟨-1, -1⟩ j ∨
        diamond.distance ⟨-1, -1⟩ j ≤ diamond.distance ⟨-1, -1⟩ i) ∧
      ¬ diamond.distance ⟨-1, -1⟩ ⟨1, by decide⟩ < diamond.distance ⟨-1, -1⟩ ⟨3, by decide⟩ ∧
      diamond.nearest ⟨-1, -1⟩ = ⟨1, by decide⟩ := by
  have htotal : ∀ i j, diamond.distance ⟨-1, -1⟩ i ≤ diamond.distance ⟨-1, -1⟩ j ∨
      diamond.distance ⟨-1, -1⟩ j ≤ diamond.distance ⟨-1, -1⟩ i := by decide +kernel
  refine ⟨htotal, by decide +kernel, (nearest_iff htotal _).2 ⟨?_, ?_⟩⟩
  · decide +kernel
  · decide +kernel

end Constellation

end OfdmBurst
