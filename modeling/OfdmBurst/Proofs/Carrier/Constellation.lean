import Mathlib.Algebra.Group.Nat.Defs
import OfdmBurst.Carrier.Constellation

/-!
# Constellations that were built, and what they decide

Building a constellation from its tables checks that there are two to 256 points and that no pattern
has more bits than these call for. So the bits of a carrier are one to eight, and a pattern fits into
them. The standard tables are not built that way, but pass the same check.

A decision looks at every point once and keeps the first of the nearest. Which point that is follows
from comparisons with that point alone.

## Main results

* `Constellation.valid_of_ofTables`, `Constellation.valid_standard` — every constellation is valid
* `Constellation.Valid.bits_le`, `Constellation.Valid.valueAt_lt` — what that is good for
* `Constellation.nearest_eq` — what is enough for a point to be the decision
-/

namespace OfdmBurst

namespace Constellation

variable {ρ : Type}

/-- What building a constellation checks. -/
structure Valid (c : Constellation ρ) : Prop where
  /-- There are at least two points. -/
  two_le : 2 ≤ c.size
  /-- There are at most as many as a byte has patterns. -/
  size_le : c.size ≤ 256
  /-- No value has more bits than the number of points calls for. -/
  value_lt : ∀ v ∈ c.values, v.toNat < 2 ^ c.bits

theorem valid_of_ofTables {c : Constellation ρ} {points : List (Phasor ρ)} {values : List UInt8}
    (h : ofTables points values = .ok c) : c.Valid := by
  rw [ofTables] at h
  split at h
  next hlength =>
    split at h
    · cases h
    · split at h
      · cases h
      next hsize =>
        dsimp only at h
        split at h
        · cases h
        next hfind =>
          cases h
          refine ⟨by simp only [size]; omega, by simp only [size]; omega, fun v hv => ?_⟩
          have hfits := List.find?_eq_none.1 hfind v hv
          simp only [decide_eq_true_eq, ne_eq, Decidable.not_not] at hfits
          exact (Nat.div_eq_zero_iff_lt (Nat.two_pow_pos _)).1 hfits
  · cases h

/-- The standard tables pass the same check. -/
theorem valid_standard : bpsk.Valid ∧ qpsk.Valid ∧ psk8.Valid ∧ qam16.Valid :=
  ⟨⟨by decide, by decide, by decide +kernel⟩, ⟨by decide, by decide, by decide +kernel⟩,
    ⟨by decide, by decide, by decide +kernel⟩, ⟨by decide, by decide, by decide +kernel⟩⟩

namespace Valid

variable {c : Constellation ρ}

theorem bits_pos (h : c.Valid) : 0 < c.bits := by
  have htwo := h.two_le
  rw [bits, bitsFor, if_neg (by omega)]
  exact Nat.succ_pos _

/-- A pattern is at most a byte. -/
theorem bits_le (h : c.Valid) : c.bits ≤ 8 := by
  have htwo := h.two_le
  have hsize := h.size_le
  have hlog : (c.size - 1).log2 < 8 := (Nat.log2_lt (by omega)).2 (by omega)
  rw [bits, bitsFor, if_neg (by omega)]
  omega

theorem valueAt_lt (h : c.Valid) (i : Fin c.size) : (c.valueAt i).toNat < 2 ^ c.bits :=
  h.value_lt _ (List.get_mem _ _)

end Valid

/-! ### The nearest point

Nothing is asked of the scalars here, so what is nearer is what compares as nearer. -/

section Nearest

variable [Scalar ρ] {x : Phasor ρ}

/-- The best so far stays the best if no point is nearer. -/
theorem nearestFrom_of_none {points : List (Phasor ρ)} {distance : ρ}
    (h : ∀ p ∈ points, ¬ (x - p).power < distance) (i best : Nat) :
    nearestFrom x points i best distance = best := by
  induction points generalizing i with
  | nil => rfl
  | cons p rest ih =>
    rw [nearestFrom, if_neg (h p List.mem_cons_self)]
    exact ih (fun q hq => h q (List.mem_cons_of_mem _ hq)) (i + 1)

/-- A point that is nearer than all before it and than the best so far, with none behind it that is
nearer still. -/
theorem nearestFrom_append {before after : List (Phasor ρ)} {p : Phasor ρ} {distance : ρ}
    (hbefore : ∀ q ∈ before, (x - p).power < (x - q).power) (hp : (x - p).power < distance)
    (hafter : ∀ q ∈ after, ¬ (x - q).power < (x - p).power) (i best : Nat) :
    nearestFrom x (before ++ p :: after) i best distance = i + before.length := by
  induction before generalizing i best distance with
  | nil =>
    rw [List.nil_append, nearestFrom, if_pos hp]
    exact nearestFrom_of_none hafter (i + 1) i
  | cons q rest ih =>
    have hrest : ∀ q ∈ rest, (x - p).power < (x - q).power :=
      fun q hq => hbefore q (List.mem_cons_of_mem _ hq)
    rw [List.cons_append, nearestFrom, List.length_cons, Nat.add_comm rest.length, ← Nat.add_assoc]
    split
    · exact ih hrest (hbefore q List.mem_cons_self) (i + 1) i
    · exact ih hrest hp (i + 1) best

/-- **The decision is for a point that all before it are farther than**, and none behind it is
nearer than. -/
theorem nearest_eq {c : Constellation ρ} {i : Fin c.size}
    (hbefore : ∀ j < i, (x - c.pointAt i).power < (x - c.pointAt j).power)
    (hafter : ∀ j, i < j → ¬ (x - c.pointAt j).power < (x - c.pointAt i).power) :
    c.nearest x = i := by
  obtain ⟨points, values, hlength, hne⟩ := c
  obtain ⟨i, hi⟩ := i
  cases points with
  | nil => exact absurd rfl hne
  | cons p rest =>
    refine Fin.ext ?_
    show nearestFrom x rest 1 0 (x - p).power = i
    cases i with
    | zero =>
      refine nearestFrom_of_none (fun q hq => ?_) 1 0
      obtain ⟨k, hk, rfl⟩ := List.getElem_of_mem hq
      exact hafter ⟨k + 1, Nat.succ_lt_succ hk⟩ (Nat.succ_pos k)
    | succ i =>
      have hi' : i < rest.length := Nat.lt_of_succ_lt_succ hi
      have hsplit : rest = rest.take i ++ rest[i] :: rest.drop (i + 1) := by
        rw [← List.drop_eq_getElem_cons hi', List.take_append_drop]
      have hplace : 1 + (rest.take i).length = i + 1 := by
        rw [List.length_take_of_le (Nat.le_of_lt hi'), Nat.add_comm]
      have hfound : nearestFrom x (rest.take i ++ rest[i] :: rest.drop (i + 1)) 1 0 (x - p).power =
          1 + (rest.take i).length := by
        refine nearestFrom_append (fun q hq => ?_) (hbefore ⟨0, Nat.succ_pos _⟩ (Nat.succ_pos i))
          (fun q hq => ?_) 1 0
        · obtain ⟨k, hk, rfl⟩ := List.getElem_of_mem hq
          rw [List.length_take_of_le (Nat.le_of_lt hi')] at hk
          rw [List.getElem_take]
          exact hbefore ⟨k + 1, Nat.succ_lt_succ (Nat.lt_trans hk hi')⟩ (Nat.succ_lt_succ hk)
        · obtain ⟨k, hk, rfl⟩ := List.getElem_of_mem hq
          rw [List.length_drop] at hk
          rw [List.getElem_drop]
          exact hafter ⟨i + 1 + k + 1, Nat.succ_lt_succ (by omega)⟩ (Nat.succ_lt_succ (by omega))
      rw [← hsplit, hplace] at hfound
      exact hfound

end Nearest

end Constellation

end OfdmBurst
