import Mathlib.Algebra.Group.Nat.Defs
import Mathlib.Data.List.Nodup
import Mathlib.Data.List.Perm.Subperm
import Mathlib.Order.Bounds.Basic
import OfdmBurst.Proofs.Carrier.Constellation

/-!
# The patterns of a constellation

A constellation is complete if every pattern of its bits has a point. That is checked from the
patterns: each of them is looked for among the values. It is used the other way round, from the
points: each of them is the one that its value stands for, and no other point has that value.

The two say the same because there is no room for anything else. A constellation has at most as many
points as its bits have patterns, so if every pattern occurs, each of them occurs once. From then on
places and patterns correspond, and a list of the points in the order of their patterns loses none
of them.

## Main results

* `Constellation.bitsFor_le_iff` — the least number of bits
* `Constellation.Valid.isComplete_iff` — the values of a complete constellation
* `Constellation.Valid.point?_eq` — from a value to its point
* `Constellation.getElem?_pointTable` — a pattern is the place of its point
-/

namespace OfdmBurst

/-- If every element has an image, places do not shift. -/
theorem getElem?_filterMap_of_isSome {α β : Type} {f : α → Option β} {xs : List α}
    (h : ∀ x ∈ xs, (f x).isSome) (i : Nat) : (xs.filterMap f)[i]? = xs[i]?.bind f := by
  induction xs generalizing i with
  | nil => rfl
  | cons x rest ih =>
    obtain ⟨hx, hrest⟩ := List.forall_mem_cons.1 h
    obtain ⟨y, hy⟩ := Option.isSome_iff_exists.1 hx
    rw [List.filterMap_cons_some hy]
    cases i with
    | zero => exact hy.symm
    | succ i => exact ih hrest i

namespace Constellation

variable {ρ : Type} {c : Constellation ρ}

/-- **The least number of bits** whose patterns suffice. -/
theorem bitsFor_le_iff {points n : Nat} : bitsFor points ≤ n ↔ points ≤ 2 ^ n := by
  have hpos := Nat.two_pow_pos n
  rw [bitsFor]
  split
  · exact iff_of_true (Nat.zero_le n) (by omega)
  next hpoints =>
    have hlog : (points - 1).log2 < n ↔ points - 1 < 2 ^ n := Nat.log2_lt (by omega)
    omega

theorem isLeast_bits (c : Constellation ρ) : IsLeast {n | c.size ≤ 2 ^ n} c.bits :=
  ⟨bitsFor_le_iff.1 (Nat.le_refl _), fun _ hn => bitsFor_le_iff.2 hn⟩

/-! ### Complete constellations -/

theorem isComplete_iff_forall :
    c.isComplete = true ↔ ∀ v < 2 ^ c.bits, UInt8.ofNat v ∈ c.values := by
  simp [isComplete]

namespace Valid

theorem two_pow_bits_le (h : c.Valid) : 2 ^ c.bits ≤ 256 :=
  Nat.pow_le_pow_right (n := 2) (by decide) h.bits_le

theorem toNat_ofNat (h : c.Valid) {v : Nat} (hv : v < 2 ^ c.bits) : (UInt8.ofNat v).toNat = v := by
  have hle := h.two_pow_bits_le
  rw [UInt8.toNat_ofNat']
  omega

theorem mem_values_iff (h : c.Valid) {v : Nat} (hv : v < 2 ^ c.bits) :
    UInt8.ofNat v ∈ c.values ↔ v ∈ c.values.map UInt8.toNat := by
  rw [List.mem_map]
  constructor
  · intro hmem
    exact ⟨_, hmem, h.toNat_ofNat hv⟩
  · rintro ⟨value, hmem, rfl⟩
    rwa [UInt8.ofNat_toNat]

/-- **The values of a complete constellation** are all patterns, each of them once. -/
theorem isComplete_iff (h : c.Valid) :
    c.isComplete = true ↔
      c.size = 2 ^ c.bits ∧ (c.values.map UInt8.toNat).Perm (List.range (2 ^ c.bits)) := by
  have hsize : (c.values.map UInt8.toNat).length = c.size := by
    rw [List.length_map, c.length_eq, size]
  rw [isComplete_iff_forall]
  constructor
  · intro hall
    have hsubset : List.range (2 ^ c.bits) ⊆ c.values.map UInt8.toNat := fun v hv => by
      have hlt := List.mem_range.1 hv
      exact (h.mem_values_iff hlt).1 (hall v hlt)
    -- as many patterns as there are places leave no room for a value that occurs twice
    have hroom : (c.values.map UInt8.toNat).length ≤ (List.range (2 ^ c.bits)).length := by
      rw [hsize, List.length_range]
      exact c.isLeast_bits.1
    have hperm := (List.nodup_range.subperm hsubset).perm_of_length_le hroom
    refine ⟨?_, hperm.symm⟩
    rw [← hsize, ← hperm.length_eq, List.length_range]
  · rintro ⟨-, hperm⟩ v hv
    exact (h.mem_values_iff hv).2 (hperm.mem_iff.2 (List.mem_range.2 hv))

theorem nodup_values (h : c.Valid) (hcomplete : c.isComplete = true) : c.values.Nodup :=
  List.Nodup.of_map _ ((h.isComplete_iff.1 hcomplete).2.nodup_iff.2 List.nodup_range)

/-- **A value leads back to its point.** -/
theorem point?_eq (h : c.Valid) (hcomplete : c.isComplete = true) {i : Nat} {v : UInt8}
    (hv : c.values[i]? = some v) : c.point? v = c.points[i]? := by
  have hnodup := h.nodup_values hcomplete
  obtain ⟨hi, rfl⟩ := List.getElem?_eq_some_iff.1 hv
  have hfind : c.values.findIdx? (· == c.values[i]) = some i := by
    refine List.findIdx?_eq_some_iff_getElem.2 ⟨hi, beq_self_eq_true _, fun j hj heq => ?_⟩
    have hsame := (hnodup.getElem_inj_iff).1 (beq_iff_eq.1 heq)
    omega
  rw [point?, hfind, Option.bind_some]

end Valid

/-! ### The points in the order of their patterns -/

/-- Every pattern of a complete constellation has a point. -/
theorem point?_isSome (hcomplete : c.isComplete = true) {v : Nat} (hv : v < 2 ^ c.bits) :
    (c.point? (UInt8.ofNat v)).isSome := by
  have hmem := isComplete_iff_forall.1 hcomplete v hv
  have hfind : (c.values.findIdx? (· == UInt8.ofNat v)).isSome := by
    rw [List.findIdx?_isSome, List.any_beq']
    exact List.contains_iff_mem.2 hmem
  obtain ⟨i, hi⟩ := Option.isSome_iff_exists.1 hfind
  have hlt := (List.findIdx?_eq_some_iff_getElem.1 hi).1
  rw [c.length_eq] at hlt
  rw [point?, hi, Option.bind_some, List.getElem?_eq_getElem hlt, Option.isSome_some]

theorem point?_isSome_of_mem_range (hcomplete : c.isComplete = true) :
    ∀ v ∈ List.range (2 ^ c.bits), (c.point? (UInt8.ofNat v)).isSome := fun _ hv =>
  point?_isSome hcomplete (List.mem_range.1 hv)

theorem pointTable_eq (c : Constellation ρ) :
    c.pointTable = (List.range (2 ^ c.bits)).filterMap fun v => c.point? (UInt8.ofNat v) := rfl

theorem length_pointTable (hcomplete : c.isComplete = true) : c.pointTable.length = 2 ^ c.bits := by
  rw [pointTable_eq, List.filterMap_length_eq_length.2 (point?_isSome_of_mem_range hcomplete),
    List.length_range]

/-- **A pattern is the place of its point.** -/
theorem getElem?_pointTable (hcomplete : c.isComplete = true) {v : Nat} (hv : v < 2 ^ c.bits) :
    c.pointTable[v]? = c.point? (UInt8.ofNat v) := by
  rw [pointTable_eq, getElem?_filterMap_of_isSome (point?_isSome_of_mem_range hcomplete),
    List.getElem?_range hv, Option.bind_some]

end Constellation

/-! ### Bytes in one place -/

/-- A point for every byte, all of them in one place, and sixteen first. Of what is received nothing is
left then, and every carrier is decided for sixteen. -/
def onePlace : Constellation Float32 where
  points := List.replicate 256 Phasor.one
  values := (List.range 256).map fun i => UInt8.ofNat (i + 16)
  length_eq := by rw [List.length_map, List.length_range, List.length_replicate]
  points_ne := List.cons_ne_nil _ _

theorem bits_onePlace : onePlace.bits = 8 := by
  rw [Constellation.bits, Constellation.size, onePlace, List.length_replicate]
  decide

theorem isComplete_onePlace : onePlace.isComplete = true := by
  refine Constellation.isComplete_iff_forall.2 fun v hv => ?_
  rw [bits_onePlace] at hv
  refine List.mem_map.2 ⟨(v + 240) % 256, List.mem_range.2 (Nat.mod_lt _ (by decide)), ?_⟩
  refine UInt8.toNat_inj.1 ?_
  rw [UInt8.toNat_ofNat', UInt8.toNat_ofNat']
  omega

theorem pointTable_onePlace : onePlace.pointTable = List.replicate 256 Phasor.one := by
  refine List.eq_replicate_iff.2 ⟨?_, fun x hx => ?_⟩
  · rw [Constellation.length_pointTable isComplete_onePlace, bits_onePlace]
    decide
  · obtain ⟨v, -, hpoint⟩ := List.mem_filterMap.1 hx
    obtain ⟨i, -, hi⟩ := Option.bind_eq_some_iff.1 hpoint
    exact List.eq_of_mem_replicate (List.mem_of_getElem? hi)

end OfdmBurst
