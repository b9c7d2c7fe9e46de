import OfdmBurst.Block.FrameMapper
import OfdmBurst.Proofs.Carrier.Map
import OfdmBurst.Proofs.Carrier.Patterns

/-!
# The points of a mapper

A mapper does not search the values for a group of bits. It is built with a table of the points in
the order of their patterns, and a group is the place where to look. That is the point that the
group stands for, since only complete constellations are accepted, and of those the table has left
no pattern out.

## Main results

* `FrameMapper.exists_ofParts_iff` — what a mapper can be built from
* `FrameMapper.size_points`, `FrameMapper.getElem?_points` — what its table holds
* `FrameMapper.points_invert_values` — points, values and the table
-/

namespace OfdmBurst

theorem Constellation.tables_of_ofTables {ρ : Type} {points : List (Phasor ρ)}
    {values : List UInt8} {c : Constellation ρ} (h : ofTables points values = .ok c) :
    c.points = points ∧ c.values = values := by
  simp only [ofTables] at h
  repeat' split at h
  all_goals cases h
  exact ⟨rfl, rfl⟩

namespace FrameMapper

variable {m : FrameMapper}

/-! ### The table -/

theorem parts_of_ofParts {c : Constellation Float32} {map : CarrierMap} {fft : Nat}
    (h : ofParts c map fft = .ok m) : m.constellation = c ∧ m.map = map ∧ m.fft = fft := by
  rw [ofParts] at h
  split at h
  · cases h
  · split at h
    · cases h
      exact ⟨rfl, rfl, rfl⟩
    · cases h

/-- There is a mapper if the occupied carriers fit the symbol and every pattern has a point. -/
theorem exists_ofParts_iff {c : Constellation Float32} {map : CarrierMap} {fft : Nat} :
    (∃ m, ofParts c map fft = .ok m) ↔ map.occupied ≤ fft ∧ c.isComplete = true := by
  constructor
  · rintro ⟨m, hm⟩
    obtain ⟨rfl, rfl, rfl⟩ := parts_of_ofParts hm
    exact ⟨m.occupied_le, m.complete⟩
  · rintro ⟨hfits, hcomplete⟩
    rw [ofParts, dif_neg (Nat.not_lt.2 hfits), dif_pos hcomplete]
    exact ⟨_, rfl⟩

theorem size_points (m : FrameMapper) : m.points.size = 2 ^ m.constellation.bits := by
  rw [m.points_eq, List.size_toArray, Constellation.length_pointTable m.complete]

/-- **A group is the place of its point.** -/
theorem getElem?_points (m : FrameMapper) {group : Nat} (h : group < 2 ^ m.constellation.bits) :
    m.points[group]? = m.constellation.point? (UInt8.ofNat group) := by
  rw [m.points_eq, List.getElem?_toArray, Constellation.getElem?_pointTable m.complete h]

theorem point?_of_points {group : Nat} {x : Sample} (h : m.points[group]? = some x) :
    m.constellation.point? (UInt8.ofNat group) = some x := by
  obtain ⟨hlt, -⟩ := Array.getElem?_eq_some_iff.1 h
  rw [size_points] at hlt
  rw [← m.getElem?_points hlt, h]

/-- A complete constellation has a point for every group. -/
theorem point?_isSome {group : Nat} (h : group < 2 ^ m.constellation.bits) :
    (m.constellation.point? (UInt8.ofNat group)).isSome :=
  Constellation.point?_isSome m.complete h

/-! ### Points, values and the table -/

/-- **Complete tables correspond, and the mapper's table inverts them.** The bits of a constellation
are the least that suffice for its points. It is complete if its values are all the patterns, each
of them once. Then a mapper can be built for it on every map that fits, and its table has an entry
for every pattern: the point at the one place where that pattern is the value. -/
theorem points_invert_values {points : List Sample} {values : List UInt8}
    {c : Constellation Float32} (h : Constellation.ofTables points values = .ok c) :
    (IsLeast {n | points.length ≤ 2 ^ n} c.bits ∧ 1 ≤ c.bits ∧ c.bits ≤ 8 ∧
      ∀ v ∈ values, v.toNat < 2 ^ c.bits) ∧
    (c.isComplete = true ↔
      points.length = 2 ^ c.bits ∧ (values.map UInt8.toNat).Perm (List.range (2 ^ c.bits))) ∧
    (c.isComplete = true →
      ∀ (i : Nat) v, values[i]? = some v → ∃ x, points[i]? = some x ∧ c.point? v = some x) ∧
    ∀ map fft, ((∃ m, ofParts c map fft = .ok m) ↔ map.occupied ≤ fft ∧ c.isComplete = true) ∧
      ∀ m, ofParts c map fft = .ok m → m.points.size = 2 ^ c.bits ∧
        ∀ v < 2 ^ c.bits, ∃ (i : Nat) (x : Sample),
          (∀ j : Nat, values[j]? = some (UInt8.ofNat v) ↔ j = i) ∧
          points[i]? = some x ∧ m.points[v]? = some x := by
  have hvalid := Constellation.valid_of_ofTables h
  obtain ⟨rfl, rfl⟩ := Constellation.tables_of_ofTables h
  have hback : c.isComplete = true →
      ∀ (i : Nat) v, c.values[i]? = some v → ∃ x, c.points[i]? = some x ∧ c.point? v = some x := by
    intro hcomplete i v hv
    have hi := (List.getElem?_eq_some_iff.1 hv).1
    rw [c.length_eq] at hi
    refine ⟨c.points[i], List.getElem?_eq_getElem hi, ?_⟩
    rw [hvalid.point?_eq hcomplete hv, List.getElem?_eq_getElem hi]
  refine ⟨⟨c.isLeast_bits, hvalid.bits_pos, hvalid.bits_le, hvalid.value_lt⟩,
    hvalid.isComplete_iff, hback, fun map fft => ⟨exists_ofParts_iff, fun m hm => ?_⟩⟩
  obtain ⟨rfl, -, -⟩ := parts_of_ofParts hm
  refine ⟨m.size_points, fun v hv => ?_⟩
  have hmem := Constellation.isComplete_iff_forall.1 m.complete v hv
  obtain ⟨i, hi⟩ := List.mem_iff_getElem?.1 hmem
  obtain ⟨x, hx, hpoint⟩ := hback m.complete i _ hi
  refine ⟨i, x, fun j => ⟨fun hj => ?_, fun hj => hj ▸ hi⟩, hx, ?_⟩
  · -- no value occurs twice
    have hj' := (List.getElem?_eq_some_iff.1 hj).1
    exact (List.getElem?_inj hj' (hvalid.nodup_values m.complete)).1 (hj.trans hi.symm)
  · rw [m.getElem?_points hv, hpoint]

/-- Four points on the axes, their values in no order. -/
def shuffled : Constellation Float32 where
  points := [⟨1, 0⟩, ⟨0, 1⟩, ⟨-1, 0⟩, ⟨0, -1⟩]
  values := [2, 0, 3, 1]
  length_eq := rfl
  points_ne := List.cons_ne_nil _ _

/-- Entry two of the table is the point with value two, which is the first. -/
theorem points_invert_values_shuffled :
    Constellation.ofTables shuffled.points shuffled.values = .ok shuffled ∧
      shuffled.isComplete = true ∧ ∃ m, ofParts shuffled soleCarrier 1 = .ok m ∧
        m.points.size = 4 ∧ m.points[2]? = some ⟨1, 0⟩ := by
  have htables : Constellation.ofTables shuffled.points shuffled.values = .ok shuffled := rfl
  have hcomplete : shuffled.isComplete = true := by decide
  obtain ⟨-, -, -, hmappers⟩ := points_invert_values htables
  obtain ⟨hbuilt, htable⟩ := hmappers soleCarrier 1
  obtain ⟨m, hm⟩ := hbuilt.2 ⟨Nat.le_refl 1, hcomplete⟩
  obtain ⟨hsize, hentry⟩ := htable m hm
  obtain ⟨i, x, honly, hx, hpoint⟩ := hentry 2 (by decide)
  obtain rfl := (honly 0).1 rfl
  cases hx
  exact ⟨htables, hcomplete, m, hm, hsize, hpoint⟩

end FrameMapper

end OfdmBurst
