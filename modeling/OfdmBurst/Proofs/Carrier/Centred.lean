import Mathlib.Data.List.Sort
import OfdmBurst.Proofs.Carrier.Map
import OfdmBurst.Proofs.Carrier.Mask

/-!
# The carriers of the centred map

The centred map is meant to use every carrier but the two in the middle. How its mask comes about
decides whether it does. Full digits are added in pairs, and up to seven carriers that are then
missing to the width are covered by two partly filled digits: the left one ends with its set bits,
the right one begins with them.

Two things do not fit together. The left digit begins with `4 - left` bits that stand for no
carrier, but the mask is moved down by `left`. The right digit has its first `4 - right` bits set,
where `right` carriers are missing. Both are right for two carriers on a side, and for no other
number.

So the mask as it lands on the carriers is off by `4 - 2 * left` places, which is what `slip` says:
it may be too far right, so that the first carriers stay free, or too far left, so that the last
ones do. It is in place if no carrier was missing to full digits, or if three or four were.

## Main definitions

* `CarrierMap.middle` — the carrier behind which the middle of the width lies
* `CarrierMap.slip` — how far the mask is off
* `CarrierMap.allBut` — a run of carriers without a pair of them

## Main results

* `CarrierMap.mem_framed` — the set bits of the centred mask
* `CarrierMap.centred_spans` — the carriers of the centred map, for every width
* `CarrierMap.centred_misses_middle` — a width for which it is not the middle that stays free
-/

namespace OfdmBurst

namespace CarrierMap

/-- The carriers from `first` to before `stop`, without `free` and the one behind it. -/
def allBut (first stop free : Nat) : List Nat :=
  (List.range stop).filter fun k => first ≤ k && k != free && k != free + 1

/-- The first of the two carriers in the middle: behind the left half of what the width has more
than sixteen carriers, and seven more. -/
def middle (occupied : Nat) : Nat := (occupied - 16 + 1) / 2 + 7

/-- The number of carriers that full digits do not cover. -/
def missing (occupied : Nat) : Nat := (occupied - 16) % 8

/-- How many places the centred mask lies too far to the right. -/
def slip (occupied : Nat) : Int :=
  if missing occupied = 0 then 0 else 4 - 2 * ((missing occupied + 1) / 2 : Nat)

/-- Where the set bits of the centred mask end on the carriers. -/
def reach (occupied : Nat) : Nat := min occupied (occupied + 8 - 2 * missing occupied)

theorem mem_allBut {first stop free k : Nat} :
    k ∈ allBut first stop free ↔ first ≤ k ∧ k < stop ∧ k ≠ free ∧ k ≠ free + 1 := by
  simp [allBut, and_assoc, and_comm, and_left_comm]

theorem pairwise_allBut (first stop free : Nat) : (allBut first stop free).Pairwise (· < ·) :=
  List.pairwise_lt_range.filter _

/-- The pair that is left out parts the run in two. -/
theorem length_allBut {first stop free : Nat} (hfirst : first ≤ free) (hstop : free + 2 ≤ stop) :
    (allBut first stop free).length + first + 2 = stop := by
  have hparts : allBut first stop free =
      List.range' first (free - first) ++ List.range' (free + 2) (stop - (free + 2)) := by
    refine (pairwise_allBut first stop free).eq_of_mem_iff ?_ fun k => ?_
    · refine List.pairwise_append.2 ⟨List.pairwise_lt_range', List.pairwise_lt_range', ?_⟩
      intro a ha b hb
      rw [List.mem_range'_1] at ha hb
      omega
    · rw [mem_allBut, List.mem_append, List.mem_range'_1, List.mem_range'_1]
      omega
  rw [hparts, List.length_append, List.length_range', List.length_range']
  omega

/-! ### The bits of the mask -/

/-- The set bits of the digits around the middle. -/
theorem mem_core {sides k : Nat} :
    k ∈ setPlaces 0 (maskBits
        (List.replicate sides 0xF ++ [0xF, 0xE, 0x7, 0xF] ++ List.replicate sides 0xF)) ↔
      k < 8 * sides + 16 ∧ k ≠ 4 * sides + 7 ∧ k ≠ 4 * sides + 8 := by
  have hmiddle : maskBits [0xF, 0xE, 0x7, 0xF] =
      List.replicate 7 true ++ List.replicate 2 false ++ List.replicate 7 true := rfl
  simp only [maskBits_append, maskBits_full, hmiddle, mem_setPlaces_append, mem_setPlaces_replicate,
    List.length_append, List.length_replicate, true_and, Bool.false_eq_true, false_and, and_false,
    or_false]
  constructor
  · rintro ((hk | ⟨hk, hk' | hk'⟩) | hk) <;> omega
  · omega

/-- A partly filled digit on each side: the left one ends with its set bits, the right one begins
with them. -/
theorem mem_framed {sides left right k : Nat} (hleft : left ≤ 4) (hright : right ≤ 4) :
    k ∈ setPlaces 0 (maskBits ([Nat.pow 2 left - 1] ++
        (List.replicate sides 0xF ++ [0xF, 0xE, 0x7, 0xF] ++ List.replicate sides 0xF) ++
        [0xF ^^^ (Nat.pow 2 right - 1)])) ↔
      4 ≤ k + left ∧ k + right < 8 * sides + 24 ∧ k ≠ 4 * sides + 11 ∧ k ≠ 4 * sides + 12 := by
  have hcore : (maskBits (List.replicate sides 0xF ++ [0xF, 0xE, 0x7, 0xF] ++
      List.replicate sides 0xF)).length = 8 * sides + 16 := by
    simp only [maskBits_append, maskBits_full, List.length_append, List.length_replicate]
    show 4 * sides + 16 + 4 * sides = _
    omega
  rw [maskBits_append, maskBits_append [Nat.pow 2 left - 1], maskBits_left hleft,
    maskBits_right hright]
  simp only [mem_setPlaces_append, mem_core, mem_setPlaces_replicate, List.length_append, hcore,
    List.length_replicate, true_and, Bool.false_eq_true, false_and, and_false, or_false, false_or]
  constructor
  · rintro ((hk | hk) | hk) <;> omega
  · omega

/-! ### The carriers of the map -/

/-- A carrier is used if its bit is set, and not cut off. -/
theorem mem_centredCarriers_iff {occupied k : Nat} :
    k ∈ centredCarriers occupied ↔
      k < occupied ∧
        k < 4 * (occupied / 4 + (centredDigits occupied).2) - (centredDigits occupied).2 ∧
        k + (centredDigits occupied).2 ∈ setPlaces 0 (maskBits (centredDigits occupied).1) := by
  simp only [centredCarriers, List.mem_filter, List.mem_map, mem_setPlaces_take, decide_eq_true_eq]
  constructor
  · rintro ⟨⟨place, ⟨⟨hcut, hplace⟩, hle⟩, rfl⟩, hlt⟩
    rw [Nat.sub_add_cancel hle]
    exact ⟨hlt, by omega, hplace⟩
  · rintro ⟨hlt, hcut, hplace⟩
    exact ⟨⟨k + (centredDigits occupied).2, ⟨⟨by omega, hplace⟩, Nat.le_add_left _ _⟩,
      Nat.add_sub_cancel _ _⟩, hlt⟩

theorem mem_centredCarriers {occupied k : Nat} (h : 16 ≤ occupied) :
    k ∈ centredCarriers occupied ↔ k ∈
      allBut (slip occupied).toNat (reach occupied) (middle occupied + slip occupied).toNat := by
  obtain ⟨sides, part, rfl, hpart⟩ : ∃ sides part, occupied = 16 + 8 * sides + part ∧ part < 8 :=
    ⟨(occupied - 16) / 8, (occupied - 16) % 8, by omega, by omega⟩
  have hsides : (16 + 8 * sides + part - 16) / 8 = sides := by omega
  have hmissing : missing (16 + 8 * sides + part) = part := by rw [missing]; omega
  rw [mem_centredCarriers_iff, mem_allBut, slip, reach, middle, hmissing, centredDigits, ← missing,
    hmissing, hsides]
  by_cases hnone : part = 0
  · subst hnone
    simp only [↓reduceIte, mem_core]
    omega
  · obtain ⟨left, right, rfl, hhalves⟩ : ∃ left right, part = left + right ∧
        (left = right ∨ left = right + 1) := ⟨(part + 1) / 2, part / 2, by omega, by omega⟩
    have hleft : (left + right + 1) / 2 = left := by omega
    have hmiddle : (16 + 8 * sides + (left + right) - 16 + 1) / 2 = 4 * sides + left := by omega
    have hfirst : (4 - 2 * (left : Int)).toNat = 4 - 2 * left := by omega
    have hfree : (((4 * sides + left + 7 : Nat) : Int) + (4 - 2 * (left : Int))).toNat =
        4 * sides + 11 - left := by omega
    simp only [hnone, ↓reduceIte, hleft, hmiddle, hfirst, hfree, Nat.add_sub_cancel_left]
    rw [mem_framed (by omega) (by omega), Nat.lt_min]
    omega

theorem centredCarriers_eq {occupied : Nat} (h : 16 ≤ occupied) :
    centredCarriers occupied =
      allBut (slip occupied).toNat (reach occupied) (middle occupied + slip occupied).toNat :=
  (pairwise_centredCarriers occupied).eq_of_mem_iff (pairwise_allBut _ _ _)
    fun _ => mem_centredCarriers h

/-- Where the mask lies on the carriers. The pair that it leaves out is among those it reaches. If
it is off, carriers stay free in front or behind. -/
theorem slip_spec {occupied : Nat} (h : 16 ≤ occupied) :
    (slip occupied).toNat ≤ (middle occupied + slip occupied).toNat ∧
      (middle occupied + slip occupied).toNat + 2 < reach occupied ∧ reach occupied ≤ occupied ∧
      (missing occupied ∈ [0, 3, 4] → slip occupied = 0 ∧ reach occupied = occupied) ∧
      (missing occupied ∉ [0, 3, 4] →
        0 < slip occupied ∨ reach occupied < occupied) := by
  have hpart : missing occupied < 8 := Nat.mod_lt _ (by decide)
  have hwhole : missing occupied ≤ occupied - 16 := Nat.mod_le _ _
  simp only [slip, reach, middle, List.mem_cons, List.not_mem_nil, or_false]
  split <;> omega

theorem exists_centred {occupied : Nat} (h : 16 ≤ occupied) :
    ∃ m, centred occupied = .ok m ∧ m.occupied = occupied ∧
      m.carriers =
        allBut (slip occupied).toNat (reach occupied) (middle occupied + slip occupied).toNat := by
  obtain ⟨hfirst, hstop, hreach, -, -⟩ := slip_spec h
  have hsize := length_allBut hfirst (Nat.le_of_lt hstop)
  rw [← centredCarriers_eq h] at hsize ⊢
  have hbelow : ∀ k ∈ centredCarriers occupied, k < occupied := fun k hk =>
    (mem_centredCarriers_iff.1 hk).1
  have hne : centredCarriers occupied ≠ [] := by
    refine List.ne_nil_of_length_pos ?_
    omega
  rw [centred_eq h]
  exact exists_ofCarriers (by omega) hbelow hne

/-- **The carriers of the centred map.** From sixteen carriers on there is a map. It uses the
carriers that the mask reaches but for one pair of neighbours. These are all carriers but the pair
in the middle exactly if full digits leave no carrier, three or four of them over, and with any
other width there are fewer data carriers than that. -/
theorem centred_spans {occupied : Nat} (h : 16 ≤ occupied) :
    ∃ m, centred occupied = .ok m ∧ m.occupied = occupied ∧
      m.carriers =
        allBut (slip occupied).toNat (reach occupied) (middle occupied + slip occupied).toNat ∧
      m.size + (slip occupied).toNat + 2 = reach occupied ∧
      (m.carriers = allBut 0 occupied (middle occupied) ↔ missing occupied ∈ [0, 3, 4]) ∧
      (missing occupied ∈ [0, 3, 4] → m.size = occupied - 2) ∧
      (missing occupied ∉ [0, 3, 4] → m.size < occupied - 2) := by
  obtain ⟨m, hm, hoccupied, hcarriers⟩ := exists_centred h
  obtain ⟨hfirst, hstop, hreach, hfits, hoff⟩ := slip_spec h
  have hsize : m.size + (slip occupied).toNat + 2 = reach occupied := by
    rw [size, hcarriers]
    exact length_allBut hfirst (Nat.le_of_lt hstop)
  have hfew : missing occupied ∉ [0, 3, 4] → m.size < occupied - 2 := by
    intro hmissing
    rcases hoff hmissing with hright | hleft <;> omega
  have hmiddle : middle occupied + 2 ≤ occupied := by
    rw [middle]
    omega
  refine ⟨m, hm, hoccupied, hcarriers, hsize, ⟨fun heq => ?_, fun hmissing => ?_⟩,
    fun hmissing => ?_, hfew⟩
  · -- too few carriers are not all but two
    by_contra hmissing
    have hall := length_allBut (Nat.zero_le (middle occupied)) hmiddle
    have hless := hfew hmissing
    rw [size, heq] at hless
    omega
  · obtain ⟨hslip, hall⟩ := hfits hmissing
    rw [hcarriers, hslip, hall]
    rfl
  · obtain ⟨hslip, hall⟩ := hfits hmissing
    omega

/-- Seven carriers are missing to full digits, and the mask lies four places too far to the left:
the last six carriers stay free. -/
theorem centred_spans_twentyThree :
    16 ≤ 23 ∧ ∃ m, centred 23 = .ok m ∧ m.carriers = allBut 0 17 7 ∧ m.size = 15 := by
  have hwide : 16 ≤ 23 := by decide
  obtain ⟨m, hm, -, hcarriers, hsize, -⟩ := centred_spans hwide
  have hreach : reach 23 = 17 := by decide
  have hslip : (slip 23).toNat = 0 := by decide
  rw [hreach, hslip] at hsize
  exact ⟨hwide, m, hm, hcarriers, by omega⟩

/-- One carrier is missing to full digits, and the mask lies two places too far to the right: it is
not the pair in the middle that stays free, and the first two carriers do as well. -/
theorem centred_misses_middle :
    ∃ m, centred 17 = .ok m ∧ m.carriers = [2, 3, 4, 5, 6, 7, 8, 9, 12, 13, 14, 15, 16] ∧
      allBut 0 17 (middle 17) = [0, 1, 2, 3, 4, 5, 6, 7, 10, 11, 12, 13, 14, 15, 16] ∧
      m.carriers ≠ allBut 0 17 (middle 17) ∧ m.size ≠ 17 - 2 :=
  ⟨⟨[2, 3, 4, 5, 6, 7, 8, 9, 12, 13, 14, 15, 16], 17, by decide, by decide⟩, rfl, rfl, rfl,
    by decide, by decide⟩

end CarrierMap

end OfdmBurst
