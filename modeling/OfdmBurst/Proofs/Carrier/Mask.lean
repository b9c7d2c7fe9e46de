import OfdmBurst.Carrier.Map

/-!
# The bits of a mask

A mask names the places of its set bits. Place by place, that is a statement about one bit, and the
places come in increasing order, so the bits say everything about the list of places. What is true
of a mask is therefore shown for one place at a time.

The masks of this library are runs of equal bits: a full digit is four set bits, and a partly filled
one begins or ends with its set bits.

## Main results

* `CarrierMap.mem_setPlaces`, `CarrierMap.pairwise_setPlaces` — the places of the set bits
* `CarrierMap.mem_setPlaces_append`, `CarrierMap.mem_setPlaces_replicate` — runs of bits
* `CarrierMap.maskBits_full`, `CarrierMap.maskBits_left`, `CarrierMap.maskBits_right` — digits as
  runs of bits
-/

namespace OfdmBurst

namespace CarrierMap

/-- A place is named if its bit is set. -/
theorem mem_setPlaces {bits : List Bool} {place k : Nat} :
    k ∈ setPlaces place bits ↔ place ≤ k ∧ bits[k - place]? = some true := by
  induction bits generalizing place with
  | nil => simp [setPlaces]
  | cons bit rest ih =>
    have hlater : k ∈ setPlaces (place + 1) rest ↔
        place < k ∧ (bit :: rest)[k - place]? = some true := by
      rw [ih]
      refine and_congr_right fun hlt => ?_
      rw [show k - place = k - (place + 1) + 1 by omega, List.getElem?_cons_succ]
    have hfirst : k = place → (bit :: rest)[k - place]? = some bit := by
      rintro rfl
      rw [Nat.sub_self, List.getElem?_cons_zero]
    cases bit with
    | false =>
      rw [setPlaces, hlater]
      refine ⟨fun h => ⟨Nat.le_of_lt h.1, h.2⟩, fun h => ⟨?_, h.2⟩⟩
      refine Nat.lt_of_le_of_ne h.1 fun heq => ?_
      rw [hfirst heq.symm] at h
      exact Bool.noConfusion (Option.some.inj h.2)
    | true =>
      rw [setPlaces, List.mem_cons, hlater]
      constructor
      · rintro (heq | h)
        · exact ⟨Nat.le_of_eq heq.symm, hfirst heq⟩
        · exact ⟨Nat.le_of_lt h.1, h.2⟩
      · intro h
        rcases Nat.eq_or_lt_of_le h.1 with heq | hlt
        · exact .inl heq.symm
        · exact .inr ⟨hlt, h.2⟩

/-- Places are named in increasing order. -/
theorem pairwise_setPlaces (place : Nat) (bits : List Bool) :
    (setPlaces place bits).Pairwise (· < ·) := by
  induction bits generalizing place with
  | nil => exact .nil
  | cons bit rest ih =>
    cases bit with
    | false => exact ih (place + 1)
    | true =>
      rw [setPlaces, List.pairwise_cons]
      exact ⟨fun k hk => (mem_setPlaces.1 hk).1, ih (place + 1)⟩

/-- What is cut off a mask takes its places with it. -/
theorem mem_setPlaces_take {bits : List Bool} {k n : Nat} :
    k ∈ setPlaces 0 (bits.take n) ↔ k < n ∧ k ∈ setPlaces 0 bits := by
  rw [mem_setPlaces, mem_setPlaces, List.getElem?_take, Nat.sub_zero]
  by_cases h : k < n <;> simp [h]

/-! ### Runs of bits -/

theorem mem_setPlaces_append {xs ys : List Bool} {k : Nat} :
    k ∈ setPlaces 0 (xs ++ ys) ↔
      k ∈ setPlaces 0 xs ∨ xs.length ≤ k ∧ k - xs.length ∈ setPlaces 0 ys := by
  simp only [mem_setPlaces, Nat.zero_le, true_and, Nat.sub_zero]
  by_cases h : k < xs.length
  · rw [List.getElem?_append_left h]
    exact ⟨.inl, fun hk => hk.resolve_right fun hlater => Nat.not_le.2 h hlater.1⟩
  · have hle := Nat.le_of_not_lt h
    rw [List.getElem?_append_right hle, List.getElem?_eq_none hle]
    simp [hle]

theorem mem_setPlaces_replicate {n k : Nat} {bit : Bool} :
    k ∈ setPlaces 0 (List.replicate n bit) ↔ bit = true ∧ k < n := by
  rw [mem_setPlaces, List.getElem?_replicate, Nat.sub_zero]
  by_cases h : k < n <;> simp [h]

theorem maskBits_append (xs ys : List Nat) : maskBits (xs ++ ys) = maskBits xs ++ maskBits ys :=
  List.flatMap_append

/-- Full digits. -/
theorem maskBits_full (n : Nat) :
    maskBits (List.replicate n 0xF) = List.replicate (4 * n) true := by
  induction n with
  | zero => rfl
  | succ n ih =>
    rw [List.replicate_succ, maskBits, List.flatMap_cons, ← maskBits, ih, Nat.mul_succ,
      Nat.add_comm, ← List.replicate_append_replicate]
    rfl

/-- A digit that ends with its set bits. -/
theorem maskBits_left {n : Nat} (h : n ≤ 4) :
    maskBits [Nat.pow 2 n - 1] = List.replicate (4 - n) false ++ List.replicate n true := by
  obtain rfl | rfl | rfl | rfl | rfl : n = 0 ∨ n = 1 ∨ n = 2 ∨ n = 3 ∨ n = 4 := by omega
  all_goals rfl

/-- A digit that begins with its set bits. -/
theorem maskBits_right {n : Nat} (h : n ≤ 4) :
    maskBits [0xF ^^^ (Nat.pow 2 n - 1)] =
      List.replicate (4 - n) true ++ List.replicate n false := by
  obtain rfl | rfl | rfl | rfl | rfl : n = 0 ∨ n = 1 ∨ n = 2 ∨ n = 3 ∨ n = 4 := by omega
  all_goals rfl

end CarrierMap

end OfdmBurst
