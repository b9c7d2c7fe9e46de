import Mathlib.Data.List.Perm.Subperm
import OfdmBurst.Proofs.Carrier.Mask
import OfdmBurst.Proofs.Fault

/-!
# Maps that were built

Every way to build a carrier map ends in the same check of the list of its carriers, so what that
check says holds of every map that was built: there are not more data carriers than occupied ones,
and every one of them is occupied.

Whether a carrier is listed twice is not checked. The places of a mask come in increasing order, so
a mask lists none twice, and neither does the centred map. A list that is handed in is kept as it
is.

## Main definitions

* `soleCarrier` — the least map there is

## Main results

* `CarrierMap.ofCarriers_eq_ok_iff` — what is checked, and what is built
* `CarrierMap.size_le_of_ofCarriers`, `size_le_of_centred` — no more carriers than are occupied
* `CarrierMap.pairwise_of_ofMask`, `pairwise_of_centred` — carriers in increasing order
-/

namespace OfdmBurst

namespace CarrierMap

variable {m : CarrierMap} {occupied : Nat}

/-- **What is checked of a list of carriers**, and what becomes of it. -/
theorem ofCarriers_eq_ok_iff {carriers : List Nat} :
    ofCarriers carriers occupied = .ok m ↔
      carriers.length ≤ occupied ∧ (∀ k ∈ carriers, k < occupied) ∧ carriers ≠ [] ∧
        m.carriers = carriers ∧ m.occupied = occupied := by
  constructor
  · intro h
    rw [ofCarriers] at h
    split at h
    · cases h
    next hlength =>
      split at h
      · cases h
      · split at h
        · cases h
        next hne =>
          have hcarriers : m.carriers = carriers := by
            cases h
            rfl
          have hoccupied : m.occupied = occupied := by
            cases h
            rfl
          subst hcarriers hoccupied
          exact ⟨Nat.le_of_not_lt hlength, m.lt_occupied, hne, rfl, rfl⟩
  · rintro ⟨hlength, hlt, hne, rfl, rfl⟩
    have hfind : m.carriers.find? (fun k => decide (m.occupied ≤ k)) = none :=
      List.find?_eq_none.2 fun k hk => by simpa using hlt k hk
    rw [ofCarriers, if_neg (Nat.not_lt.2 hlength)]
    split
    next k hk =>
      rw [hfind] at hk
      cases hk
    · rw [dif_neg hne]

/-- Distinct carriers in range are not more than there are. -/
theorem length_le_of_nodup {carriers : List Nat} (h : carriers.Nodup)
    (hlt : ∀ k ∈ carriers, k < occupied) : carriers.length ≤ occupied := by
  have hsubset : carriers ⊆ List.range occupied := fun k hk => List.mem_range.2 (hlt k hk)
  have hle := (h.subperm hsubset).length_le
  rwa [List.length_range] at hle

theorem ofCarriers_nil (occupied : Nat) :
    ofCarriers [] occupied = .error (.parameter .noDataCarriers) := rfl

theorem exists_ofCarriers {carriers : List Nat} (hlength : carriers.length ≤ occupied)
    (hlt : ∀ k ∈ carriers, k < occupied) (hne : carriers ≠ []) :
    ∃ m, ofCarriers carriers occupied = .ok m ∧ m.occupied = occupied ∧ m.carriers = carriers :=
  ⟨⟨carriers, occupied, hne, hlt⟩, ofCarriers_eq_ok_iff.2 ⟨hlength, hlt, hne, rfl, rfl⟩, rfl, rfl⟩

theorem size_le_of_ofCarriers {carriers : List Nat} (h : ofCarriers carriers occupied = .ok m) :
    m.size ≤ m.occupied := by
  obtain ⟨hlength, -, -, hcarriers, hoccupied⟩ := ofCarriers_eq_ok_iff.1 h
  rw [size, hcarriers, hoccupied]
  exact hlength

/-- A mask is read as the list of the places of its set bits. -/
theorem exists_of_ofMask {mask : String} (h : ofMask mask occupied = .ok m) :
    ∃ digits, ofCarriers (setPlaces 0 (maskBits digits)) occupied = .ok m := by
  rw [ofMask] at h
  split at h
  · cases h
  · cases h
  next digits _ _ =>
    dsimp only at h
    split at h
    · cases h
    · exact ⟨digits, h⟩

/-- The carriers of the centred map, as its mask gives them. -/
def centredCarriers (occupied : Nat) : List Nat :=
  (((setPlaces 0 ((maskBits (centredDigits occupied).1).take
      (4 * (occupied / 4 + (centredDigits occupied).2)))).filter
    ((centredDigits occupied).2 ≤ ·)).map (· - (centredDigits occupied).2)).filter (· < occupied)

theorem centred_eq (h : 16 ≤ occupied) :
    centred occupied = ofCarriers (centredCarriers occupied) occupied := by
  rw [centred, if_neg (Nat.not_lt.2 h)]
  rfl

theorem exists_of_centred (h : centred occupied = .ok m) :
    ofCarriers (centredCarriers occupied) occupied = .ok m := by
  rw [← h, centred_eq]
  refine Nat.le_of_not_lt fun hnarrow => ?_
  rw [centred, if_pos hnarrow] at h
  cases h

theorem size_le_of_centred (h : centred occupied = .ok m) : m.size ≤ m.occupied :=
  size_le_of_ofCarriers (exists_of_centred h)

/-! ### The order of the carriers -/

theorem pairwise_of_ofMask {mask : String} (h : ofMask mask occupied = .ok m) :
    m.carriers.Pairwise (· < ·) := by
  obtain ⟨digits, hcarriers⟩ := exists_of_ofMask h
  rw [(ofCarriers_eq_ok_iff.1 hcarriers).2.2.2.1]
  exact pairwise_setPlaces 0 _

/-- Moving the places down keeps their order, because those that would fall off are left out. -/
theorem pairwise_centredCarriers (occupied : Nat) :
    (centredCarriers occupied).Pairwise (· < ·) := by
  refine List.Pairwise.filter _ (List.pairwise_map.2 ?_)
  refine ((pairwise_setPlaces 0 _).filter _).imp_of_mem fun ha hb hlt => ?_
  have hle := of_decide_eq_true (List.mem_filter.1 ha).2
  exact Nat.sub_lt_sub_right hle hlt

theorem pairwise_of_centred (h : centred occupied = .ok m) : m.carriers.Pairwise (· < ·) := by
  rw [(ofCarriers_eq_ok_iff.1 (exists_of_centred h)).2.2.2.1]
  exact pairwise_centredCarriers occupied

end CarrierMap

/-- One carrier, which carries data. -/
def soleCarrier : CarrierMap := ⟨[0], 1, by decide, by decide⟩

end OfdmBurst
