import Mathlib.Order.Bounds.Basic
import OfdmBurst.Proofs.Carrier.Map
import OfdmBurst.Proofs.Stream.Items

/-!
# Masks as they are written

A mask is a text. Which map it writes down, or why it writes down none, is said here in terms of its
characters: a character is a digit with a value, and place `4 * d + j` of the mask is set if bit
`3 - j` of digit `d` is. Neither the list of all bits nor the list of set places occurs in that.

There are four ways to read a text. A character that is no digit counts before anything a digit
says, and the first place out of range counts before the question whether any place is set.

## Main definitions

* `CarrierMap.Spells`, `CarrierMap.IsHexadecimal` — digits, and texts made of them
* `CarrierMap.Sets` — the places that a text sets
* `CarrierMap.Reading` — what a text writes down

## Main results

* `CarrierMap.reading_ofMask` — every text is read in one of the four ways
* `CarrierMap.mem_setPlaces_maskBits` — the bits of the digits, by their places in the text
* `CarrierMap.reads_masks` — when each of the answers is given
-/

namespace OfdmBurst

/-! ### Options for the elements of a list -/

/-- An option for each element: what is there at a place is what there is for the element there. -/
theorem getElem?_of_mapM {β γ : Type} {f : β → Option γ} {xs : List β} {ys : List γ}
    (h : xs.mapM f = some ys) (i : Nat) : ys[i]? = xs[i]?.bind f := by
  induction xs generalizing ys i with
  | nil =>
    obtain rfl : [] = ys := by simpa using h
    rfl
  | cons x rest ih =>
    rw [List.mapM_cons, Option.bind_eq_bind, Option.bind_eq_some_iff] at h
    obtain ⟨y, hy, h⟩ := h
    obtain ⟨zs, hzs, hys⟩ := Option.bind_eq_some_iff.1 h
    obtain rfl : y :: zs = ys := by simpa using hys
    cases i with
    | zero => exact hy.symm
    | succ i => exact ih hzs i

theorem mapM_eq_none_iff {β γ : Type} {f : β → Option γ} {xs : List β} :
    xs.mapM f = none ↔ ∃ x ∈ xs, f x = none := by
  induction xs with
  | nil => simp
  | cons x rest ih =>
    cases hx : f x with
    | none => simp [hx]
    | some y => cases hrest : rest.mapM f <;> simp [hx, hrest, ← ih]

namespace CarrierMap

/-! ### Digits -/

/-- The digits in the order of their values. -/
def lowerDigits : List Char :=
  ['0', '1', '2', '3', '4', '5', '6', '7', '8', '9', 'a', 'b', 'c', 'd', 'e', 'f']

/-- The same digits with capital letters. -/
def upperDigits : List Char :=
  ['0', '1', '2', '3', '4', '5', '6', '7', '8', '9', 'A', 'B', 'C', 'D', 'E', 'F']

/-- The character is a digit with this value. -/
def Spells (c : Char) (v : Nat) : Prop := lowerDigits[v]? = some c ∨ upperDigits[v]? = some c

/-- A character in a range has the place in it that its number says. -/
theorem exists_offset {first last c : Char} (h : first ≤ c ∧ c ≤ last) :
    ∃ n ≤ last.toNat - first.toNat, c = Char.ofNat (first.toNat + n) ∧
      c.toNat - first.toNat = n := by
  have hfirst : first.toNat ≤ c.toNat := Char.le_def.1 h.1
  have hlast : c.toNat ≤ last.toNat := Char.le_def.1 h.2
  refine ⟨c.toNat - first.toNat, by omega, ?_, rfl⟩
  rw [Nat.add_sub_cancel' hfirst, Char.ofNat_toNat]

theorem spells_of_hexValue? {c : Char} {v : Nat} (h : hexValue? c = some v) : Spells c v := by
  have hdecimal : ∀ n ≤ 9, lowerDigits[n]? = some (Char.ofNat ('0'.toNat + n)) := by decide
  have hlower : ∀ n ≤ 5, lowerDigits[n + 10]? = some (Char.ofNat ('a'.toNat + n)) := by decide
  have hupper : ∀ n ≤ 5, upperDigits[n + 10]? = some (Char.ofNat ('A'.toNat + n)) := by decide
  rw [hexValue?] at h
  split at h
  next hrange =>
    obtain ⟨n, hn, rfl, hvalue⟩ := exists_offset hrange
    rw [hvalue, Option.some.injEq] at h
    exact .inl (h ▸ hdecimal n hn)
  · split at h
    next hrange =>
      obtain ⟨n, hn, rfl, hvalue⟩ := exists_offset hrange
      rw [hvalue, Option.some.injEq] at h
      exact .inl (h ▸ hlower n hn)
    · split at h
      next hrange =>
        obtain ⟨n, hn, rfl, hvalue⟩ := exists_offset hrange
        rw [hvalue, Option.some.injEq] at h
        exact .inr (h ▸ hupper n hn)
      · cases h

theorem hexValue?_eq_some_iff {c : Char} {v : Nat} : hexValue? c = some v ↔ Spells c v := by
  constructor
  · exact spells_of_hexValue?
  · intro h
    have hlt : v < 16 := by
      rcases h with h | h <;> exact (List.getElem?_eq_some_iff.1 h).1
    rcases h with h | h
    · have hall : ∀ v < 16, lowerDigits[v]?.bind hexValue? = some v := by decide
      simpa [h] using hall v hlt
    · have hall : ∀ v < 16, upperDigits[v]?.bind hexValue? = some v := by decide
      simpa [h] using hall v hlt

/-- A text that is not empty and has no other characters. -/
def IsHexadecimal (mask : String) : Prop := mask ≠ "" ∧ ∀ c ∈ mask.toList, ∃ v, Spells c v

/-- The text sets place `k`: bit `3 - k % 4` of digit `k / 4`. -/
def Sets (mask : String) (k : Nat) : Prop :=
  ∃ c v, mask.toList[k / 4]? = some c ∧ Spells c v ∧ v.testBit (3 - k % 4) = true

theorem isHexadecimal_iff {mask : String} :
    IsHexadecimal mask ↔ mask.toList ≠ [] ∧ ∀ c ∈ mask.toList, hexValue? c ≠ none := by
  simp [IsHexadecimal, ← hexValue?_eq_some_iff, Option.ne_none_iff_exists']

theorem isHexadecimal_of_mapM {mask : String} {digits : List Nat}
    (h : mask.toList.mapM hexValue? = some digits) : IsHexadecimal mask ↔ digits ≠ [] := by
  have hspelled : ∀ c ∈ mask.toList, hexValue? c ≠ none := by
    intro c hc hnone
    rw [mapM_eq_none_iff.2 ⟨c, hc, hnone⟩] at h
    cases h
  rw [isHexadecimal_iff, and_iff_left hspelled]
  have hfirst := getElem?_of_mapM h 0
  cases hchars : mask.toList with
  | nil =>
    rw [hchars] at hfirst
    simp_all
  | cons c rest =>
    rw [hchars] at hfirst hspelled
    have hc := hspelled c List.mem_cons_self
    simp only [ne_eq, reduceCtorEq, not_false_eq_true, true_iff]
    rintro rfl
    exact hc hfirst.symm

/-- The bits of a digit, by their places. -/
theorem getElem?_digitBits (v : Nat) {j : Nat} (hj : j < 4) :
    (digitBits v)[j]? = some (v.testBit (3 - j)) := by
  obtain rfl | rfl | rfl | rfl : j = 0 ∨ j = 1 ∨ j = 2 ∨ j = 3 := by omega
  all_goals rfl

/-- The places that the digits of a text set are those that the text sets. -/
theorem mem_setPlaces_maskBits {mask : String} {digits : List Nat}
    (h : mask.toList.mapM hexValue? = some digits) {k : Nat} :
    k ∈ setPlaces 0 (maskBits digits) ↔ Sets mask k := by
  have hj : k % 4 < 4 := Nat.mod_lt k (by decide)
  have hlength : ∀ v ∈ digits, (digitBits v).length = 4 := fun v _ => rfl
  have hplace := getElem?_flatMap_of_length hlength (k / 4) hj
  rw [Nat.div_add_mod'] at hplace
  simp only [mem_setPlaces, Nat.zero_le, true_and, Nat.sub_zero, maskBits, hplace,
    getElem?_of_mapM h, getElem?_digitBits _ hj, Option.bind_eq_some_iff, hexValue?_eq_some_iff,
    Option.some.injEq, Sets]
  constructor
  · rintro ⟨v, ⟨c, hc, hv⟩, hbit⟩
    exact ⟨c, v, hc, hv, hbit⟩
  · rintro ⟨c, v, hc, hv, hbit⟩
    exact ⟨v, ⟨c, hc, hv⟩, hbit⟩

/-! ### Readings -/

/-- What a text writes down for a number of occupied carriers. -/
inductive Reading (mask : String) (occupied : Nat) : Except FramingError CarrierMap → Prop
  | refused (not_hexadecimal : ¬ IsHexadecimal mask) :
      Reading mask occupied (.error (.invalidMask mask))
  | beyond (hexadecimal : IsHexadecimal mask) (k : Nat)
      (least : IsLeast {k | Sets mask k ∧ occupied ≤ k} k) :
      Reading mask occupied (.error (.carrierIndex k occupied))
  | blank (hexadecimal : IsHexadecimal mask) (unset : ∀ k, ¬ Sets mask k) :
      Reading mask occupied (.error (.parameter .noDataCarriers))
  | map (hexadecimal : IsHexadecimal mask) (m : CarrierMap)
      (increasing : m.carriers.Pairwise (· < ·))
      (mem_iff : ∀ k, k ∈ m.carriers ↔ Sets mask k) (occupied_eq : m.occupied = occupied) :
      Reading mask occupied (.ok m)

/-- The first place out of range, in an increasing list of places, is the least. -/
theorem isLeast_of_find? {carriers : List Nat} {occupied k : Nat}
    (hpairwise : carriers.Pairwise (· < ·))
    (h : carriers.find? (fun k => decide (occupied ≤ k)) = some k) :
    IsLeast {k | k ∈ carriers ∧ occupied ≤ k} k := by
  obtain ⟨hk, before, after, rfl, hbefore⟩ := List.find?_eq_some_iff_append.1 h
  refine ⟨⟨by simp, of_decide_eq_true hk⟩, ?_⟩
  rintro j ⟨hj, hle⟩
  rcases List.mem_append.1 hj with hj | hj
  · simpa [hle] using hbefore j hj
  · rcases List.mem_cons.1 hj with rfl | hj
    · exact Nat.le_refl _
    · exact Nat.le_of_lt ((List.pairwise_cons.1 (List.pairwise_append.1 hpairwise).2.1).1 j hj)

/-- **Every text is read in one of the four ways.** -/
theorem reading_ofMask (mask : String) (occupied : Nat) :
    Reading mask occupied (ofMask mask occupied) := by
  rw [ofMask]
  split
  next hnone =>
    refine .refused fun h => ?_
    obtain ⟨c, hc, hvalue⟩ := mapM_eq_none_iff.1 hnone
    exact (isHexadecimal_iff.1 h).2 c hc hvalue
  next hnil => exact .refused fun h => (isHexadecimal_of_mapM hnil).1 h rfl
  next digits hne hdigits =>
    have hhex : IsHexadecimal mask := (isHexadecimal_of_mapM hdigits).2 fun hnil => by
      subst hnil
      exact hne rfl
    have hmem : ∀ k, k ∈ setPlaces 0 (maskBits digits) ↔ Sets mask k := fun k =>
      mem_setPlaces_maskBits hdigits
    have hincreasing := pairwise_setPlaces 0 (maskBits digits)
    dsimp only
    split
    next k hfind =>
      have hleast := isLeast_of_find? hincreasing hfind
      simp only [hmem] at hleast
      exact .beyond hhex k hleast
    next hfind =>
      have hlt : ∀ k ∈ setPlaces 0 (maskBits digits), k < occupied := by simpa using hfind
      by_cases hset : setPlaces 0 (maskBits digits) = []
      · rw [hset] at hmem ⊢
        rw [ofCarriers_nil]
        exact .blank hhex fun k hk => List.not_mem_nil ((hmem k).2 hk)
      · -- the places are distinct and in range, so they cannot be too many
        have hcount := length_le_of_nodup (hincreasing.imp Nat.ne_of_lt) hlt
        obtain ⟨m, hm, hoccupied, hcarriers⟩ := exists_ofCarriers hcount hlt hset
        rw [hm]
        refine .map hhex m ?_ ?_ hoccupied
        · rwa [hcarriers]
        · rwa [hcarriers]

/-- **When each of the answers is given.** A map is read if the text is hexadecimal and sets a place
and none out of range, and then its carriers are the places that are set, in increasing order.
Otherwise the answer is that the text is no mask if it is empty or has another character, else the
least place out of range if there is one, else that there are no data carriers. It is never that
there are too many of them. -/
theorem reads_masks (mask : String) (occupied : Nat) :
    ((∃ m, ofMask mask occupied = .ok m) ↔
      IsHexadecimal mask ∧ (∃ k, Sets mask k) ∧ ∀ k, Sets mask k → k < occupied) ∧
    (∀ m, ofMask mask occupied = .ok m →
      m.carriers.Pairwise (· < ·) ∧ (∀ k, k ∈ m.carriers ↔ Sets mask k) ∧
        m.occupied = occupied) ∧
    (ofMask mask occupied = .error (.invalidMask mask) ↔
      mask = "" ∨ ∃ c ∈ mask.toList, ∀ v, ¬ Spells c v) ∧
    (∀ k, ofMask mask occupied = .error (.carrierIndex k occupied) ↔
      IsHexadecimal mask ∧ IsLeast {k | Sets mask k ∧ occupied ≤ k} k) ∧
    (ofMask mask occupied = .error (.parameter .noDataCarriers) ↔
      IsHexadecimal mask ∧ ∀ k, ¬ Sets mask k) ∧
    ∀ allocated most, ofMask mask occupied ≠ .error (.carrierOverflow allocated most) := by
  have hnot : (mask = "" ∨ ∃ c ∈ mask.toList, ∀ v, ¬ Spells c v) ↔ ¬ IsHexadecimal mask := by
    simp [IsHexadecimal, imp_iff_not_or]
  have hreading := reading_ofMask mask occupied
  rw [hnot]
  generalize ofMask mask occupied = answer at hreading ⊢
  cases hreading with
  | refused hrefused => simp [hrefused]
  | beyond hhex k hleast =>
    obtain ⟨hset, hle⟩ := hleast.1
    refine ⟨iff_of_false (by simp) fun h => ?_, by simp, by simp [hhex], fun j => ?_,
      iff_of_false (by simp) fun h => h.2 k hset, by simp⟩
    · exact Nat.not_lt.2 hle (h.2.2 k hset)
    · constructor
      · intro h
        cases h
        exact ⟨hhex, hleast⟩
      · rintro ⟨-, hj⟩
        rw [hleast.unique hj]
  | blank hhex hunset =>
    refine ⟨by simp [hunset], by simp, by simp [hhex], fun k => ?_, by simp [hhex, hunset], by simp⟩
    exact iff_of_false (by simp) fun h => hunset k h.2.1.1
  | map hhex m hincreasing hmem hoccupied =>
    obtain ⟨k, hk⟩ := List.exists_mem_of_ne_nil _ m.carriers_ne
    have hset : Sets mask k := (hmem k).1 hk
    have hlt : ∀ k, Sets mask k → k < occupied := fun k hk =>
      hoccupied ▸ m.lt_occupied k ((hmem k).2 hk)
    refine ⟨iff_of_true ⟨m, rfl⟩ ⟨hhex, ⟨k, hset⟩, hlt⟩, fun n hn => ?_, by simp [hhex],
      fun j => ?_, iff_of_false (by simp) fun h => h.2 k hset, by simp⟩
    · cases hn
      exact ⟨hincreasing, hmem, hoccupied⟩
    · refine iff_of_false (by simp) fun h => ?_
      exact Nat.not_lt.2 h.2.1.2 (hlt j h.2.1.1)

/-- A mask that sets a bit on either side of the border between two digits. -/
theorem reads_masks_border :
    ∃ m, ofMask "0018" 13 = .ok m ∧ m.carriers = [11, 12] ∧ m.occupied = 13 ∧
      ∀ k, Sets "0018" k ↔ k ∈ [11, 12] := by
  obtain ⟨-, hread, -⟩ := reads_masks "0018" 13
  obtain ⟨-, hmem, hoccupied⟩ := hread _ rfl
  exact ⟨_, rfl, rfl, hoccupied, fun k => (hmem k).symm⟩

end CarrierMap

end OfdmBurst
