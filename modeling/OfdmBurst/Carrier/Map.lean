import OfdmBurst.FramingError

/-!
# Carrier maps

Of the occupied carriers of a symbol some carry data. A map lists them in the order in which the
data are sent. It can be written as a hexadecimal mask, where each digit covers four carriers and
its highest bit the first of them, so that `FE7F` leaves out the two carriers in the middle.

## Main definitions

* `CarrierMap`, `CarrierMap.ofCarriers`: a list of carriers below the occupied width
* `CarrierMap.ofMask`: from a mask
* `CarrierMap.centred`: the map for a given width that leaves out the middle
-/

namespace OfdmBurst

/-- The data carriers among `occupied` carriers, in the order they are filled. -/
structure CarrierMap where
  carriers : List Nat
  occupied : Nat
  carriers_ne : carriers ≠ []
  lt_occupied : ∀ k ∈ carriers, k < occupied

namespace CarrierMap

/-- The number of data carriers. -/
def size (m : CarrierMap) : Nat := m.carriers.length

theorem size_pos (m : CarrierMap) : 0 < m.size := List.length_pos_iff.2 m.carriers_ne

theorem occupied_pos (m : CarrierMap) : 0 < m.occupied := by
  obtain ⟨k, hk⟩ := List.exists_mem_of_ne_nil _ m.carriers_ne
  exact Nat.lt_of_le_of_lt (Nat.zero_le k) (m.lt_occupied k hk)

/-- A map from its list of carriers. The first offence counts: more carriers than there are, one
that is out of range, none at all. -/
def ofCarriers (carriers : List Nat) (occupied : Nat) : Except FramingError CarrierMap :=
  if occupied < carriers.length then .error (.carrierOverflow carriers.length occupied)
  else
    match h : carriers.find? fun k => decide (occupied ≤ k) with
    | some k => .error (.carrierIndex k occupied)
    | none =>
      if hne : carriers = [] then .error (.parameter .noDataCarriers)
      else
        .ok ⟨carriers, occupied, hne, fun k hk => by
          have := List.find?_eq_none.1 h k hk
          simpa using this⟩

/-! ### Masks -/

/-- The value of a hexadecimal digit in either case. -/
def hexValue? (c : Char) : Option Nat :=
  if '0' ≤ c ∧ c ≤ '9' then some (c.toNat - '0'.toNat)
  else if 'a' ≤ c ∧ c ≤ 'f' then some (c.toNat - 'a'.toNat + 10)
  else if 'A' ≤ c ∧ c ≤ 'F' then some (c.toNat - 'A'.toNat + 10)
  else none

/-- The four bits of a hexadecimal digit, highest first. -/
def digitBits (v : Nat) : List Bool := [v.testBit 3, v.testBit 2, v.testBit 1, v.testBit 0]

/-- The bits of a mask, four for each digit. -/
def maskBits (digits : List Nat) : List Bool := digits.flatMap digitBits

/-- The places of the set bits, in increasing order, counted from `place`. -/
def setPlaces (place : Nat) : List Bool → List Nat
  | [] => []
  | true :: rest => place :: setPlaces (place + 1) rest
  | false :: rest => setPlaces (place + 1) rest

/-- The map a mask writes down. A mask has at least one digit, and no bit is set at or past the
occupied width. -/
def ofMask (mask : String) (occupied : Nat) : Except FramingError CarrierMap :=
  match mask.toList.mapM hexValue? with
  | none | some [] => .error (.invalidMask mask)
  | some digits =>
    let carriers := setPlaces 0 (maskBits digits)
    match carriers.find? fun k => decide (occupied ≤ k) with
    | some k => .error (.carrierIndex k occupied)
    | none => ofCarriers carriers occupied

/-! ### The centred map

The mask `FE7F` stands in the middle and full digits are added in pairs, one on each side. What is
then missing to the width, at most seven carriers, is split into a left and a right part, the left
one at least as large, and one partly filled digit on each side covers them. The left digit begins
with carriers that are not there, so the mask is moved down by the length of the left part. -/

/-- The digits of the centred mask for `occupied` carriers, and the length of its left part. -/
def centredDigits (occupied : Nat) : List Nat × Nat :=
  let sides := (occupied - 16) / 8
  let missing := (occupied - 16) % 8
  let full := List.replicate sides 0xF
  let core := full ++ [0xF, 0xE, 0x7, 0xF] ++ full
  if missing = 0 then (core, 0)
  else
    let left := (missing + 1) / 2
    let right := missing - left
    ([Nat.pow 2 left - 1] ++ core ++ [0xF ^^^ (Nat.pow 2 right - 1)], left)

/-- The map for `occupied` carriers that leaves out the middle. -/
def centred (occupied : Nat) : Except FramingError CarrierMap :=
  if occupied < 16 then .error (.parameter (.narrowDefaultMap occupied))
  else
    let (digits, left) := centredDigits occupied
    let bits := (maskBits digits).take (4 * (occupied / 4 + left))
    let moved := (setPlaces 0 bits).filter (left ≤ ·) |>.map (· - left)
    ofCarriers (moved.filter (· < occupied)) occupied

end CarrierMap

end OfdmBurst
