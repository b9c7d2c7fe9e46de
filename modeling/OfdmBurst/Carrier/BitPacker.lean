/-!
# Packing bit groups into bytes

Decided bit groups arrive one after the other and are packed into bytes, the low bits first. A group
that does not fit fills the byte with its low bits, and its high bits wait as the residue until the
next group comes. So after every group either the byte is open and there is no residue, or a byte
has just been completed and the residue may hold bits for the next one.

## Main definitions

* `BitPacker`: the open byte and the residue
* `BitPacker.place`: add one group, and give the byte it completes, if it completes one
-/

namespace OfdmBurst

/-- Bits on their way into bytes. The low `offset` bits of the open byte are `filled`, and
`residue` holds `residueBits` bits that did not fit the byte before. -/
structure BitPacker where
  filled : Nat := 0
  offset : Nat := 0
  residue : Nat := 0
  residueBits : Nat := 0
deriving DecidableEq, Repr

namespace BitPacker

/-- Nothing is open. -/
def empty : BitPacker := {}

/-- Move the residue into the open byte. -/
def merged (b : BitPacker) : BitPacker :=
  if b.residueBits = 0 then b
  else
    { filled := b.filled ||| b.residue, offset := b.offset + b.residueBits,
      residue := 0, residueBits := 0 }

/-- Put the low bits of a group behind the filled bits, and keep what does not fit as the
residue. -/
def append (b : BitPacker) (value bits : Nat) : BitPacker :=
  let room := 8 - b.offset
  if bits ≤ room then
    { b with filled := b.filled ||| (value <<< b.offset), offset := b.offset + bits }
  else
    { filled := b.filled ||| ((value % Nat.pow 2 room) <<< b.offset), offset := 8,
      residue := value >>> room, residueBits := bits - room }

/-- Take the open byte if it is full. -/
def flush (b : BitPacker) : Option UInt8 × BitPacker :=
  if b.offset = 8 then (some (UInt8.ofNat b.filled), { b with filled := 0, offset := 0 })
  else (none, b)

/-- Add a group of `bits` bits. -/
def place (b : BitPacker) (value bits : Nat) : Option UInt8 × BitPacker :=
  (b.merged.append value bits).flush

/-- Add several groups, and give the bytes they complete. -/
def placeAll (bits : Nat) (b : BitPacker) : List Nat → List UInt8 × BitPacker
  | [] => ([], b)
  | v :: rest =>
    let (done, b) := b.place v bits
    let (more, b) := placeAll bits b rest
    (done.toList ++ more, b)

/-! ### What is kept between groups -/

/-- Between groups the open byte has room, and a residue waits only behind an empty byte. -/
structure Settled (b : BitPacker) : Prop where
  /-- The open byte has room. -/
  offset_lt : b.offset < 8
  /-- Nothing is above its filled bits. -/
  filled_lt : b.filled < Nat.pow 2 b.offset
  /-- The residue is less than a byte. -/
  residueBits_lt : b.residueBits < 8
  /-- Nothing is above the bits of the residue. -/
  residue_lt : b.residue < Nat.pow 2 b.residueBits
  /-- A residue waits only behind an empty byte. -/
  offset_eq : b.residueBits ≠ 0 → b.offset = 0

theorem settled_empty : Settled empty :=
  ⟨by decide, by decide, by decide, by decide, fun _ => rfl⟩

end BitPacker

end OfdmBurst
