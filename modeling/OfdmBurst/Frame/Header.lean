import OfdmBurst.FramingError

/-!
# Frame headers

A frame starts with a header of four bytes: one 16-bit field, sent twice with its high byte first.
The low twelve bits of the field are the length of the payload and the high four bits the whitener
offset. A received header counts only if its two copies agree.
-/

namespace OfdmBurst

/-- What a frame's header says. -/
structure FrameHeader where
  length : UInt16
  offset : UInt8
deriving DecidableEq, Repr

namespace FrameHeader

/-- Bytes of a header. -/
def size : Nat := 4

/-- The longest payload that twelve bits can announce. -/
def longest : Nat := 0xFFF

/-- A header for a payload of `length` bytes, if both fields fit. -/
def ofParts (length : Nat) (offset : UInt8) : Except FramingError FrameHeader :=
  if longest < length then .error (.payloadOverrun length longest)
  else if 0xF < offset then .error (.parameter (.whitenerOffset offset.toNat))
  else .ok ⟨UInt16.ofNat length, offset⟩

/-- One copy of the field. -/
def field (h : FrameHeader) : UInt32 :=
  ((h.offset.toUInt32 &&& 0xF) <<< 12) ||| (h.length.toUInt32 &&& 0xFFF)

/-- The header as a word, one copy of the field in each half. -/
def toWord (h : FrameHeader) : UInt32 := (h.field <<< 16) ||| h.field

/-- The fields in the upper half of a word. -/
def ofWord (word : UInt32) : FrameHeader :=
  ⟨((word >>> 16) &&& 0xFFF).toUInt16, ((word >>> 28) &&& 0xF).toUInt8⟩

/-- Whether the two halves of a word are the same. -/
def agrees (word : UInt32) : Bool := word >>> 16 == word &&& 0xFFFF

/-- The bytes of the header in the order they are sent. -/
def toBytes (h : FrameHeader) : List UInt8 :=
  [(h.toWord >>> 24).toUInt8, (h.toWord >>> 16).toUInt8, (h.toWord >>> 8).toUInt8, h.toWord.toUInt8]

theorem length_toBytes (h : FrameHeader) : h.toBytes.length = size := rfl

/-- Shift one more received byte into a word. -/
def shiftIn (word : UInt32) (byte : UInt8) : UInt32 := (word <<< 8) ||| byte.toUInt32

end FrameHeader

end OfdmBurst
