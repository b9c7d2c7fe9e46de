import OfdmBurst.Frame.Header
import OfdmBurst.Frame.Message

/-!
# Bursts

A message is sent as a burst: the bytes of its header and its payload, read as a stream of bits with
the low bit of every byte first. Every data carrier takes the next group of bits, also low bit
first. Behind the last byte there are zeros, which fill up the last symbol.

## Main definitions

* `Burst`, `Burst.ofMessage`: what is left to send of a message
* `bitsFrom`: a group of bits of some bytes
* `Burst.groups`, `Burst.after`: the groups of one symbol, and what is left after it
-/

namespace OfdmBurst

/-- Bit `place` of bytes as a stream of bits, zero behind their end. -/
def bitAt (bytes : Array UInt8) (place : Nat) : Nat :=
  match bytes[place / 8]? with
  | some b => b.toNat / Nat.pow 2 (place % 8) % 2
  | none => 0

/-- The `n` bits from `place` on, as a number with the first bit lowest. -/
def bitsFrom (bytes : Array UInt8) (place : Nat) : (n : Nat) → Nat
  | 0 => 0
  | n + 1 => bitAt bytes place + 2 * bitsFrom bytes (place + 1) n

/-- Bytes on their way into symbols. Of the first one, `sent` bits are sent already. -/
structure Burst where
  bytes : List UInt8
  sent : Nat := 0
  /-- Whether nothing has been sent. -/
  fresh : Bool := true
  time : Option (Timestamp Float) := none

namespace Burst

/-- The burst of a message. The whitener offset of the header is the message's first argument,
rounded toward zero into a byte. -/
def ofMessage (m : Message) : Except FramingError Burst := do
  let header ← FrameHeader.ofParts m.size m.arg1.toUInt8
  return { bytes := header.toBytes ++ m.payload, time := m.time }

/-- The bytes that hold the next `n` bits. -/
def ahead (b : Burst) (n : Nat) : Array UInt8 := (b.bytes.take ((b.sent + n + 7) / 8)).toArray

/-- The next `carriers` groups of `bits` bits each. -/
def groups (b : Burst) (bits carriers : Nat) : List Nat :=
  let bytes := b.ahead (carriers * bits)
  (List.range carriers).map fun i => bitsFrom bytes (b.sent + i * bits) bits

/-- The burst after `n` more bits. Bytes that are sent are left behind. -/
def after (b : Burst) (n : Nat) : Burst :=
  { b with bytes := b.bytes.drop ((b.sent + n) / 8), sent := (b.sent + n) % 8, fresh := false }

/-- Whether all bits have been sent. -/
def isDone (b : Burst) : Bool := b.bytes.isEmpty

end Burst

end OfdmBurst
