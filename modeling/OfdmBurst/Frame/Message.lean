import OfdmBurst.Stream.Timestamp
import OfdmBurst.Text.Utf8

/-!
# Messages

A message is a payload of bytes with what is known about it: a type, two numbers whose meaning is
the sender's, and for a received frame its time, its carrier offset, its signal-to-noise ratio and
the power of its symbols. A message of type `Message.endOfStream` carries no frame but ends the
stream.
-/

namespace OfdmBurst

/-- A payload and what is known about it. -/
structure Message where
  type : Int := 0
  arg1 : Float := 0
  arg2 : Float := 0
  payload : List UInt8 := []
  time : Option (Timestamp Float) := none
  offset : Option Float := none
  snr : Option Float := none
  power : List Float := []
  power2 : List Float := []

namespace Message

/-- The type that ends a stream. -/
def endOfStream : Int := 1

/-- A message whose payload is a text. -/
def ofText (type : Int) (arg1 arg2 : Float) (text : String) : Message :=
  { type, arg1, arg2, payload := text.toUTF8.toList }

/-- The number of payload bytes. -/
def size (m : Message) : Nat := m.payload.length

/-- The payload as text. -/
def text (m : Message) : String := Text.decodeUtf8 m.payload

end Message

end OfdmBurst
