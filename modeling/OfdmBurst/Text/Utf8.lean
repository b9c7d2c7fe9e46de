/-!
# Bytes as text

Bytes are read as UTF-8, and what is not UTF-8 is replaced, never refused. A sequence that goes
wrong is cut off where it goes wrong: the bytes that could still have begun a character become one
replacement character, and reading goes on with the byte that did not fit.
-/

namespace OfdmBurst

namespace Text

/-- The character that stands for bytes that are no text. -/
def replacement : Char := Char.ofNat 0xFFFD

/-- What a first byte announces: the bits it contributes, the number of bytes to follow, and the
range allowed for the next of them. The narrowed ranges keep out overlong forms, surrogates and
values past the last code point. -/
structure Lead where
  bits : Nat
  following : Nat
  low : Nat
  high : Nat

/-- Read a first byte past the ASCII range. -/
def lead? (b : UInt8) : Option Lead :=
  let n := b.toNat
  if 0xC2 ≤ n ∧ n ≤ 0xDF then some ⟨n - 0xC0, 1, 0x80, 0xBF⟩
  else if n = 0xE0 then some ⟨0, 2, 0xA0, 0xBF⟩
  else if n = 0xED then some ⟨0xD, 2, 0x80, 0x9F⟩
  else if 0xE1 ≤ n ∧ n ≤ 0xEF then some ⟨n - 0xE0, 2, 0x80, 0xBF⟩
  else if n = 0xF0 then some ⟨0, 3, 0x90, 0xBF⟩
  else if 0xF1 ≤ n ∧ n ≤ 0xF3 then some ⟨n - 0xF0, 3, 0x80, 0xBF⟩
  else if n = 0xF4 then some ⟨4, 3, 0x80, 0x8F⟩
  else none

/-- Read on with `pending`, the character begun by the bytes just read, if one is open. A byte that
does not continue it closes it with a replacement and is read as a first byte itself. -/
def decodeFrom : (pending : Option Lead) → List UInt8 → List Char
  | none, [] => []
  | some _, [] => [replacement]
  | pending, b :: rest =>
    let n := b.toNat
    match pending with
    | some lead =>
      if lead.low ≤ n ∧ n ≤ lead.high then
        let bits := lead.bits * 64 + n % 64
        if lead.following ≤ 1 then Char.ofNat bits :: decodeFrom none rest
        else decodeFrom (some ⟨bits, lead.following - 1, 0x80, 0xBF⟩) rest
      else replacement :: fresh b rest
    | none => fresh b rest
where
  /-- Read `b` as the first byte of a character. -/
  fresh (b : UInt8) (rest : List UInt8) : List Char :=
    if b.toNat < 0x80 then Char.ofNat b.toNat :: decodeFrom none rest
    else
      match lead? b with
      | some lead => decodeFrom (some lead) rest
      | none => replacement :: decodeFrom none rest

/-- The text of a byte list. -/
def decodeUtf8 (bytes : List UInt8) : String := String.ofList (decodeFrom none bytes)

end Text

end OfdmBurst
