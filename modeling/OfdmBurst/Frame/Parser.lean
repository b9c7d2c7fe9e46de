import OfdmBurst.Frame.Header
import OfdmBurst.Stream.AppendList

/-!
# Parsing frames

The bytes of a burst arrive in pieces of any length. The parser collects the four bytes of the
header, refuses a header whose copies disagree, and then collects as many bytes as the header
announces. What follows a complete frame, or a refused header, is not looked at.

## Main definitions

* `FrameParser`: what has been collected
* `FrameParser.byte`, `FrameParser.feed`: one byte, and a piece of any length
-/

namespace OfdmBurst

/-- A frame on its way. -/
inductive FrameParser where
  /-- The first `count` bytes of a header, shifted into a word. -/
  | heading (word : UInt32) (count : Nat)
  /-- A header, and the bytes after it so far. -/
  | body (header : FrameHeader) (got : AppendList UInt8)
deriving DecidableEq, Repr

namespace FrameParser

/-- Nothing has been collected. -/
def start : FrameParser := .heading 0 0

/-- What the bytes so far amount to. -/
inductive Verdict where
  | more (state : FrameParser)
  | refused
  | frame (header : FrameHeader) (payload : List UInt8)
deriving DecidableEq, Repr

/-- The verdict on a complete header. -/
def ofWord (word : UInt32) : Verdict :=
  if FrameHeader.agrees word then
    let header := FrameHeader.ofWord word
    if header.length = 0 then .frame header [] else .more (.body header .empty)
  else .refused

/-- One more byte. -/
def byte (s : FrameParser) (b : UInt8) : Verdict :=
  match s with
  | .heading word count =>
    let word := FrameHeader.shiftIn word b
    if count + 1 < FrameHeader.size then .more (.heading word (count + 1)) else ofWord word
  | .body header got =>
    let got := got.push b
    if got.size = header.length.toNat then .frame header got.toList else .more (.body header got)

/-- More bytes, up to the first verdict. -/
def feed (s : FrameParser) : List UInt8 → Verdict
  | [] => .more s
  | b :: rest =>
    match s.byte b with
    | .more next => next.feed rest
    | verdict => verdict

/-- Bytes after those that lead to a verdict. -/
def Verdict.then (v : Verdict) (bytes : List UInt8) : Verdict :=
  match v with
  | .more s => s.feed bytes
  | verdict => verdict

/-- **Pieces of any length lead to the same verdict.** -/
theorem feed_append (s : FrameParser) (xs ys : List UInt8) :
    s.feed (xs ++ ys) = (s.feed xs).then ys := by
  induction xs generalizing s with
  | nil => rfl
  | cons b rest ih =>
    simp only [List.cons_append, feed]
    cases s.byte b with
    | more next => exact ih next
    | refused => rfl
    | frame header payload => rfl

end FrameParser

end OfdmBurst
