/-!
# Faults

A fault is a use that the library does not answer: a counter that leaves its word, an index outside
its list, a terminal that is not there. It is not an error of the data, which the caller can handle
and go on from. After a fault the state of the block is of no use to anyone, so none is returned.

Counters and lengths are natural numbers, and the places where they would leave a machine word are
marked by `Fault.word`.
-/

namespace OfdmBurst

/-- How a terminal can be misused. -/
inductive TerminalError where
  /-- The block has no terminal with this number. -/
  | missing (block : String) (terminal : Nat)
  /-- The terminal carries another kind of item. -/
  | itemKind (block : String) (terminal : Nat)
  /-- The data do not make up whole items. -/
  | partialItem (length width : Nat)
  /-- Every other end of the queue is gone. -/
  | disconnected
  /-- The block's own work failed. -/
  | work (cause : String)
deriving DecidableEq, Repr

/-- The text of a terminal error. -/
def TerminalError.message : TerminalError → String
  | .missing block terminal => s!"Block {block} has no stream port {terminal}"
  | .itemKind block terminal =>
    s!"Stream port {terminal} of block {block} has a different item type"
  | .partialItem length width =>
    s!"Data length {length} is not a multiple of the vector length {width}"
  | .disconnected => "Message queue disconnected"
  | .work cause => "Error in kernel: " ++ cause

/-- Why there is no answer. -/
inductive Fault where
  /-- A counter or length left its machine word. -/
  | overflow
  /-- An index or a range outside its list. -/
  | outOfRange
  /-- An amount that the caller promised not to exceed, or a width of zero. -/
  | broken
  /-- A misused terminal. -/
  | terminal (cause : TerminalError)
deriving DecidableEq, Repr

/-- One past the largest machine word, the number two to the power 64. -/
def wordLimit : Nat := 18446744073709551616

/-- One past the longest list that a buffer may be asked to hold: a sixteenth of the words. -/
def bufferLimit : Nat := wordLimit / 16

/-- A number that has to fit a machine word. -/
def Fault.word (n : Nat) : Except Fault Nat := if n < wordLimit then .ok n else .error .overflow

theorem Fault.word_ok {n : Nat} (h : n < wordLimit) : Fault.word n = .ok n := by
  simp [Fault.word, h]

/-- A length that a buffer is asked to have. -/
def Fault.buffer (n : Nat) : Except Fault Nat :=
  if n < bufferLimit then .ok n else .error .overflow

/-- An element that has to be there. -/
def Fault.found {α : Type} : Option α → Except Fault α
  | some x => .ok x
  | none => .error .outOfRange

theorem Fault.found_getElem? {α : Type} {xs : List α} {i : Nat} (h : i < xs.length) :
    Fault.found xs[i]? = .ok xs[i] := by
  simp [Fault.found, List.getElem?_eq_getElem h]

end OfdmBurst
