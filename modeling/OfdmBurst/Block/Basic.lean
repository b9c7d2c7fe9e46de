import OfdmBurst.Block.Identity
import OfdmBurst.Frame.Queue
import OfdmBurst.FramingError
import OfdmBurst.Signal.Phasor
import OfdmBurst.Stream.Inlet
import OfdmBurst.Stream.Outlet

/-!
# Blocks

A block reads from inlets and writes to outlets. Whoever runs it pushes items, grants room and calls
`work`, which goes as far as items and room allow. Messages come from and go to a queue that the
block shares with the layer above it, so the queue is not part of the block: it is handed to `work`
and handed back.

An inlet or outlet is a terminal of its block, and carries samples or bytes. `Lane` is a terminal,
or a list, of either kind, and lets a block's terminals be reached by their number.

## Main definitions

* `Lane`: a thing that exists for samples and for bytes
* `Turn`: what one call of `work` leads to
* `Block`: the interface that all blocks share
-/

namespace OfdmBurst

/-- A container of samples or a container of bytes. -/
inductive Lane (F : Type → Type) where
  | samples (p : F Sample)
  | bytes (p : F UInt8)

/-- What a terminal carries. -/
inductive ItemKind where
  | sample
  | byte
deriving DecidableEq, Repr

namespace Lane

/-- What the container holds. -/
def kind {F : Type → Type} : Lane F → ItemKind
  | samples _ => .sample
  | bytes _ => .byte

/-- Apply a function that works for both kinds. -/
def visit {F : Type → Type} {β : Type} (f : {α : Type} → [Inhabited α] → F α → β) : Lane F → β
  | samples p => f p
  | bytes p => f p

/-- Change the container by a function that works for both kinds. -/
def mapM {F G : Type → Type} {ε : Type}
    (f : {α : Type} → [Inhabited α] → F α → Except ε (G α)) : Lane F → Except ε (Lane G)
  | samples p => samples <$> f p
  | bytes p => bytes <$> f p

end Lane

/-- An inlet of either kind. -/
abbrev AnyInlet := Lane fun α => Inlet α Float

/-- An outlet of either kind. -/
abbrev AnyOutlet := Lane fun α => Outlet α Float

/-- What a call of `work` leads to. A block that has `finished` need not be called again. A block
that fails keeps what it did before it failed. -/
structure Turn (β : Type) where
  block : β
  queue : MessageQueue
  finished : Bool := false
  failure : Option FramingError := none

/-- The end-of-stream mark as a text. -/
def finishedText (finished : Bool) : String := s!"WorkIo \x7b finished: {finished} \x7d"

/-- What all blocks offer. -/
class Block (β : Type) where
  /-- The name of the kind of block. -/
  kind : String
  inlets : β → List AnyInlet
  outlets : β → List AnyOutlet
  /-- Put back a terminal at its place. A terminal of the wrong kind is left aside. -/
  setInlet : β → Nat → AnyInlet → β
  setOutlet : β → Nat → AnyOutlet → β
  work : β → Identity → MessageQueue → Except Fault (Turn β)
  /-- The number of items a block asks for before it can produce as many as given. -/
  forecast : β → Nat → Except Fault Nat := fun _ n => .ok n

end OfdmBurst
