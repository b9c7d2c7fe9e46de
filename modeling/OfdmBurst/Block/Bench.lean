import OfdmBurst.Block.Basic

/-!
# A block on the bench

A bench runs one block by itself. It feeds the block's inlets, grants room at its outlets, calls it
once for each run, and remembers whether the block has declared the end of its stream. On the bench
a block carries its kind and the number zero as its name.

A terminal that is not there, or that carries the other kind of item, is a fault.
-/

namespace OfdmBurst

/-- A block with the name it carries on the bench. -/
structure Bench (β : Type) where
  block : β
  identity : Identity
  finished : Bool := false

namespace Bench

variable {β : Type} [Block β]

/-- Put a block on the bench. -/
def mount (block : β) : Bench β :=
  let identity : Identity := { kind := Block.kind β }
  { block, identity := identity.rename (Block.kind β ++ "_0") }

/-- The fault of using a terminal that is not there. -/
def missing (_ : Bench β) (terminal : Nat) : Fault := .terminal (.missing (Block.kind β) terminal)

/-- The fault of using a terminal as one of the other kind. -/
def wrongKind (_ : Bench β) (terminal : Nat) : Fault :=
  .terminal (.itemKind (Block.kind β) terminal)

/-! ### Inlets -/

/-- Push data to an inlet, with tags counted from the first item of the data. -/
def push (b : Bench β) (terminal : Nat) (data : Lane List) (tags : List (Tag Float)) :
    Except Fault (Bench β) :=
  match (Block.inlets b.block)[terminal]?, data with
  | none, _ => .error (b.missing terminal)
  | some (.samples p), .samples xs => do
    return { b with block := Block.setInlet b.block terminal (.samples (← p.push xs tags)) }
  | some (.bytes p), .bytes xs => do
    return { b with block := Block.setInlet b.block terminal (.bytes (← p.push xs tags)) }
  | some _, _ => .error (b.wrongKind terminal)

/-- Push all the data an inlet will ever get. -/
def feed (b : Bench β) (terminal : Nat) (data : Lane List) (tags : List (Tag Float)) :
    Except Fault (Bench β) := do
  let b ← b.push terminal data tags
  match (Block.inlets b.block)[terminal]? with
  | none => throw (b.missing terminal)
  | some (.samples p) =>
    return { b with block := Block.setInlet b.block terminal (.samples p.close) }
  | some (.bytes p) => return { b with block := Block.setInlet b.block terminal (.bytes p.close) }

/-! ### Outlets -/

/-- The outlet with a number, if it carries the given kind. -/
def outlet (b : Bench β) (terminal : Nat) (kind : ItemKind) : Except Fault AnyOutlet :=
  match (Block.outlets b.block)[terminal]? with
  | none => .error (b.missing terminal)
  | some lane => if lane.kind = kind then .ok lane else .error (b.wrongKind terminal)

/-- Grant room for `n` items. -/
def reserve (b : Bench β) (terminal : Nat) (kind : ItemKind) (n : Nat) :
    Except Fault (Bench β) := do
  let lane ← b.outlet terminal kind
  let lane ← lane.mapM fun p => p.reserve n
  return { b with block := Block.setOutlet b.block terminal lane }

/-- What an outlet has produced. -/
def peek (b : Bench β) (terminal : Nat) (kind : ItemKind) :
    Except Fault (Lane List × List (Tag Float)) := do
  match ← b.outlet terminal kind with
  | .samples p => return ((.samples (← p.peek).1), (← p.peek).2)
  | .bytes p => return ((.bytes (← p.peek).1), (← p.peek).2)

/-- Take what an outlet has produced. -/
def take (b : Bench β) (terminal : Nat) (kind : ItemKind) :
    Except Fault ((Lane List × List (Tag Float)) × Bench β) := do
  match ← b.outlet terminal kind with
  | .samples p =>
    let ((data, tags), p) ← p.take
    let block := Block.setOutlet b.block terminal (.samples p)
    return ((.samples data, tags), { b with block })
  | .bytes p =>
    let ((data, tags), p) ← p.take
    let block := Block.setOutlet b.block terminal (.bytes p)
    return ((.bytes data, tags), { b with block })

/-! ### Work -/

/-- Call the block once. A failure of its work is reported as an error of the bench. -/
def run (b : Bench β) (queue : MessageQueue) :
    Except Fault (Bench β × MessageQueue × Option TerminalError) := do
  let turn ← Block.work b.block b.identity queue
  match turn.failure with
  | some e => return ({ b with block := turn.block }, turn.queue, some (.work e.message))
  | none =>
    return ({ b with block := turn.block, finished := b.finished || turn.finished },
      turn.queue, none)

end Bench

end OfdmBurst
