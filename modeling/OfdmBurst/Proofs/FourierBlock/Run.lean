import OfdmBurst.Block.FourierBlock
import OfdmBurst.Proofs.Stream.Items

/-!
# Running a Fourier block

A session is a Fourier block with the records of its two terminals. Nothing is said here about what
the transform computes: a block is built with any plan for symbols of its length.

## Main definitions

* `Session`, `Event`, `Session.act`, `Session.run`
* `ready`, `movedTags` — how many symbols a call of work takes, and the tags that go with them

## Main results

* `work_eq_ok_iff` — what a call of work does
* `Session.run_induct` — what events preserve, a session preserves
-/

namespace OfdmBurst

namespace FourierBlock

/-- A Fourier block with the records of its terminals. -/
structure Session where
  block : FourierBlock
  input : Record Sample Float := {}
  output : Record Sample Float := {}

/-- What can happen to a Fourier block. -/
inductive Event where
  | input (e : Inlet.Event Sample Float)
  | output (e : Outlet.Event)
  | work

/-- A session after an event. -/
def Session.act (s : Session) : Event → Except Fault Session
  | .input e => do
    let (p, r) ← s.block.input.meet s.input e
    return { s with block := { s.block with input := p }, input := r }
  | .output e => do
    let (p, r) ← s.block.output.meet s.output e
    return { s with block := { s.block with output := p }, output := r }
  | .work => do
    let (b, _) ← s.block.work
    return { s with block := b }

/-- A session after several events. -/
def Session.run (s : Session) (events : List Event) : Except Fault Session :=
  events.foldlM Session.act s

/-- A block that nobody has used yet. -/
def Session.start (b : FourierBlock) : Session := { block := b }

/-- Everything that the block has put out, whether it was taken or not. -/
def Session.emitted (s : Session) : Record Sample Float := s.block.output.total s.output

/-- The number of symbols that can be worked on. -/
def ready (b : FourierBlock) : Nat := min b.input.items b.output.room

/-- The tags of the first `n` symbols. -/
def movedTags (b : FourierBlock) (n : Nat) : List (Tag Float) :=
  (b.input.tags.filter (·.index < b.input.read + n)).map fun t =>
    { t with index := b.output.written + (t.index - b.input.read) }

/-- **What a call of work does.** -/
theorem work_eq_ok_iff {b d : FourierBlock} {finished : Bool} :
    b.work = .ok (d, finished) ↔
      ∃ symbols output input, b.input.firstItems b.ready = .ok symbols ∧
        (b.output.attachAll (b.movedTags b.ready)).put (symbols.flatMap b.symbol) = .ok output ∧
        b.input.consume b.ready = .ok input ∧
        d = { b with input, output } ∧ finished = (input.closed && input.items == 0) := by
  rw [work]
  simp only [ready, movedTags, Fault.bind_eq_ok_iff, Fault.pure_eq_ok_iff, Prod.mk.injEq]
  constructor
  · rintro ⟨symbols, hsymbols, output, houtput, input, hinput, hd, hfinished⟩
    exact ⟨symbols, output, input, hsymbols, houtput, hinput, hd.symm, hfinished.symm⟩
  · rintro ⟨symbols, output, input, hsymbols, houtput, hinput, hd, hfinished⟩
    exact ⟨symbols, hsymbols, output, houtput, input, hinput, hd.symm, hfinished.symm⟩

/-- **What every event preserves, a session preserves.** -/
theorem Session.run_induct {P : Session → Prop}
    (input : ∀ s p r e, P s → s.block.input.meet s.input e = .ok (p, r) →
      P { s with block := { s.block with input := p }, input := r })
    (output : ∀ s p r e, P s → s.block.output.meet s.output e = .ok (p, r) →
      P { s with block := { s.block with output := p }, output := r })
    (work : ∀ s d finished, P s → s.block.work = .ok (d, finished) → P { s with block := d })
    {s t : Session} {events : List Event} (hs : P s) (h : s.run events = .ok t) : P t := by
  refine Fault.foldlM_induct (fun s e t hs h => ?_) hs h
  cases e with
  | input e =>
    obtain ⟨⟨p, r⟩, hmeet, rfl⟩ := Fault.exists_of_bind_pure h
    exact input s p r e hs hmeet
  | output e =>
    obtain ⟨⟨p, r⟩, hmeet, rfl⟩ := Fault.exists_of_bind_pure h
    exact output s p r e hs hmeet
  | work =>
    obtain ⟨⟨d, finished⟩, hwork, rfl⟩ := Fault.exists_of_bind_pure h
    exact work s d finished hs hwork

end FourierBlock

end OfdmBurst
