import OfdmBurst.Block.CyclicPrefixer
import OfdmBurst.Proofs.Stream.Items

/-!
# Running a prefixer

A session is a prefixer with the records of its three terminals and with the name that its tags are
given. The inlet of burst ends may stay unconnected, or be connected at any time.

## Main definitions

* `Session`, `Event`, `Session.act`, `Session.run`
* `marks` — the marks of the burst ends that a call of work makes

## Main results

* `work_eq_ok_iff` — what a call of work does
* `Session.run_induct` — what events preserve, a session preserves
-/

namespace OfdmBurst

namespace CyclicPrefixer

variable {α τ : Type}

/-- A prefixer with the records of its terminals, and the name it gives to its tags. -/
structure Session (α τ : Type) where
  prefixer : CyclicPrefixer α τ
  source : String
  input : Record α τ := {}
  ends : Record UInt8 τ := {}
  output : Record α τ := {}

/-- What can happen to a prefixer. -/
inductive Event (α τ : Type) where
  | input (e : Inlet.Event α τ)
  | ends (e : Inlet.Event UInt8 τ)
  | output (e : Outlet.Event)
  | work

section Run

variable [Inhabited α]

/-- A session after an event. -/
def Session.act (s : Session α τ) : Event α τ → Except Fault (Session α τ)
  | .input e => do
    let (p, r) ← s.prefixer.input.meet s.input e
    return { s with prefixer := { s.prefixer with input := p }, input := r }
  | .ends e => do
    let (p, r) ← s.prefixer.ends.meet s.ends e
    return { s with prefixer := { s.prefixer with ends := p }, ends := r }
  | .output e => do
    let (p, r) ← s.prefixer.output.meet s.output e
    return { s with prefixer := { s.prefixer with output := p }, output := r }
  | .work => do
    let (b, _) ← s.prefixer.work s.source
    return { s with prefixer := b }

/-- A session after several events. -/
def Session.run (s : Session α τ) (events : List (Event α τ)) : Except Fault (Session α τ) :=
  events.foldlM Session.act s

/-- The marks of the burst ends among the first `n` symbols, if the ends are known of. -/
def marks (b : CyclicPrefixer α τ) (source : String) (n : Nat) : List (Tag τ) :=
  if b.ends.connected then b.endTags source n else []

/-- **What a call of work does.** -/
theorem work_eq_ok_iff {b d : CyclicPrefixer α τ} {source : String} {finished : Bool} :
    b.work source = .ok (d, finished) ↔
      ∃ symbols samples output input ends, b.input.firstItems b.ready = .ok symbols ∧
        symbols.mapM (extended b.prefixLength) = .ok samples ∧
        (b.output.attachAll (b.movedTags b.ready ++ b.marks source b.ready)).put samples.flatten =
          .ok output ∧
        b.input.consume b.ready = .ok input ∧
        (if b.ends.connected then b.ends.consume b.ready else .ok b.ends) = .ok ends ∧
        d = { b with input, ends, output } ∧ finished = (input.closed && input.items == 0) := by
  have hends : ∀ {f : Inlet UInt8 τ → Except Fault (CyclicPrefixer α τ × Bool)},
      (if b.ends.connected then b.ends.consume b.ready >>= f else pure b.ends >>= f) =
        (if b.ends.connected then b.ends.consume b.ready else .ok b.ends) >>= f := by
    intro f
    split <;> rfl
  rw [work]
  simp only [marks, hends, Fault.bind_eq_ok_iff, Fault.pure_eq_ok_iff, Prod.mk.injEq]
  constructor
  · rintro ⟨symbols, hsymbols, samples, hsamples, output, houtput, input, hinput, ends, hends, hd,
      hfinished⟩
    exact ⟨symbols, samples, output, input, ends, hsymbols, hsamples, houtput, hinput, hends,
      hd.symm, hfinished.symm⟩
  · rintro ⟨symbols, samples, output, input, ends, hsymbols, hsamples, houtput, hinput, hends, hd,
      hfinished⟩
    exact ⟨symbols, hsymbols, samples, hsamples, output, houtput, input, hinput, ends, hends,
      hd.symm, hfinished.symm⟩

/-- **What every event preserves, a session preserves.** -/
theorem Session.run_induct {P : Session α τ → Prop}
    (input : ∀ s p r e, P s → s.prefixer.input.meet s.input e = .ok (p, r) →
      P { s with prefixer := { s.prefixer with input := p }, input := r })
    (ends : ∀ s p r e, P s → s.prefixer.ends.meet s.ends e = .ok (p, r) →
      P { s with prefixer := { s.prefixer with ends := p }, ends := r })
    (output : ∀ s p r e, P s → s.prefixer.output.meet s.output e = .ok (p, r) →
      P { s with prefixer := { s.prefixer with output := p }, output := r })
    (work : ∀ s d finished, P s → s.prefixer.work s.source = .ok (d, finished) →
      P { s with prefixer := d })
    {s t : Session α τ} {events : List (Event α τ)} (hs : P s) (h : s.run events = .ok t) :
    P t := by
  refine Fault.foldlM_induct (fun s e t hs h => ?_) hs h
  cases e with
  | input e =>
    obtain ⟨⟨p, r⟩, hmeet, rfl⟩ := Fault.exists_of_bind_pure h
    exact input s p r e hs hmeet
  | ends e =>
    obtain ⟨⟨p, r⟩, hmeet, rfl⟩ := Fault.exists_of_bind_pure h
    exact ends s p r e hs hmeet
  | output e =>
    obtain ⟨⟨p, r⟩, hmeet, rfl⟩ := Fault.exists_of_bind_pure h
    exact output s p r e hs hmeet
  | work =>
    obtain ⟨⟨d, finished⟩, hwork, rfl⟩ := Fault.exists_of_bind_pure h
    exact work s d finished hs hwork

end Run

end CyclicPrefixer

end OfdmBurst
