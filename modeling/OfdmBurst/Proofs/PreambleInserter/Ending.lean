import OfdmBurst.Proofs.PreambleInserter.Refinement
import OfdmBurst.Proofs.Stream.Ending

/-!
# The end of an inserter

An inserter finishes when the symbols have ended and none of them is left together with its flag and
its auxiliary byte. That is the end if there is no further symbol, or if the flags or the auxiliary
bytes have ended as well and none of them is left. Otherwise there are symbols left, and they wait.

## Main definitions

* `Session.Exhausted`, `Session.Starved` — the two ways to finish

## Main results

* `Session.finished_cases` — an inserter that finishes is exhausted or starved
* `Session.atRest_of_exhausted` — an exhausted inserter has passed on all it can
* `Session.resumes` — any other one can go on
-/

namespace OfdmBurst

namespace PreambleInserter

variable {α τ : Type}

namespace Session

/-- The events after which an inserter may still be asked to go on. -/
def Admits (s : Session α τ) : Event α τ → Prop
  | .input e => s.inserter.input.Admits e
  | .starts e => s.inserter.starts.Admits e
  | .auxIn e => s.inserter.auxIn.Admits e
  | .output _ => True
  | .flags _ => True
  | .auxOut _ => True
  | .work => True

/-- How far an inserter has come. -/
def progress (s : Session α τ) : Progress where
  consumed := [s.inserter.input.read, s.inserter.starts.read, s.inserter.auxIn.read]
  produced := [s.inserter.output.written, s.inserter.flags.written, s.inserter.auxOut.written]

/-- One of the streams has ended, and nothing of it is left. -/
def Exhausted (s : Session α τ) : Prop :=
  s.inserter.input.Spent 1 ∨ s.inserter.starts.Spent 1 ∨ s.inserter.auxIn.Spent 1

/-- The symbols that are left, and no others will come, wait for their flags or their bytes. -/
def Starved (s : Session α τ) : Prop :=
  s.inserter.input.Stocked 1 ∧ (s.inserter.starts.Waits 1 ∨ s.inserter.auxIn.Waits 1)

section Run

variable [Inhabited α] {s : Session α τ}

instance running : Running (Session α τ) (Event α τ) where
  act := act
  admits := Admits
  calls e := e = .work
  progress := progress
  exhausted := Exhausted
  starved := Starved
  able s := s.inserter.room ≠ 0

variable {made : PreambleInserter α τ} {emitted : List (Emission α τ)}

/-! ### Finishing -/

/-- **An inserter that finishes is exhausted or starved.** -/
theorem finished_cases (hsound : s.Sound made emitted) {d : PreambleInserter α τ}
    (h : s.inserter.work s.source = .ok (d, true)) :
    let t := { s with inserter := d }
    t.Exhausted ∨ ¬ t.Exhausted ∧ t.Starved := by
  obtain ⟨slots, walk, output, flags, auxOut, input, starts, auxIn, hslots, -, -, -, -, hinput,
    hstarts, hauxIn, rfl, hfinished⟩ := work_eq_ok_iff.1 h
  obtain ⟨hclosed, hrest⟩ := (Bool.and_eq_true_iff).1 hfinished.symm
  obtain ⟨hready, -, hknown⟩ := hsound.slots_eq
  -- Every symbol that was ready was consumed, so one of the three streams has nothing left.
  have hlength : slots.length = min s.inserter.input.items
      (min s.inserter.starts.items s.inserter.auxIn.items) := by
    rw [hknown] at hslots
    cases hslots
    rw [List.length_drop, Sound.length_known, ← hready, ready]
  rw [List.isEmpty_iff.1 hrest, List.length_nil, Nat.sub_zero] at hinput hstarts hauxIn
  have hleft : min input.items (min starts.items auxIn.items) = 0 := by
    rw [Inlet.items_consume hinput, Inlet.items_consume hstarts, Inlet.items_consume hauxIn]
    omega
  by_cases hspent : input.Spent 1 ∨ starts.Spent 1 ∨ auxIn.Spent 1
  · exact .inl hspent
  · refine .inr ⟨hspent, ?_⟩
    rw [not_or, not_or] at hspent
    obtain ⟨hi, hs, ha⟩ := hspent
    have hstocked := Inlet.stocked_of_not_spent hi hclosed
    refine ⟨hstocked, ?_⟩
    by_cases hnone : starts.items < 1
    · exact .inl (Inlet.waits_of_not_spent hs hnone)
    · have hle : 1 ≤ input.items := hstocked.2
      have haux : auxIn.items < 1 := by omega
      exact .inr (Inlet.waits_of_not_spent ha haux)

/-! ### The end -/

theorem act_work_of_exhausted (h : s.Exhausted) : s.act .work = .ok s := by
  have hready : s.inserter.ready = 0 := by
    rw [ready]
    rcases h with ⟨-, h⟩ | ⟨-, h⟩ | ⟨-, h⟩ <;> omega
  have hslots : s.inserter.slots = .ok [] := by
    rw [slots, hready, Inlet.firstItems_ok (Nat.zero_le _)]
    rfl
  have hwalk : advance s.inserter.preamble s.source s.inserter.phase ([] : List (Slot α τ))
      s.inserter.room = { phase := s.inserter.phase, rest := [] } := by
    rw [advance]
  have hwork : s.inserter.work s.source = .ok (s.inserter, s.inserter.input.closed && true) :=
    work_eq_ok_iff.2 ⟨[], _, s.inserter.output, s.inserter.flags, s.inserter.auxOut,
      s.inserter.input, s.inserter.starts, s.inserter.auxIn, hslots, hwalk.symm,
      Outlet.put_attachAll_nil _, Outlet.put_attachAll_nil _, Outlet.put_attachAll_nil _, rfl, rfl,
      rfl, rfl, rfl⟩
  exact Fault.bind_eq_ok_iff.2 ⟨_, hwork, rfl⟩

/-- **An exhausted inserter has passed on all it can.** -/
theorem atRest_of_exhausted (h : s.Exhausted) : AtRest s := by
  refine atRest_of_frozen (P := fun t =>
    (s.inserter.input.Spent 1 → t.inserter.input.Spent 1) ∧
      (s.inserter.starts.Spent 1 → t.inserter.starts.Spent 1) ∧
      (s.inserter.auxIn.Spent 1 → t.inserter.auxIn.Spent 1)) ⟨id, id, id⟩ ?_ ?_
  · rintro t u e ⟨hinput, hstarts, hauxIn⟩ hcall hadmits hact
    cases e with
    | input e =>
      obtain ⟨⟨p, r⟩, hmeet, rfl⟩ := Fault.exists_of_bind_pure hact
      refine ⟨⟨Inlet.spent_meet hinput hadmits hmeet, hstarts, hauxIn⟩, ?_⟩
      simp only [Running.progress, progress, Inlet.read_meet hmeet]
    | starts e =>
      obtain ⟨⟨p, r⟩, hmeet, rfl⟩ := Fault.exists_of_bind_pure hact
      refine ⟨⟨hinput, Inlet.spent_meet hstarts hadmits hmeet, hauxIn⟩, ?_⟩
      simp only [Running.progress, progress, Inlet.read_meet hmeet]
    | auxIn e =>
      obtain ⟨⟨p, r⟩, hmeet, rfl⟩ := Fault.exists_of_bind_pure hact
      refine ⟨⟨hinput, hstarts, Inlet.spent_meet hauxIn hadmits hmeet⟩, ?_⟩
      simp only [Running.progress, progress, Inlet.read_meet hmeet]
    | output e =>
      obtain ⟨⟨p, r⟩, hmeet, rfl⟩ := Fault.exists_of_bind_pure hact
      refine ⟨⟨hinput, hstarts, hauxIn⟩, ?_⟩
      simp only [Running.progress, progress, Outlet.written_meet hmeet]
    | flags e =>
      obtain ⟨⟨p, r⟩, hmeet, rfl⟩ := Fault.exists_of_bind_pure hact
      refine ⟨⟨hinput, hstarts, hauxIn⟩, ?_⟩
      simp only [Running.progress, progress, Outlet.written_meet hmeet]
    | auxOut e =>
      obtain ⟨⟨p, r⟩, hmeet, rfl⟩ := Fault.exists_of_bind_pure hact
      refine ⟨⟨hinput, hstarts, hauxIn⟩, ?_⟩
      simp only [Running.progress, progress, Outlet.written_meet hmeet]
    | work => exact absurd rfl hcall
  · rintro t e ⟨hinput, hstarts, hauxIn⟩ rfl
    exact act_work_of_exhausted (h.imp hinput (Or.imp hstarts hauxIn))

/-! ### No end -/

/-- A call of work that finds a symbol with its flag and its byte, and room, consumes a symbol or
emits one. -/
theorem Sound.lt_of_work (hsound : s.Sound made emitted) {d : PreambleInserter α τ}
    {finished : Bool} (h : s.inserter.work s.source = .ok (d, finished))
    (hready : s.inserter.ready ≠ 0) (hroom : s.inserter.room ≠ 0) :
    s.inserter.input.read < d.input.read ∨ s.inserter.flags.written < d.flags.written := by
  obtain ⟨slots, walk, output, flags, auxOut, input, starts, auxIn, hslots, rfl, -, hflags, -,
    hinput, -, -, rfl, -⟩ := work_eq_ok_iff.1 h
  obtain ⟨hcount, -, hknown⟩ := hsound.slots_eq
  have hlength : slots.length = s.inserter.ready := by
    rw [hknown] at hslots
    cases hslots
    rw [List.length_drop, length_known, ← hcount]
  rcases (advance_stops s.inserter.preamble s.source s.inserter.phase slots s.inserter.room).2
    with hrest | hfull
  · left
    rw [hrest, List.length_nil, Nat.sub_zero] at hinput
    have hread := (Inlet.consume_frame hinput).2
    show s.inserter.input.read < input.read
    omega
  · right
    have hwritten := (hsound.flags.put hflags).2.2.1
    rw [hsound.flags_width, Nat.div_one, List.length_map, hfull] at hwritten
    show s.inserter.flags.written < flags.written
    omega

/-- **An inserter that is not exhausted can go on**, if there is room for a symbol: one symbol with
its flag and its byte, or those of them whose streams have not ended, are enough. -/
theorem resumes (hsound : s.Sound made emitted) (h : ¬ s.Exhausted) (hroom : s.inserter.room ≠ 0) :
    Resumes s := by
  rw [Exhausted, not_or, not_or] at h
  obtain ⟨input, r, hinput, hitems, -⟩ := Inlet.meet_topUp h.1 s.input
  obtain ⟨starts, r', hstarts, hitems', -⟩ := Inlet.meet_topUp h.2.1 s.starts
  obtain ⟨auxIn, r'', hauxIn, hitems'', -⟩ := Inlet.meet_topUp h.2.2 s.auxIn
  have hfed := ((hsound.feedInput hinput).feedStarts hstarts).feedAuxIn hauxIn
  have hready : min input.items (min starts.items auxIn.items) ≠ 0 := by omega
  obtain ⟨d, finished, hwork, -⟩ := hfed.work_returns
  have hmoved : s.inserter.input.read < d.input.read ∨
      s.inserter.flags.written < d.flags.written := by
    have hlt := hfed.lt_of_work hwork hready hroom
    rwa [Inlet.read_meet hinput] at hlt
  refine ⟨[.input (s.inserter.input.topUp 1), .starts (s.inserter.starts.topUp 1),
      .auxIn (s.inserter.auxIn.topUp 1), .work],
    { s with inserter := d, input := r, starts := r', auxIn := r'' }, ?_, ?_, ?_⟩
  · simp [Running.admits, Admits, Inlet.admits_topUp]
  · simp only [Running.act, List.foldlM_cons, List.foldlM_nil, Fault.bind_eq_ok_iff,
      Fault.pure_eq_ok_iff]
    exact ⟨_, Fault.bind_eq_ok_iff.2 ⟨_, hinput, rfl⟩, _, Fault.bind_eq_ok_iff.2 ⟨_, hstarts, rfl⟩,
      _, Fault.bind_eq_ok_iff.2 ⟨_, hauxIn, rfl⟩, _, Fault.bind_eq_ok_iff.2 ⟨_, hwork, rfl⟩, rfl⟩
  · intro hsame
    have hconsumed := congrArg Progress.consumed hsame
    have hproduced := congrArg Progress.produced hsame
    simp only [Running.progress, progress, List.cons.injEq] at hconsumed hproduced
    omega

end Run

end Session

end PreambleInserter

end OfdmBurst
