import OfdmBurst.Proofs.FrameReceiver.Refinement
import OfdmBurst.Proofs.Stream.Ending

/-!
# The end of a receiver

A receiver finishes when no symbol is left together with its flag and one of the two streams has
ended. Whether that is the end depends on which of them it is. If the stream that has ended is the
one that has nothing left, no further symbol will ever be complete. But if it still has symbols, or
flags, then these wait for those of the other one.

## Main definitions

* `Session.Exhausted`, `Session.Starved` — the two ways to finish
* `Session.Able` — what else a further symbol needs

## Main results

* `Session.finished_cases` — a receiver that finishes is exhausted or starved
* `Session.atRest_of_exhausted` — an exhausted receiver has received all it can
* `Session.resumes` — any other one can go on
-/

namespace OfdmBurst

namespace FrameReceiver

namespace Session

/-- The events after which a receiver may still be asked to go on. -/
def Admits (s : Session) : Event → Prop
  | .symbols e => s.receiver.symbols.Admits e
  | .flags e => s.receiver.flags.Admits e
  | .derotated _ => True
  | .dequeue => True
  | .work => True

/-- How far a receiver has come. A message in the queue is handed on, taken or not. -/
def progress (s : Session) : Progress where
  consumed := [s.receiver.symbols.read, s.receiver.flags.read]
  produced := [s.receiver.derotated.written]
  messages := s.taken ++ s.queue.messages

/-- One of the streams has ended, and nothing of it is left. -/
def Exhausted (s : Session) : Prop := s.receiver.symbols.Spent 1 ∨ s.receiver.flags.Spent 1

/-- What is left of one of the streams waits for the other. -/
def Starved (s : Session) : Prop :=
  s.receiver.symbols.Stocked 1 ∧ s.receiver.flags.Waits 1 ∨
    s.receiver.flags.Stocked 1 ∧ s.receiver.symbols.Waits 1

/-- There is room for what a symbol shows, and a symbol shows no more than it has. -/
def Able (s : Session) : Prop :=
  s.receiver.decoder.map.size ≤ s.receiver.decoder.map.occupied ∧
    ¬ (s.receiver.derotated.connected ∧ s.receiver.derotated.room = 0)

instance running : Running Session Event where
  act := act
  admits := Admits
  calls e := e = .work
  progress := progress
  exhausted := Exhausted
  starved := Starved
  able := Able

variable {s : Session}

/-! ### Finishing -/

/-- A call of work finishes only in front of an incomplete symbol of a stream that has ended. -/
theorem drain_finished {n : Nat} {r : FrameReceiver} {queue : MessageQueue}
    {turn : Turn FrameReceiver} (hn : n = r.available) (h : drain n r queue = .ok turn)
    (hfinished : turn.finished = true) :
    turn.block.available = 0 ∧
      (turn.block.symbols.closed = true ∨ turn.block.flags.closed = true) := by
  induction n generalizing r queue with
  | zero =>
    cases h
    exact ⟨hn.symm, Bool.or_eq_true_iff.1 hfinished⟩
  | succ n ih =>
    rw [drain] at h
    split at h
    · cases h
      cases hfinished
    · obtain ⟨⟨next, queue'⟩, hstep, hrest⟩ := Fault.bind_eq_ok_iff.1 h
      exact ih (by rw [(step_cases hstep).available_eq]; omega) hrest

/-- **A receiver that finishes is exhausted or starved.** -/
theorem finished_cases {turn : Turn FrameReceiver} (h : s.receiver.work s.queue = .ok turn)
    (hfinished : turn.finished = true) :
    let t := { s with receiver := turn.block, queue := turn.queue }
    t.Exhausted ∨ ¬ t.Exhausted ∧ t.Starved := by
  obtain ⟨havailable, hclosed⟩ := drain_finished rfl h hfinished
  rw [available] at havailable
  have hlt : min turn.block.symbols.items turn.block.flags.items < 1 := by omega
  exact Inlet.spent_or_waits hlt hclosed

/-! ### The end -/

theorem act_work_of_exhausted (h : s.Exhausted) : s.act .work = .ok s := by
  have havailable : s.receiver.available = 0 := by
    rw [available]
    rcases h with ⟨-, h⟩ | ⟨-, h⟩ <;> omega
  rw [act, work, havailable]
  rfl

/-- **An exhausted receiver has received all it can.** -/
theorem atRest_of_exhausted (h : s.Exhausted) : AtRest s := by
  -- The stream that has nothing left is known, so what happens to the other one does not matter.
  refine atRest_of_frozen (P := fun t =>
    (s.receiver.symbols.Spent 1 → t.receiver.symbols.Spent 1) ∧
      (s.receiver.flags.Spent 1 → t.receiver.flags.Spent 1)) ⟨id, id⟩ ?_ ?_
  · rintro t u e ⟨hsymbols, hflags⟩ hcall hadmits hact
    cases e with
    | symbols e =>
      obtain ⟨⟨p, r⟩, hmeet, rfl⟩ := Fault.exists_of_bind_pure hact
      refine ⟨⟨Inlet.spent_meet hsymbols hadmits hmeet, hflags⟩, ?_⟩
      simp only [Running.progress, progress, Inlet.read_meet hmeet]
    | flags e =>
      obtain ⟨⟨p, r⟩, hmeet, rfl⟩ := Fault.exists_of_bind_pure hact
      refine ⟨⟨hsymbols, Inlet.spent_meet hflags hadmits hmeet⟩, ?_⟩
      simp only [Running.progress, progress, Inlet.read_meet hmeet]
    | derotated e =>
      obtain ⟨⟨p, r⟩, hmeet, rfl⟩ := Fault.exists_of_bind_pure hact
      refine ⟨⟨hsymbols, hflags⟩, ?_⟩
      simp only [Running.progress, progress, Outlet.written_meet hmeet]
    | dequeue =>
      simp only [Running.act, act] at hact
      split at hact
      next m queue hdequeue =>
        cases hact
        refine ⟨⟨hsymbols, hflags⟩, ?_⟩
        have hqueue := (MessageQueue.messages_dequeue? hdequeue).1
        simp only [Running.progress, progress, hqueue, List.append_assoc, List.singleton_append]
      · cases hact
        exact ⟨⟨hsymbols, hflags⟩, rfl⟩
    | work => exact absurd rfl hcall
  · rintro t e ⟨hsymbols, hflags⟩ rfl
    exact act_work_of_exhausted (h.imp hsymbols hflags)

/-! ### No end -/

/-- A call of work that finds a symbol with its flag, and room for what it shows, consumes it. -/
theorem read_lt_of_work {r : FrameReceiver} {queue : MessageQueue} {turn : Turn FrameReceiver}
    (h : r.work queue = .ok turn) (havailable : r.available ≠ 0)
    (hroom : ¬ (r.derotated.connected ∧ r.derotated.room = 0)) :
    r.symbols.read < turn.block.symbols.read := by
  obtain ⟨n, hn⟩ := Nat.exists_eq_succ_of_ne_zero havailable
  rw [work, hn, drain, if_neg hroom, Fault.bind_eq_ok_iff] at h
  obtain ⟨⟨next, queue'⟩, hstep, hrest⟩ := h
  have hmoves (r next : FrameReceiver) (queue queue' : MessageQueue)
      (hstep : Step r queue next queue') : next.symbols.read = r.symbols.read + 1 := by
    cases hstep with
    | mk _ _ _ _ consumed => exact (Inlet.consume_frame consumed).2
  refine drain_induct (P := fun d _ => r.symbols.read < d.symbols.read) ?_ ?_ hrest
  · intro d queue e queue' hd hstep
    rw [hmoves d e queue queue' hstep]
    omega
  · rw [hmoves r next queue queue' (step_cases hstep)]
    omega

variable {policy : MissingTagPolicy} {map : CarrierMap} {fresh : Demapper Float32}
  {before : MessageQueue}

/-- **A receiver that is not exhausted can go on**, if there is room for what a symbol shows: one
symbol and one flag, or that one of them whose stream has not ended, are enough. -/
theorem resumes (hsound : s.Sound policy map fresh before) (h : ¬ s.Exhausted) (hable : s.Able) :
    Resumes s := by
  obtain ⟨hmap, hroom⟩ := hable
  rw [hsound.follows.map_eq] at hmap
  rw [Exhausted, not_or] at h
  obtain ⟨symbols, r, hsymbols, hitems, -⟩ := Inlet.meet_topUp h.1 s.symbols
  obtain ⟨flags, r', hflags, hitems', -⟩ := Inlet.meet_topUp h.2 s.flags
  have hfed := (hsound.feedSymbols hsymbols).feedFlags hflags
  have havailable : min symbols.items flags.items ≠ 0 := by omega
  obtain ⟨turn, hturn, -⟩ := hfed.work_returns hmap
  have hread : s.receiver.symbols.read < turn.block.symbols.read := by
    have hmoved := read_lt_of_work hturn havailable hroom
    rwa [Inlet.read_meet hsymbols] at hmoved
  refine ⟨[.symbols (s.receiver.symbols.topUp 1), .flags (s.receiver.flags.topUp 1), .work],
    { s with receiver := turn.block, queue := turn.queue, symbols := r, flags := r' }, ?_, ?_, ?_⟩
  · simp [Running.admits, Admits, Inlet.admits_topUp]
  · simp only [Running.act, List.foldlM_cons, List.foldlM_nil, Fault.bind_eq_ok_iff,
      Fault.pure_eq_ok_iff]
    exact ⟨_, Fault.bind_eq_ok_iff.2 ⟨_, hsymbols, rfl⟩, _, Fault.bind_eq_ok_iff.2 ⟨_, hflags, rfl⟩,
      _, Fault.bind_eq_ok_iff.2 ⟨_, hturn, rfl⟩, rfl⟩
  · intro hsame
    have hconsumed := congrArg Progress.consumed hsame
    simp only [Running.progress, progress, List.cons.injEq] at hconsumed
    omega

end Session

end FrameReceiver

end OfdmBurst
