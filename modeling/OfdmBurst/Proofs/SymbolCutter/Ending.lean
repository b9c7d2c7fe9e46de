import OfdmBurst.Proofs.Stream.Ending
import OfdmBurst.Proofs.SymbolCutter.Progress

/-!
# The end of a cutter

A cutter finishes when less than a window is left and the samples or the triggers have ended. As for
a receiver, that is the end if less than a window is left of a stream that has ended, and otherwise
it is not.

## Main definitions

* `Session.Exhausted`, `Session.Starved` — the two ways to finish
* `Session.Able` — what else a further look needs

## Main results

* `Session.finished_cases` — a cutter that finishes is exhausted or starved
* `Session.atRest_of_exhausted` — an exhausted cutter has cut all it can
* `Session.resumes` — any other one can go on
-/

namespace OfdmBurst

namespace SymbolCutter

variable {α τ : Type}

namespace Session

/-- The events after which a cutter may still be asked to go on. -/
def Admits (s : Session α τ) : Event α τ → Prop
  | .samples e => s.cutter.samples.Admits e
  | .triggers e => s.cutter.triggers.Admits e
  | .symbols _ => True
  | .flags _ => True
  | .work _ => True

/-- How far a cutter has come. -/
def progress (s : Session α τ) : Progress where
  consumed := [s.cutter.samples.read, s.cutter.triggers.read]
  produced := [s.cutter.symbols.written, s.cutter.flags.written]

/-- One of the streams has ended, and less than a window of it is left. -/
def Exhausted (s : Session α τ) : Prop :=
  s.cutter.samples.Spent s.cutter.window ∨ s.cutter.triggers.Spent s.cutter.window

/-- A window of one of the streams waits for the other. -/
def Starved (s : Session α τ) : Prop :=
  s.cutter.samples.Stocked s.cutter.window ∧ s.cutter.triggers.Waits s.cutter.window ∨
    s.cutter.triggers.Stocked s.cutter.window ∧ s.cutter.samples.Waits s.cutter.window

section Run

variable [Inhabited α] [Rounded τ] {s : Session α τ} {source : String}

/-- There is room for a symbol, and what a cut computes fits its words: the length of a preamble, and
the times over one more window. The strict policy would make a cutter fail. -/
def Able (s : Session α τ) : Prop :=
  s.cutter.symbols.room ≠ 0 ∧ s.cutter.flags.room ≠ 0 ∧ s.cutter.options.policy ≠ .strict ∧
    s.cutter.options.preamble * s.cutter.options.symbol < wordLimit ∧
    TimesFit (s.samples.append 1 (List.replicate s.cutter.window default) [])
      s.cutter.options.bandwidth

instance running : Running (Session α τ) (Event α τ) where
  act := act
  admits := Admits
  calls e := ∃ source, e = .work source
  progress := progress
  exhausted := Exhausted
  starved := Starved
  able := Able

/-! ### Finishing -/

/-- A call of work finishes only in front of an incomplete window of a stream that has ended. -/
theorem drain_finished {queue : MessageQueue} {n : Nat} {c : SymbolCutter α τ}
    {turn : Turn (SymbolCutter α τ)} (hn : n = c.available)
    (h : c.drain source queue n = .ok turn) (hfinished : turn.finished = true) :
    turn.block.available < turn.block.window ∧
      (turn.block.samples.closed = true ∨ turn.block.triggers.closed = true) := by
  induction n using Nat.strongRecOn generalizing c with
  | ind n ih =>
    rw [drain] at h
    split at h
    next hwindow =>
      cases h
      exact ⟨hn ▸ hwindow, Bool.or_eq_true_iff.1 hfinished⟩
    next hwindow =>
      split at h
      · cases h
        cases hfinished
      · split at h
        · cases h
        · cases h
          cases hfinished
        next d used hstep =>
          have hpos := used.property
          have hwin : 0 < c.window := Nat.succ_pos _
          refine ih (n - used.val) (by omega) ?_ h
          rw [(step_cases hstep).available_eq, hn]

/-- **A cutter that finishes is exhausted or starved.** -/
theorem finished_cases {queue : MessageQueue} {turn : Turn (SymbolCutter α τ)}
    (h : s.cutter.work source queue = .ok turn) (hfinished : turn.finished = true) :
    let t := { s with cutter := turn.block }
    t.Exhausted ∨ ¬ t.Exhausted ∧ t.Starved := by
  obtain ⟨_, -, hdrain⟩ := Fault.bind_eq_ok_iff.1 h
  obtain ⟨hlt, hclosed⟩ := drain_finished rfl hdrain hfinished
  exact Inlet.spent_or_waits hlt hclosed

/-- A call of work that returns has found its window to fit a word. -/
theorem window_lt_of_work {queue : MessageQueue} {turn : Turn (SymbolCutter α τ)}
    (h : s.cutter.work source queue = .ok turn) : turn.block.window < wordLimit := by
  obtain ⟨_, hword, -⟩ := Fault.bind_eq_ok_iff.1 h
  rw [window, options_eq_of_work h]
  exact (Fault.word_eq_ok_iff.1 hword).1

/-! ### The end -/

theorem act_work_of_exhausted (h : s.Exhausted) (hwindow : s.cutter.window < wordLimit)
    (source : String) : s.act (.work source) = .ok s := by
  have havailable : s.cutter.available < s.cutter.window := by
    rw [available]
    rcases h with ⟨-, h⟩ | ⟨-, h⟩ <;> omega
  have hwork : s.cutter.work source {} = .ok { block := s.cutter, queue := {}, finished :=
      s.cutter.samples.closed || s.cutter.triggers.closed } := by
    refine Fault.bind_eq_ok_iff.2 ⟨_, Fault.word_ok hwindow, ?_⟩
    rw [drain, dif_pos havailable]
  exact Fault.bind_eq_ok_iff.2 ⟨_, hwork, rfl⟩

/-- **An exhausted cutter has cut all it can.** -/
theorem atRest_of_exhausted (h : s.Exhausted) (hwindow : s.cutter.window < wordLimit) :
    AtRest s := by
  refine atRest_of_frozen (P := fun t => t.cutter.window = s.cutter.window ∧
    (s.cutter.samples.Spent s.cutter.window → t.cutter.samples.Spent s.cutter.window) ∧
      (s.cutter.triggers.Spent s.cutter.window → t.cutter.triggers.Spent s.cutter.window))
    ⟨rfl, id, id⟩ ?_ ?_
  · rintro t u e ⟨hsame, hsamples, htriggers⟩ hcall hadmits hact
    cases e with
    | samples e =>
      obtain ⟨⟨p, r⟩, hmeet, rfl⟩ := Fault.exists_of_bind_pure hact
      refine ⟨⟨hsame, Inlet.spent_meet hsamples hadmits hmeet, htriggers⟩, ?_⟩
      simp only [Running.progress, progress, Inlet.read_meet hmeet]
    | triggers e =>
      obtain ⟨⟨p, r⟩, hmeet, rfl⟩ := Fault.exists_of_bind_pure hact
      refine ⟨⟨hsame, hsamples, Inlet.spent_meet htriggers hadmits hmeet⟩, ?_⟩
      simp only [Running.progress, progress, Inlet.read_meet hmeet]
    | symbols e =>
      obtain ⟨⟨p, r⟩, hmeet, rfl⟩ := Fault.exists_of_bind_pure hact
      refine ⟨⟨hsame, hsamples, htriggers⟩, ?_⟩
      simp only [Running.progress, progress, Outlet.written_meet hmeet]
    | flags e =>
      obtain ⟨⟨p, r⟩, hmeet, rfl⟩ := Fault.exists_of_bind_pure hact
      refine ⟨⟨hsame, hsamples, htriggers⟩, ?_⟩
      simp only [Running.progress, progress, Outlet.written_meet hmeet]
    | work source => exact absurd ⟨source, rfl⟩ hcall
  · rintro t e ⟨hsame, hsamples, htriggers⟩ ⟨source, rfl⟩
    refine act_work_of_exhausted ?_ (hsame ▸ hwindow) source
    rw [Exhausted, hsame]
    exact h.imp hsamples htriggers

/-! ### No end -/

/-- A call of work that finds a window, and room, uses up a sample if it does not fail. -/
theorem read_lt_of_work {queue : MessageQueue} {c : SymbolCutter α τ}
    {turn : Turn (SymbolCutter α τ)} (h : c.work source queue = .ok turn) (hready : c.Ready)
    (hok : turn.failure = none) : c.samples.read < turn.block.samples.read := by
  obtain ⟨_, -, hdrain⟩ := Fault.bind_eq_ok_iff.1 h
  have hwindow : ¬ c.available < c.window := Nat.not_lt.2 hready.1
  have hroom : ¬ (c.symbols.room = 0 ∨ c.flags.room = 0) := not_or.2 hready.2
  rw [drain, dif_neg hwindow, if_neg hroom] at hdrain
  split at hdrain
  · cases hdrain
  · cases hdrain
    cases hok
  next d used hstep =>
    have hmoves (c d : SymbolCutter α τ) (used : Nat) (hstep : Step c source d used) :
        d.samples.read = c.samples.read + used := (Inlet.consume_frame hstep.consumed.1).2
    have hmoved := step_cases hstep
    have hpos := used.property
    refine drain_induct (P := fun e => c.samples.read < e.samples.read) ?_
      hmoved.available_eq.symm ?_ hdrain
    · intro d e used hd _ hstep
      rw [hmoves d e used hstep]
      omega
    · rw [hmoves c d used.val hmoved]
      omega

/-- A cutter works and does not fail, if what it computes fits its words. -/
theorem work_succeeds {o : CutterOptions τ} {c : SymbolCutter α τ} (hbuild : o.build = .ok c)
    {events : List (Event α τ)} (hrun : (start c).run events = .ok s)
    (hwindow : s.cutter.window < wordLimit) (hpolicy : o.policy ≠ .strict)
    (hfits : o.preamble * o.symbol < wordLimit) (htimes : TimesFit s.samples o.bandwidth)
    (source : String) (queue : MessageQueue) :
    ∃ turn, s.cutter.work source queue = .ok turn ∧ turn.failure = none := by
  obtain ⟨_, hsound⟩ := exists_sound hbuild hrun
  rw [window, hsound.options] at hwindow
  obtain ⟨turn, hturn, hfailure⟩ := exists_work hbuild hrun hwindow hfits htimes source queue
  refine ⟨turn, hturn, ?_⟩
  by_contra hfailed
  exact hpolicy (hfailure hfailed)

/-- **A cutter that is not exhausted can go on**, if there is room for a symbol: a window of samples
and triggers, or of those of them that have not ended, is enough. -/
theorem resumes {o : CutterOptions τ} {c : SymbolCutter α τ} (hbuild : o.build = .ok c)
    {events : List (Event α τ)} (hrun : (start c).run events = .ok s) (h : ¬ s.Exhausted)
    (hwindow : s.cutter.window < wordLimit) (hable : s.Able) : Resumes s := by
  obtain ⟨_, hsound⟩ := exists_sound hbuild hrun
  obtain ⟨hsymbols, hflags, hpolicy, hfits, htimes⟩ := hable
  rw [hsound.options] at hpolicy hfits htimes
  rw [Exhausted, not_or] at h
  obtain ⟨samples, r, hsamples, hitems, hrecord⟩ := Inlet.meet_topUp h.1 s.samples
  obtain ⟨triggers, r', htriggers, hitems', -⟩ := Inlet.meet_topUp h.2 s.triggers
  have hfirst : s.act (.samples (s.cutter.samples.topUp s.cutter.window)) = .ok
      { s with cutter := { s.cutter with samples }, samples := r } :=
    Fault.bind_eq_ok_iff.2 ⟨_, hsamples, rfl⟩
  have hsecond : ({ s with cutter := { s.cutter with samples }, samples := r } :
      Session α τ).act (.triggers (s.cutter.triggers.topUp s.cutter.window)) = .ok
      { s with cutter := { s.cutter with samples, triggers }, samples := r, triggers := r' } :=
    Fault.bind_eq_ok_iff.2 ⟨_, htriggers, rfl⟩
  have htimes' : TimesFit r o.bandwidth := by
    rcases hrecord with rfl | rfl
    · exact htimes.of_append
    · rw [hsound.samples_width, Nat.mul_one]
      exact htimes
  obtain ⟨turn, hturn, hok⟩ := work_succeeds hbuild
    (Fault.foldlM_concat (Fault.foldlM_concat hrun hfirst) hsecond) hwindow hpolicy hfits htimes' "" {}
  have hread : s.cutter.samples.read < turn.block.samples.read := by
    have hmoved := read_lt_of_work hturn ⟨Nat.le_min.2 ⟨hitems, hitems'⟩, hsymbols, hflags⟩ hok
    rwa [Inlet.read_meet hsamples] at hmoved
  refine ⟨[.samples (s.cutter.samples.topUp s.cutter.window),
      .triggers (s.cutter.triggers.topUp s.cutter.window), .work ""],
    { s with cutter := turn.block, samples := r, triggers := r' }, ?_, ?_, ?_⟩
  · simp [Running.admits, Admits, Inlet.admits_topUp]
  · simp only [Running.act, List.foldlM_cons, List.foldlM_nil, Fault.bind_eq_ok_iff,
      Fault.pure_eq_ok_iff]
    exact ⟨_, hfirst, _, hsecond, _, Fault.bind_eq_ok_iff.2 ⟨_, hturn, rfl⟩, rfl⟩
  · intro hsame
    have hconsumed := congrArg Progress.consumed hsame
    simp only [Running.progress, progress, List.cons.injEq] at hconsumed
    omega

end Run

end Session

end SymbolCutter

end OfdmBurst
