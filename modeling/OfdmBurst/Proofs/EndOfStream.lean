import OfdmBurst.Proofs.FrameReceiver.Ending
import OfdmBurst.Proofs.PreambleInserter.Ending
import OfdmBurst.Proofs.SymbolCutter.Ending

/-!
# Finishing at the end and before it

The receiver, the cutter and the inserter have several inlets, and each of these ends on its own.
They compare the items of all inlets with what they need next, and ask one or any of them whether it
has ended. So they finish in two cases. Either an inlet that has ended is the one that is short, and
then nothing more will happen whatever is pushed to the others. Or the inlet that is short has not
ended, and then the block goes on when its items come.

Whoever does not call a finished block again loses what is left in the second case. A block with one
inlet, or one that asks the inlet that is short, has the first case only.

## Main definitions

* `Finished` — the sessions of the three blocks after a call of work that finishes

## Main results

* `Finished.atRest_or_starved` — the end, or a block that can go on
* `finishes_early` — sessions of the second kind
-/

namespace OfdmBurst

/-- A session as it is after a call of work that finishes, of one of the three blocks with several
inlets. Whatever came before, it started with a block that was just built. -/
inductive Finished : {S E : Type} → [Running S E] → S → Prop
  | receiver {o : ReceiverOptions} {r : FrameReceiver} {queue : MessageQueue}
      {events : List FrameReceiver.Event} {s : FrameReceiver.Session} {turn : Turn FrameReceiver}
      (built : o.build = .ok r) (reached : (FrameReceiver.Session.start r queue).run events = .ok s)
      (worked : s.receiver.work s.queue = .ok turn) (finished : turn.finished = true) :
      Finished { s with receiver := turn.block, queue := turn.queue }
  | cutter {α τ : Type} [Inhabited α] [Rounded τ] {o : CutterOptions τ} {c : SymbolCutter α τ}
      {events : List (SymbolCutter.Event α τ)} {s : SymbolCutter.Session α τ} {source : String}
      {turn : Turn (SymbolCutter α τ)} (built : o.build = .ok c)
      (reached : (SymbolCutter.Session.start c).run events = .ok s)
      (worked : s.cutter.work source {} = .ok turn) (finished : turn.finished = true) :
      Finished { s with cutter := turn.block }
  | inserter {α τ : Type} [Inhabited α] {length : Nat} {preamble : List (List α)} {source : String}
      {made : PreambleInserter α τ} {events : List (PreambleInserter.Event α τ)}
      {s : PreambleInserter.Session α τ} {d : PreambleInserter α τ}
      (built : PreambleInserter.ofPreamble length preamble = .ok made)
      (reached : (PreambleInserter.Session.start made source).run events = .ok s)
      (finished : s.inserter.work s.source = .ok (d, true)) :
      Finished { s with inserter := d }

open Running in
/-- **A block that finishes is at its end, or starved.** If an inlet that has ended is short of what
the block needs next, then nothing is consumed, produced or handed on from there on, whatever is
pushed to the inlets that have not ended, and however room is granted and work is called. Otherwise
an inlet that has not ended is short, what is left at another one waits for it, and the block can go
on. -/
theorem Finished.atRest_or_starved {S E : Type} [Running S E] {t : S} (h : Finished t) :
    exhausted t ∧ AtRest t ∨ ¬ exhausted t ∧ starved t ∧ (able t → Resumes t) := by
  cases h with
  | @receiver o r queue events s turn built reached worked finished =>
    rcases FrameReceiver.Session.finished_cases worked finished with hend | ⟨hnot, hstarved⟩
    · exact .inl ⟨hend, FrameReceiver.Session.atRest_of_exhausted hend⟩
    · refine .inr ⟨hnot, hstarved, fun hable => ?_⟩
      obtain ⟨-, hstart⟩ := FrameReceiver.Session.sound_start built queue
      have hact : s.act .work = .ok { s with receiver := turn.block, queue := turn.queue } :=
        Fault.bind_eq_ok_iff.2 ⟨turn, worked, rfl⟩
      have hsound := FrameReceiver.Session.sound hstart (Fault.foldlM_concat reached hact)
      exact FrameReceiver.Session.resumes hsound hnot hable
  | @cutter α τ _ _ o c events s source turn built reached worked finished =>
    have hwindow := SymbolCutter.Session.window_lt_of_work worked
    rcases SymbolCutter.Session.finished_cases worked finished with hend | ⟨hnot, hstarved⟩
    · exact .inl ⟨hend, SymbolCutter.Session.atRest_of_exhausted hend hwindow⟩
    · refine .inr ⟨hnot, hstarved, fun hable => ?_⟩
      have hact : s.act (.work source) = .ok { s with cutter := turn.block } :=
        Fault.bind_eq_ok_iff.2 ⟨turn, worked, rfl⟩
      exact SymbolCutter.Session.resumes built (Fault.foldlM_concat reached hact) hnot hwindow hable
  | inserter built reached finished =>
    obtain ⟨emitted, hsound⟩ := PreambleInserter.Session.exists_sound built reached
    rcases PreambleInserter.Session.finished_cases hsound finished with hend | ⟨hnot, hstarved⟩
    · exact .inl ⟨hend, PreambleInserter.Session.atRest_of_exhausted hend⟩
    · refine .inr ⟨hnot, hstarved, fun hroom => ?_⟩
      obtain ⟨more, hworked⟩ := hsound.work finished
      exact PreambleInserter.Session.resumes hworked hnot hroom

/-! ### Sessions of both kinds

Whether a session finishes, and what holds of it then, can be computed. -/

theorem FrameReceiver.Session.exists_finished (o : ReceiverOptions) (events : List Event)
    (p : Session → Bool)
    (h : (o.build.toOption.any fun r => ((start r {}).run events).toOption.any fun s =>
      (s.receiver.work s.queue).toOption.any fun turn =>
        turn.finished && p { s with receiver := turn.block, queue := turn.queue }) = true) :
    ∃ r s turn, o.build = .ok r ∧ (start r {}).run events = .ok s ∧
      s.receiver.work s.queue = .ok turn ∧ turn.finished = true ∧
      p { s with receiver := turn.block, queue := turn.queue } = true := by
  obtain ⟨r, hbuild, h⟩ := Fault.exists_ok_of_any h
  obtain ⟨s, hrun, h⟩ := Fault.exists_ok_of_any h
  obtain ⟨turn, hturn, h⟩ := Fault.exists_ok_of_any h
  rw [Bool.and_eq_true] at h
  exact ⟨r, s, turn, hbuild, hrun, hturn, h.1, h.2⟩

theorem SymbolCutter.Session.exists_finished {α τ : Type} [Inhabited α] [Rounded τ]
    (o : CutterOptions τ) (events : List (Event α τ)) (source : String) (p : Session α τ → Bool)
    (h : (o.build.toOption.any fun c => ((start c).run events).toOption.any fun s =>
      (s.cutter.work source {}).toOption.any fun turn =>
        turn.finished && p { s with cutter := turn.block }) = true) :
    ∃ c s turn, o.build = .ok c ∧ (start c).run events = .ok s ∧
      s.cutter.work source {} = .ok turn ∧ turn.finished = true ∧
      p { s with cutter := turn.block } = true := by
  obtain ⟨c, hbuild, h⟩ := Fault.exists_ok_of_any h
  obtain ⟨s, hrun, h⟩ := Fault.exists_ok_of_any h
  obtain ⟨turn, hturn, h⟩ := Fault.exists_ok_of_any h
  rw [Bool.and_eq_true] at h
  exact ⟨c, s, turn, hbuild, hrun, hturn, h.1, h.2⟩

theorem PreambleInserter.Session.exists_finished {α τ : Type} [Inhabited α] (length : Nat)
    (preamble : List (List α)) (source : String) (events : List (Event α τ))
    (p : Session α τ → Bool)
    (h : ((ofPreamble length preamble : Except FramingError (PreambleInserter α τ)).toOption.any
      fun made => ((start made source).run events).toOption.any fun s =>
        (s.inserter.work s.source).toOption.any fun turn =>
          turn.2 && p { s with inserter := turn.1 }) = true) :
    ∃ made s d, ofPreamble length preamble = .ok made ∧
      (start made source).run events = .ok s ∧ s.inserter.work s.source = .ok (d, true) ∧
      p { s with inserter := d } = true := by
  obtain ⟨made, hmade, h⟩ := Fault.exists_ok_of_any h
  obtain ⟨s, hrun, h⟩ := Fault.exists_ok_of_any h
  obtain ⟨⟨d, finished⟩, hwork, h⟩ := Fault.exists_ok_of_any h
  simp only [Bool.and_eq_true] at h
  obtain ⟨rfl, h⟩ := h
  exact ⟨made, s, d, hmade, hrun, hwork, h⟩

/-- A receiver of symbols of two samples, both of them data. -/
def twoSamples : ReceiverOptions where
  constellation := .bpsk
  occupied := 2
  map := some ⟨[0, 1], 2, by decide, by decide⟩

/-- One flag, and no other will come. -/
def lastFlag : List FrameReceiver.Event := [.flags (.push [1] []), .flags .close]

/-- The symbol of that flag. -/
def lateSymbol : List FrameReceiver.Event :=
  [.symbols (.push [⟨1, 0⟩, ⟨0, 1⟩] []), .work]

/-- A cutter of symbols of one sample without a prefix, with a window of three. -/
def shortSymbols : CutterOptions Float := { fft := 1, symbol := 1, bandwidth := 1 }

/-- Room, three triggers, and no others will come. -/
def lastTriggers : List (SymbolCutter.Event Sample Float) :=
  [.symbols (.reserve 4), .flags (.reserve 4), .triggers (.push [0, 0, 0] []), .triggers .close]

/-- The samples of those triggers. -/
def lateSamples : List (SymbolCutter.Event Sample Float) :=
  [.samples (.push [⟨1, 0⟩, ⟨2, 0⟩, ⟨3, 0⟩] []), .work "cutter"]

/-- Room, one symbol, and no other will come. -/
def lastSymbol : List (PreambleInserter.Event Sample Float) :=
  [.output (.reserve 4), .flags (.reserve 4), .auxOut (.reserve 4), .input (.push [⟨1, 0⟩] []),
    .input .close]

/-- The flag and the byte of that symbol. -/
def lateFlag : List (PreambleInserter.Event Sample Float) :=
  [.starts (.push [1] []), .auxIn (.push [0] []), .work]

/-- One symbol and its flag, and no others will come. -/
def lastPair : List FrameReceiver.Event :=
  [.symbols (.push [⟨1, 0⟩, ⟨0, 1⟩] []), .flags (.push [1] []), .symbols .close, .flags .close]

/-- Less than a window of triggers, and no others will come. -/
def lastTrigger : List (SymbolCutter.Event Sample Float) :=
  [.triggers (.push [0] []), .triggers .close]

theorem Finished.atRest_or_starved_each :
    (∃ r s turn, twoSamples.build = .ok r ∧
      (FrameReceiver.Session.start r {}).run lastPair = .ok s ∧
      s.receiver.work s.queue = .ok turn ∧ turn.finished = true ∧
      AtRest { s with receiver := turn.block, queue := turn.queue }) ∧
    (∃ c s turn, shortSymbols.build = .ok c ∧
      (SymbolCutter.Session.start c).run lastTrigger = .ok s ∧
      s.cutter.work "cutter" {} = .ok turn ∧ turn.finished = true ∧
      AtRest { s with cutter := turn.block }) ∧
    ∃ made s d, PreambleInserter.ofPreamble 1 [[⟨7, 0⟩]] = .ok made ∧
      (PreambleInserter.Session.start made "inserter").run lastSymbol = .ok s ∧
      s.inserter.work s.source = .ok (d, true) ∧ Resumes { s with inserter := d } := by
  refine ⟨?_, ?_, ?_⟩
  · obtain ⟨r, s, turn, hbuild, hrun, hturn, hfinished, h⟩ :=
      FrameReceiver.Session.exists_finished twoSamples lastPair
        (fun t => t.receiver.flags.closed && t.receiver.flags.items == 0) (by decide +kernel)
    simp only [Bool.and_eq_true, beq_iff_eq] at h
    obtain ⟨hclosed, hnone⟩ := h
    refine ⟨r, s, turn, hbuild, hrun, hturn, hfinished, ?_⟩
    rcases Finished.atRest_or_starved (.receiver hbuild hrun hturn hfinished) with
      ⟨-, hrest⟩ | ⟨hnot, -⟩
    · exact hrest
    · exact absurd (.inr ⟨hclosed, Nat.lt_one_iff.2 hnone⟩) hnot
  · obtain ⟨c, s, turn, hbuild, hrun, hturn, hfinished, h⟩ :=
      SymbolCutter.Session.exists_finished shortSymbols lastTrigger "cutter"
        (fun t => t.cutter.triggers.closed && decide (t.cutter.triggers.items < t.cutter.window))
        (by decide +kernel)
    simp only [Bool.and_eq_true, decide_eq_true_eq] at h
    refine ⟨c, s, turn, hbuild, hrun, hturn, hfinished, ?_⟩
    rcases Finished.atRest_or_starved (.cutter hbuild hrun hturn hfinished) with
      ⟨-, hrest⟩ | ⟨hnot, -⟩
    · exact hrest
    · exact absurd (.inr h) hnot
  · obtain ⟨made, s, d, hmade, hrun, hwork, h⟩ :=
      PreambleInserter.Session.exists_finished 1 [[⟨7, 0⟩]] "inserter" lastSymbol
        (fun t => t.inserter.room == 4 && t.inserter.input.items == 1 &&
          !t.inserter.starts.closed && !t.inserter.auxIn.closed) (by decide +kernel)
    simp only [Bool.and_eq_true, Bool.not_eq_true', beq_iff_eq] at h
    obtain ⟨⟨⟨hroom, hitems⟩, hopen⟩, hopen'⟩ := h
    refine ⟨made, s, d, hmade, hrun, hwork, ?_⟩
    rcases Finished.atRest_or_starved (.inserter hmade hrun hwork) with
      ⟨hend, -⟩ | ⟨-, -, hgoes⟩
    · rcases hend with ⟨-, hlt⟩ | ⟨hclosed, -⟩ | ⟨hclosed, -⟩
      · exact absurd hlt (by rw [hitems]; decide)
      · exact absurd (hopen.symm.trans hclosed) Bool.false_ne_true
      · exact absurd (hopen'.symm.trans hclosed) Bool.false_ne_true
    · have hable : d.room ≠ 0 := by
        rw [hroom]
        decide
      exact hgoes hable

/-- **Blocks that finish and can go on.** What is left at one inlet waits for the other one. -/
theorem finishes_early :
    (∃ r s turn, twoSamples.build = .ok r ∧
      (FrameReceiver.Session.start r {}).run lastFlag = .ok s ∧
      s.receiver.work s.queue = .ok turn ∧ turn.finished = true ∧
      Resumes { s with receiver := turn.block, queue := turn.queue }) ∧
    (∃ c s turn, shortSymbols.build = .ok c ∧
      (SymbolCutter.Session.start c).run lastTriggers = .ok s ∧
      s.cutter.work "cutter" {} = .ok turn ∧ turn.finished = true ∧
      Resumes { s with cutter := turn.block }) ∧
    ∃ made s d, PreambleInserter.ofPreamble 1 [[⟨7, 0⟩]] = .ok made ∧
      (PreambleInserter.Session.start made "inserter").run lastSymbol = .ok s ∧
      s.inserter.work s.source = .ok (d, true) ∧ Resumes { s with inserter := d } := by
  refine ⟨?_, ?_, ?_⟩
  · obtain ⟨r, s, turn, hbuild, hrun, hturn, hfinished, h⟩ :=
      FrameReceiver.Session.exists_finished twoSamples lastFlag
        (fun t => !t.receiver.symbols.closed && (t.run lateSymbol).toOption.any fun u =>
          u.progress.consumed != t.progress.consumed) (by decide +kernel)
    simp only [Bool.and_eq_true, Bool.not_eq_true'] at h
    obtain ⟨hopen, hlater⟩ := h
    refine ⟨r, s, turn, hbuild, hrun, hturn, hfinished, resumes_of_any lateSymbol ?_ hlater⟩
    simp [lateSymbol, Running.admits, FrameReceiver.Session.Admits, Inlet.Admits, hopen]
  · obtain ⟨c, s, turn, hbuild, hrun, hturn, hfinished, h⟩ :=
      SymbolCutter.Session.exists_finished shortSymbols lastTriggers "cutter"
        (fun t => !t.cutter.samples.closed && (t.run lateSamples).toOption.any fun u =>
          u.progress.consumed != t.progress.consumed) (by decide +kernel)
    simp only [Bool.and_eq_true, Bool.not_eq_true'] at h
    obtain ⟨hopen, hlater⟩ := h
    refine ⟨c, s, turn, hbuild, hrun, hturn, hfinished, resumes_of_any lateSamples ?_ hlater⟩
    simp [lateSamples, Running.admits, SymbolCutter.Session.Admits, Inlet.Admits, hopen]
  · obtain ⟨made, s, d, hmade, hrun, hwork, h⟩ :=
      PreambleInserter.Session.exists_finished 1 [[⟨7, 0⟩]] "inserter" lastSymbol
        (fun t => !t.inserter.starts.closed && !t.inserter.auxIn.closed &&
          (t.run lateFlag).toOption.any fun u => u.progress.consumed != t.progress.consumed)
        (by decide +kernel)
    simp only [Bool.and_eq_true, Bool.not_eq_true'] at h
    obtain ⟨⟨hopen, hopen'⟩, hlater⟩ := h
    refine ⟨made, s, d, hmade, hrun, hwork, resumes_of_any lateFlag ?_ hlater⟩
    simp [lateFlag, Running.admits, PreambleInserter.Session.Admits, Inlet.Admits, hopen, hopen']

end OfdmBurst
