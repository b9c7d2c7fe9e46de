import Mathlib.Data.Rat.Floor
import OfdmBurst.Proofs.Signal.Exact
import OfdmBurst.Proofs.SymbolCutter.Emission

/-!
# A cutter never gets stuck

A call of work returns, and without a failure it returns for one of two reasons only: one of the
outlets is full, or one of the inlets has less than a window left. Together with the invariant of
`Emission` this makes a cutter an implementation of the segmentation. Nothing is emitted that the
segmentation does not have, and nothing is used up that the rest of it needs: the samples of whatever
was not emitted, and the triggers that were not honoured, are still in the inlets or yet to come.

## What can go wrong

A look computes the time at which a burst began, and a time can leave the clock. Which times a look
can start from is known: `Known` lists the start of the clock and the receive times that
were pushed. As long as these stay inside the clock over the length of the stream, every look
succeeds or fails by the strict policy.

The other counters are the lengths of a window and of a preamble. They depend on the options alone.

## Main results

* `Plain.step_returns` — a look that can be taken succeeds
* `Session.Sound.work_returns`, `Session.exists_work` — a call of work returns
* `run_refines_segmentation` — a cutter computes the segmentation
-/

namespace OfdmBurst

namespace SymbolCutter

variable {α τ : Type}

section Times

variable [Rounded τ]

/-- The times that a burst can be counted from, with their samples: the start of the clock at the
start of the stream, and every receive time that was pushed. -/
inductive Known (samples : Record α τ) : Nat → Timestamp τ → Prop
  | start : Known samples 0 .zero
  | received {t : Tag τ} {time : Timestamp τ} (mem : t ∈ samples.tags) (key : t.key = Tag.rxTime)
      (value : t.time? = some time) : Known samples t.index time

/-- No time of a pushed sample leaves the clock, from whichever time it is counted. -/
def TimesFit (samples : Record α τ) (bandwidth : τ) : Prop :=
  ∀ index time, Known samples index time → ∀ sample ≤ samples.data.length,
    ∃ t, time.shift ((Scalar.whole sample - Scalar.whole index) / bandwidth) = .ok t

/-- A time stays known. -/
theorem Known.append {samples : Record α τ} {index : Nat} {time : Timestamp τ}
    (h : Known samples index time) {width : Nat} {data : List α} {tags : List (Tag τ)} :
    Known (samples.append width data tags) index time := by
  cases h with
  | start => exact .start
  | received mem key value => exact .received (List.mem_append_left _ mem) key value

/-- Times that fit a longer stream fit the stream. -/
theorem TimesFit.of_append {samples : Record α τ} {bandwidth : τ} {width : Nat} {data : List α}
    {tags : List (Tag τ)} (h : TimesFit (samples.append width data tags) bandwidth) :
    TimesFit samples bandwidth := by
  intro index time hknown sample hsample
  exact h index time hknown.append sample
    (Nat.le_trans hsample (samples.length_le_append width data tags))

/-- Without receive times every burst is counted from the start of the clock. -/
theorem timesFit_of_untagged {samples : Record α τ} {bandwidth : τ} (htags : samples.tags = [])
    (hstart : ∀ sample ≤ samples.data.length, ((Timestamp.zero : Timestamp τ).shift
      ((Scalar.whole sample - Scalar.whole 0) / bandwidth)).toOption.any fun _ => true) :
    TimesFit samples bandwidth := by
  intro index time hknown sample hsample
  cases hknown with
  | received mem => simp [htags] at mem
  | start =>
    obtain ⟨t, ht, -⟩ := Fault.exists_ok_of_any (hstart sample hsample)
    exact ⟨t, ht⟩

/-- The burst that a look finds, if it finds one, has a time. -/
def Punctual (c : SymbolCutter α τ) : Prop :=
  ∀ k d, c.trigger? = some k →
    c.observe (c.samples.read + (c.options.fft + k + 1)) = .ok d →
    ∃ time, d.timeAt (c.samples.read + c.options.fft + k + 1 -
      c.options.preamble * c.options.symbol) = .ok time

/-- **A look that can be taken succeeds** if the burst it finds has a time, or it fails by the strict
policy. -/
theorem Plain.step_returns [Inhabited α] {c : SymbolCutter α τ} (h : c.Plain) (hready : c.Ready)
    (hpunctual : c.Punctual)
    (hfits : c.trigger? ≠ none → c.options.preamble * c.options.symbol < wordLimit)
    (source : String) :
    ∃ look, c.step source = .ok look ∧
      ∀ cause, look = .failed cause → c.options.policy = .strict := by
  cases hobserve : c.observe (c.samples.read + c.trigger?.elim c.window fun k =>
      c.options.fft + k + 1) with
  | error cause =>
    exact ⟨.failed cause, by simp only [step, hobserve], fun _ _ => policy_of_observe_error hobserve⟩
  | ok noted =>
    rw [observe_frame hobserve] at hobserve
    have hmoved : ∃ d used, Step c source d used := by
      cases hfound : c.trigger? with
      | some k =>
        rw [hfound] at hobserve
        have hk : k + 1 ≤ c.options.symbol + 1 := lt_of_trigger? hfound
        obtain ⟨time, htime⟩ := hpunctual k _ hfound hobserve
        obtain ⟨symbols, flags, hsymbols, hflags⟩ := h.emit_returns hready hk 1
          (burstMarks source c.flags.written time noted.offset)
        obtain ⟨samples, triggers, hsamples, htriggers⟩ := hready.skip_returns hk
        exact ⟨_, _, .burst hfound hobserve (hfits (by simp [hfound])) htime hsymbols
          hflags hsamples htriggers⟩
      | none =>
        rw [hfound] at hobserve
        cases hphase : c.phase with
        | frame n =>
          have hle : c.options.symbol ≤ c.options.symbol + 1 := Nat.le_succ _
          obtain ⟨symbols, flags, hsymbols, hflags⟩ := h.emit_returns hready hle 0 []
          obtain ⟨samples, triggers, hsamples, htriggers⟩ := hready.skip_returns hle
          exact ⟨_, _, .follow hfound hphase hobserve hsymbols hflags hsamples htriggers⟩
        | search =>
          obtain ⟨samples, triggers, hsamples, htriggers⟩ := hready.skip_returns (Nat.le_refl _)
          exact ⟨_, _, .pass hfound hphase hobserve hsamples htriggers⟩
    obtain ⟨d, used, hstep⟩ := hmoved
    obtain ⟨hused, hlook⟩ := hstep.step_eq
    exact ⟨_, hlook, fun _ hfailed => by cases hfailed⟩

end Times

namespace Session

section Events

/-- The anchor is a known time. -/
def Anchored [Rounded τ] (s : Session α τ) : Prop :=
  ∀ index time, s.cutter.anchor = some (index, time) → Known s.samples index time

variable [Inhabited α] [Rounded τ] {o : CutterOptions τ} {s : Session α τ} {emitted : List Segment}

omit [Inhabited α] [Rounded τ] in
/-- Noting tags takes the anchor from a receive time that was pushed, and fails by the strict policy
only. -/
theorem observe_anchor (hholds : s.cutter.samples.Holds s.samples) (last : Nat) :
    match s.cutter.observe last with
    | .ok d => d.anchor = s.cutter.anchor ∨ ∃ t time, t ∈ s.samples.tags ∧ t.key = Tag.rxTime ∧
        t.time? = some time ∧ d.anchor = some (t.index, time)
    | .error _ => s.cutter.options.policy = .strict := by
  have hfound : ∀ t, s.cutter.samples.latest? (max s.cutter.seen s.cutter.samples.read) last
      Tag.rxTime = some t → t ∈ s.samples.tags ∧ t.key = Tag.rxTime := by
    intro t ht
    have hmem := Tag.latest?_mem ht
    rw [hholds.tagsBetween_eq (Nat.le_max_right _ _), List.mem_filter] at hmem
    simp only [Bool.and_eq_true, beq_iff_eq] at hmem
    exact ⟨hmem.1, hmem.2.2⟩
  rw [observe_eq]
  by_cases hlast : last ≤ max s.cutter.seen s.cutter.samples.read
  · simp [hlast]
  · simp only [hlast, ↓reduceIte]
    cases hlatest : s.cutter.samples.latest? (max s.cutter.seen s.cutter.samples.read) last
        Tag.rxTime with
    | none => simp [anchorAfter, Except.map]
    | some t =>
      obtain ⟨hmem, hkey⟩ := hfound t hlatest
      cases htime : t.time? with
      | none => simp [anchorAfter, htime, Except.map]
      | some time =>
        simp only [anchorAfter, Option.bind_some, htime]
        by_cases hindex : t.index = 0
        · simp only [hindex, ↓reduceIte, Except.map]
          exact .inr ⟨t, time, hmem, hkey, htime, by rw [hindex]⟩
        · simp only [hindex, ↓reduceIte]
          cases hpolicy : s.cutter.options.policy with
          | rebase => exact .inr ⟨t, time, hmem, hkey, htime, rfl⟩
          | drop => exact .inl rfl
          | strict => simp [Except.map]

/-- A look keeps the anchor known. -/
theorem Anchored.look (h : s.Anchored) (hholds : s.cutter.samples.Holds s.samples)
    {d : SymbolCutter α τ} {source : String} {used : Nat} (hstep : Step s.cutter source d used) :
    ({ s with cutter := d } : Session α τ).Anchored := by
  have hobserved : ∃ last c, s.cutter.observe last = .ok c ∧ c.anchor = d.anchor := by
    cases hstep with
    | burst _ observed => exact ⟨_, _, observed, rfl⟩
    | follow _ _ observed => exact ⟨_, _, observed, rfl⟩
    | pass _ _ observed => exact ⟨_, _, observed, rfl⟩
  obtain ⟨last, c, hc, hanchor⟩ := hobserved
  have hcases := observe_anchor hholds last
  rw [hc] at hcases
  intro index time htime
  rw [← hanchor] at htime
  rcases hcases with hsame | ⟨t, time', hmem, hkey, hvalue, hnew⟩
  · exact h index time (hsame ▸ htime)
  · rw [hnew] at htime
    cases htime
    exact .received hmem hkey hvalue

/-! ### A look -/

namespace Sound

omit [Inhabited α] [Rounded τ] in
theorem plain (h : s.Sound o emitted) : s.cutter.Plain where
  samples := h.samples_width
  triggers := h.triggers_width
  symbols := h.symbols_width.trans (by rw [h.options])
  flags := h.flags_width

omit [Inhabited α] in
/-- From a known anchor, every burst has a time. -/
theorem punctual (h : s.Sound o emitted) (hanchored : s.Anchored) (hready : s.cutter.Ready)
    (htimes : TimesFit s.samples o.bandwidth) : s.cutter.Punctual := by
  intro k c hfound hobserve
  have hanchor := observe_anchor h.samples
    (s.cutter.samples.read + (s.cutter.options.fft + k + 1))
  rw [hobserve] at hanchor
  have hk := h.lt_of_found hfound
  have hwindow := (h.window_le hready.1).1
  have hlen : s.cutter.samples.read + s.cutter.options.fft + k + 1 -
      s.cutter.options.preamble * s.cutter.options.symbol ≤ s.samples.data.length := by
    rw [h.options]
    omega
  have hbandwidth : c.options.bandwidth = o.bandwidth := by
    rw [observe_frame hobserve, h.options]
  rw [timeAt, hbandwidth]
  cases hnew : c.anchor with
  | none => exact htimes 0 .zero .start _ hlen
  | some a =>
    refine htimes a.1 a.2 ?_ _ hlen
    rcases hanchor with hsame | ⟨t, time, hmem, hkey, hvalue, heq⟩
    · exact hanchored a.1 a.2 (hsame ▸ hnew)
    · cases heq.symm.trans hnew
      exact .received hmem hkey hvalue

/-- **A look that can be taken succeeds** if the burst it finds has a time, or it fails by the strict
policy. -/
theorem step_returns (h : s.Sound o emitted) (hready : s.cutter.Ready)
    (hpunctual : s.cutter.Punctual) (hfits : o.preamble * o.symbol < wordLimit) (source : String) :
    ∃ look, s.cutter.step source = .ok look ∧ ∀ cause, look = .failed cause → o.policy = .strict := by
  have hlook := h.plain.step_returns hready hpunctual (fun _ => by rw [h.options]; exact hfits) source
  rwa [h.options] at hlook

end Sound

/-! ### A call of work -/

/-- **A call of work returns** if what its looks preserve gives every burst a time, and it fails by
the strict policy only. -/
theorem Sound.work_returns (h : s.Sound o emitted) {Q : Session α τ → List Segment → Prop}
    (hQ : Q s emitted) {source : String}
    (step : ∀ s d used emitted, s.Sound o emitted → Q s emitted → s.cutter.Ready →
      Step s.cutter source d used → Q { s with cutter := d } (emitted ++ s.cutter.cutNext))
    (punctual : ∀ s emitted, s.Sound o emitted → Q s emitted → s.cutter.Ready → s.cutter.Punctual)
    (hfft : 0 < o.fft) (htimeout : o.timeout ≠ 0) (hwindow : o.symbol + o.fft + 1 < wordLimit)
    (hfits : o.preamble * o.symbol < wordLimit) (queue : MessageQueue) :
    ∃ turn, s.cutter.work source queue = .ok turn ∧ (turn.failure ≠ none → o.policy = .strict) := by
  have hword : Fault.word s.cutter.window = .ok s.cutter.window := by
    rw [window, h.options]
    exact Fault.word_ok hwindow
  rw [work, hword]
  refine drain_returns
    (P := fun c => ∃ emitted, ({ s with cutter := c } : Session α τ).Sound o emitted ∧
      Q { s with cutter := c } emitted)
    (fun c d used hc hready hstep => ?_) (fun c hc hready => ?_) rfl ⟨emitted, h, hQ⟩
  · obtain ⟨emitted, hsound, hQ⟩ := hc
    exact ⟨emitted ++ c.cutNext, hsound.look hfft htimeout hready hstep,
      step _ d used emitted hsound hQ hready hstep⟩
  · obtain ⟨emitted, hsound, hQ⟩ := hc
    exact hsound.step_returns hready (punctual _ emitted hsound hQ hready) hfits source

/-- The anchor of every session is a known time. -/
theorem anchored {c : SymbolCutter α τ} (hbuild : o.build = .ok c) {events : List (Event α τ)}
    (hrun : (start c).run events = .ok s) : s.Anchored := by
  obtain ⟨-, -, hstart⟩ := sound_start hbuild
  have hfresh : (start c).Anchored := by
    intro index time htime
    rw [show (start c).cutter.anchor = none from (fresh_of_build hbuild).anchor] at htime
    cases htime
  refine (run_induct (P := fun s => s.cutter.samples.Holds s.samples ∧ s.Anchored)
    ?_ ?_ ?_ ?_ ?_ ⟨hstart.samples, hfresh⟩ hrun).2
  · intro s p r e ⟨hholds, h⟩ hmeet
    obtain ⟨hp, -, -, hrecord⟩ := hholds.meet hmeet
    refine ⟨hp, fun index time htime => ?_⟩
    rcases hrecord with rfl | ⟨data, tags, -, rfl⟩
    · exact h index time htime
    · exact (h index time htime).append
  · exact fun s p r e h _ => h
  · exact fun s p r e h _ => h
  · exact fun s p r e h _ => h
  · intro s source d used ⟨hholds, h⟩ _ hstep
    exact ⟨hholds.consume hstep.consumed.1, h.look hholds hstep⟩

/-- **A call of work returns** if its lengths and its times fit the words they are counted in, and
it fails by the strict policy only. -/
theorem exists_work {c : SymbolCutter α τ} (hbuild : o.build = .ok c) {events : List (Event α τ)}
    (hrun : (start c).run events = .ok s) (hwindow : o.symbol + o.fft + 1 < wordLimit)
    (hfits : o.preamble * o.symbol < wordLimit) (htimes : TimesFit s.samples o.bandwidth)
    (source : String) (queue : MessageQueue) :
    ∃ turn, s.cutter.work source queue = .ok turn ∧ (turn.failure ≠ none → o.policy = .strict) := by
  obtain ⟨hfft, htimeout, -⟩ := sound_start hbuild
  obtain ⟨emitted, hsound⟩ := exists_sound hbuild hrun
  exact hsound.work_returns
    (Q := fun t _ => t.Anchored ∧ TimesFit t.samples o.bandwidth) ⟨anchored hbuild hrun, htimes⟩
    (fun t d used emitted h hQ _ hstep => ⟨hQ.1.look h.samples hstep, hQ.2⟩)
    (fun t emitted h hQ hready => h.punctual hQ.1 hready hQ.2) hfft htimeout hwindow hfits queue

end Events

end Session

/-- **A cutter computes the segmentation of its streams**, whatever pieces they arrive in and
whatever else happens in between. Everything emitted so far begins the segmentation, and still does
however the streams go on. The rest of it is not lost: of a further segment neither the samples are
used up nor, if it is flagged, its trigger, and what is not used up is in the inlets.

A call of work that does not fail stops because it lacks a window or room. It does return if its
lengths and its times fit the words they are counted in, and then it fails by the strict policy
only. -/
theorem run_refines_segmentation [Inhabited α] [Rounded τ] {o : CutterOptions τ}
    {c : SymbolCutter α τ} (hbuild : o.build = .ok c) {events : List (Event α τ)} {s : Session α τ}
    (hrun : (Session.start c).run events = .ok s) :
    (∃ emitted : List Segment,
      s.symbolsOut = emitted.flatMap (·.samples o.fft s.samples.data) ∧
      s.flagsOut = emitted.map (·.flag) ∧
      (∀ e ∈ emitted, (e.samples o.fft s.samples.data).length = o.fft) ∧
      (∀ moreSamples moreTriggers,
        (emitted.map fun e => (e.samples o.fft s.samples.data, e.flag)) <+:
          segmentation o (s.samples.data ++ moreSamples) (s.triggers.data ++ moreTriggers)) ∧
      ∀ moreTriggers, ∃ rest,
        emitted ++ rest = segments o (triggersFrom o.fft (s.triggers.data ++ moreTriggers)) ∧
        ∀ e ∈ rest, s.cutter.samples.read + o.fft ≤ e.last) ∧
    s.cutter.samples.buffer.toList = s.samples.data.drop s.cutter.samples.read ∧
    s.cutter.triggers.buffer.toList = s.triggers.data.drop s.cutter.samples.read ∧
    ∀ source queue,
      (∀ turn, s.cutter.work source queue = .ok turn → turn.failure = none →
        turn.block.available < o.symbol + o.fft + 1 ∨ turn.block.symbols.room = 0 ∨
          turn.block.flags.room = 0) ∧
      (o.symbol + o.fft + 1 < wordLimit → o.preamble * o.symbol < wordLimit →
        TimesFit s.samples o.bandwidth →
        ∃ turn, s.cutter.work source queue = .ok turn ∧
          (turn.failure ≠ none → o.policy = .strict)) := by
  obtain ⟨emitted, hsound⟩ := Session.exists_sound hbuild hrun
  obtain ⟨hsamples, htriggers⟩ := hsound.buffers_eq
  refine ⟨⟨emitted, hsound.symbols_eq, hsound.flags_eq,
    fun e he => Segment.length_samples (hsound.inside e he), hsound.isPrefix, hsound.exists_rest⟩,
    hsamples, htriggers, fun source queue => ⟨fun turn hturn hok => ?_, fun hwindow hfits htimes =>
      Session.exists_work hbuild hrun hwindow hfits htimes source queue⟩⟩
  have hstop := work_stops hturn hok
  rw [window, options_eq_of_work hturn, hsound.options] at hstop
  exact hstop

/-- Two symbols, of which the second waits for its triggers, and a trigger too close to the end for a
look to see it. -/
def lateTrigger : List (Event Nat ℚ) :=
  [.samples (.push [10, 11, 12, 13, 14, 15] []), .triggers (.push [0, 1] []),
    .symbols (.reserve 4), .flags (.reserve 4), .work "cutter",
    .triggers (.push [0, 0, 0, 9] []), .work "cutter"]

theorem run_refines_segmentation_late_trigger :
    ∃ (c : SymbolCutter Nat ℚ) (s : Session Nat ℚ),
      ({ fft := 1, symbol := 2, bandwidth := 1, timeout := 2 } : CutterOptions ℚ).build = .ok c ∧
      (Session.start c).run lateTrigger = .ok s ∧
      s.symbolsOut = [11, 13] ∧ s.flagsOut = [1, 0] ∧ s.cutter.samples.read = 3 ∧
      s.cutter.triggers.buffer.toList = [0, 0, 9] ∧
      (∃ emitted rest : List Segment,
        s.symbolsOut = emitted.flatMap (·.samples 1 s.samples.data) ∧
        s.flagsOut = emitted.map (·.flag) ∧ rest.length = 3 ∧
        emitted ++ rest = [⟨1, 1⟩, ⟨3, 0⟩, ⟨5, 1⟩, ⟨7, 0⟩, ⟨9, 0⟩] ∧ ∀ e ∈ rest, 4 ≤ e.last) ∧
      ∃ turn, s.cutter.work "cutter" {} = .ok turn := by
  obtain ⟨c, hbuild, hrest⟩ := Fault.exists_ok_of_any
    (x := ({ fft := 1, symbol := 2, bandwidth := 1, timeout := 2 } : CutterOptions ℚ).build)
    (p := fun c : SymbolCutter Nat ℚ => ((Session.start c).run lateTrigger).toOption.any
      fun s : Session Nat ℚ => decide (s.symbolsOut = [11, 13] ∧ s.flagsOut = [1, 0] ∧
        s.cutter.samples.read = 3 ∧ s.samples.data.length = 6 ∧
        s.triggers.data = [0, 1, 0, 0, 0, 9] ∧ s.samples.tags.length = 0))
    (by decide +kernel)
  obtain ⟨s, hrun, hs⟩ := Fault.exists_ok_of_any hrest
  obtain ⟨hsymbols, hflags, hread, hsamples, htriggers, htags⟩ := of_decide_eq_true hs
  obtain ⟨⟨emitted, hcut, hemitted, -, -, hwhole⟩, -, hbuffer, hwork⟩ :=
    run_refines_segmentation hbuild hrun
  obtain ⟨rest, hsegments, hahead⟩ := hwhole []
  have hreference : segments { fft := 1, symbol := 2, bandwidth := (1 : ℚ), timeout := 2 }
      (triggersFrom 1 (s.triggers.data ++ [])) =
        [⟨1, 1⟩, ⟨3, 0⟩, ⟨5, 1⟩, ⟨7, 0⟩, ⟨9, 0⟩] := by
    rw [htriggers]
    decide +kernel
  have hlength := congrArg List.length (hsegments.trans hreference)
  have hcount := congrArg List.length (hflags.symm.trans hemitted)
  rw [List.length_map] at hcount
  rw [List.length_append, ← hcount] at hlength
  have htimes : TimesFit s.samples 1 := by
    refine timesFit_of_untagged (List.eq_nil_of_length_eq_zero htags) ?_
    rw [hsamples]
    decide +kernel
  obtain ⟨turn, hturn, -⟩ := (hwork "cutter" {}).2 (by decide) (by decide) htimes
  rw [hread] at hahead
  exact ⟨c, s, hbuild, hrun, hsymbols, hflags, hread, by rw [hbuffer, hread, htriggers]; rfl,
    ⟨emitted, rest, hcut, hemitted, Nat.add_left_cancel hlength, hsegments.trans hreference,
      hahead⟩, turn, hturn⟩

end SymbolCutter

end OfdmBurst
