import Mathlib.Data.Rat.Floor
import OfdmBurst.Proofs.CyclicPrefixer.Emission
import OfdmBurst.Proofs.SymbolCutter.Progress

/-!
# A forecast asks for neither too little nor too much

A forecast is a formula, and a call of work is a loop. Whoever relies on the forecast waits until as
many items are there, and then expects as much output. If the formula asked for less, the output
would not come. If it asked for more, the wait could be for ever.

A cutter inside a frame takes in a window of a symbol length, an fft length and one sample at every
look, but uses up the symbol length only. The windows of `n` looks overlap, and together they are
`n` symbol lengths, one fft length and one sample, which is the forecast. This is so as long as the
countdown lasts and no trigger is found, because a look that finds one uses up something else.

For a prefixer the forecast is a quotient rounded up, and a call takes whole symbols.

Neither statement asks how the block got where it is. The cutter is in any frame, and the terminals
hold anything.

## Main definitions

* `SymbolCutter.AnyState`, `CyclicPrefixer.AnyState` — a block in any state
* `SymbolCutter.Quiet` — no trigger is left to be found
* `SymbolCutter.Counted` — what the looks of one call leave, after some symbols

## Main results

* `SymbolCutter.Counted.look` — what a look adds to the count
* `SymbolCutter.Counted.le_iff` — a cutter that stops has emitted what there were samples for
* `CyclicPrefixer.forecast_le_iff` — how many symbols are enough
* `forecasts_exact` — both blocks emit what was asked for exactly if the forecast is met
-/

namespace OfdmBurst

/-! ### The cutter -/

namespace SymbolCutter

variable {α τ : Type}

/-- A cutter like `made`, in any phase and with anything in its terminals. -/
structure AnyState (made c : SymbolCutter α τ) : Prop where
  options_eq : c.options = made.options
  samples_width : c.samples.width = made.samples.width
  triggers_width : c.triggers.width = made.triggers.width
  symbols_width : c.symbols.width = made.symbols.width
  flags_width : c.flags.width = made.flags.width

/-- Behind the first fft length of samples there is no trigger. -/
def Quiet (c : SymbolCutter α τ) : Prop :=
  ∀ x ∈ c.triggers.buffer.toList.drop c.options.fft, x = 0

theorem Quiet.trigger?_eq_none {c : SymbolCutter α τ} (h : c.Quiet) : c.trigger? = none := by
  refine List.findIdx?_eq_none_iff.2 fun x hx => ?_
  rw [h x (List.mem_of_mem_take hx)]
  rfl

/-- Using up samples brings no trigger. -/
theorem Quiet.consume {c d : SymbolCutter α τ} (h : c.Quiet) {n : Nat}
    (hconsume : c.triggers.consume n = .ok d.triggers) (hoptions : d.options = c.options) :
    d.Quiet := by
  intro x hx
  rw [Inlet.buffer_consume hconsume, hoptions, List.drop_drop, Nat.add_comm, ← List.drop_drop] at hx
  exact h x (List.mem_of_mem_drop hx)

section Call

variable [Inhabited α] [Rounded τ] {c d next : SymbolCutter α τ} {remaining e used : Nat}
  {source : String}

/-- What is left of the cutter `c` after some looks of one call, which emitted `e` symbols. Inside
the frame every look emits one. Behind its end none does. -/
structure Counted (c : SymbolCutter α τ) (remaining : Nat) (d : SymbolCutter α τ) (e : Nat) :
    Prop where
  /-- Nothing but the phase and the terminals has changed. -/
  state : AnyState c d
  /-- There is still no trigger to be found. -/
  quiet : d.Quiet
  /-- The countdown has gone on with every symbol, and behind the last one the cutter searches. -/
  phase : d.phase = if e < remaining then .frame (remaining - e) else .search
  /-- Inside the frame every symbol has used up a symbol length. -/
  left : e < remaining → d.available + e * c.options.symbol = c.available
  /-- The windows of all symbols were there when the call began. -/
  windows : e = 0 ∨ e * c.options.symbol + c.options.fft + 1 ≤ c.available
  /-- So many symbols were put out, and so much room was filled. -/
  symbols : d.symbols.written = c.symbols.written + e ∧ d.symbols.room + e = c.symbols.room
  /-- And so many flags. -/
  flags : d.flags.written = c.flags.written + e ∧ d.flags.room + e = c.flags.room

omit [Inhabited α] [Rounded τ] in
theorem AnyState.plain (h : AnyState c d) (hplain : c.Plain) : d.Plain where
  samples := h.samples_width.trans hplain.samples
  triggers := h.triggers_width.trans hplain.triggers
  symbols := h.symbols_width.trans (hplain.symbols.trans (by rw [h.options_eq]))
  flags := h.flags_width.trans hplain.flags

omit [Inhabited α] [Rounded τ] in
/-- The count starts with the call. -/
theorem Quiet.counted (h : c.Quiet) (hphase : c.phase = .frame remaining) (hpos : 0 < remaining) :
    Counted c remaining c 0 where
  state := ⟨rfl, rfl, rfl, rfl, rfl⟩
  quiet := h
  phase := by rw [if_pos hpos, Nat.sub_zero, hphase]
  left _ := by rw [Nat.zero_mul, Nat.add_zero]
  windows := .inl rfl
  symbols := ⟨rfl, rfl⟩
  flags := ⟨rfl, rfl⟩

omit [Inhabited α] [Rounded τ] in
/-- Only inside the frame a cutter that counts is in one. -/
theorem Counted.countdown_eq (h : Counted c remaining d e) {n : Nat} (hphase : d.phase = .frame n) :
    e < remaining ∧ countdown n =
      if e + 1 < remaining then .frame (remaining - (e + 1)) else .search := by
  rw [h.phase] at hphase
  split at hphase
  next hinside =>
    cases hphase
    refine ⟨hinside, ?_⟩
    rw [countdown, Nat.sub_sub]
    by_cases hlast : remaining - e ≤ 1
    · rw [if_pos hlast, if_neg (by omega)]
    · rw [if_neg hlast, if_pos (by omega)]
  · cases hphase

/-- **What a look adds to the count**: a symbol inside the frame, and nothing behind it. -/
theorem Counted.look (h : Counted c remaining d e) (hplain : c.Plain) (hready : d.Ready)
    (hstep : Step d source next used) : ∃ k, Counted c remaining next k := by
  have hoptions := hstep.options_eq
  have havailable := hstep.available_eq
  have hquiet := h.quiet.consume hstep.consumed.2 hoptions
  have hsampled := (Inlet.consume_frame hstep.consumed.1).1
  have htriggered := (Inlet.consume_frame hstep.consumed.2).1
  have hwindow := hready.1
  rw [window, h.state.options_eq] at hwindow
  cases hstep with
  | burst found =>
    rw [h.quiet.trigger?_eq_none] at found
    cases found
  | follow found framed observed symbol flag =>
    obtain ⟨hinside, hcountdown⟩ := h.countdown_eq framed
    have hleft := h.left hinside
    have hused : d.options.symbol = c.options.symbol := by rw [h.state.options_eq]
    have hflag : [(0 : UInt8)].length = d.flags.width :=
      (h.state.flags_width.trans hplain.flags).symm
    obtain ⟨hsymbolsWidth, hsymbols, hsymbolsRoom⟩ :=
      Outlet.counts_put ((h.state.plain hplain).length_cutAt hready (Nat.le_succ _)) symbol
    obtain ⟨hflagsWidth, hflags, hflagsRoom⟩ := Outlet.counts_put hflag flag
    refine ⟨e + 1, ⟨⟨hoptions.trans h.state.options_eq, hsampled.trans h.state.samples_width,
      htriggered.trans h.state.triggers_width, hsymbolsWidth.trans h.state.symbols_width,
      hflagsWidth.trans h.state.flags_width⟩, hquiet, hcountdown, fun _ => ?_, .inr ?_, ?_, ?_⟩⟩
    · rw [havailable, hused, Nat.succ_mul]
      omega
    · rw [Nat.succ_mul, ← hleft]
      omega
    · refine ⟨hsymbols.trans (congrArg (· + 1) h.symbols.1), ?_⟩
      rw [← h.symbols.2, ← hsymbolsRoom, Nat.add_right_comm]
      rfl
    · refine ⟨hflags.trans (congrArg (· + 1) h.flags.1), ?_⟩
      rw [← h.flags.2, ← hflagsRoom, Nat.add_right_comm]
      rfl
  | pass found searching =>
    have houtside : ¬ e < remaining := by
      intro hinside
      rw [h.phase, if_pos hinside] at searching
      cases searching
    exact ⟨e, ⟨⟨hoptions.trans h.state.options_eq, hsampled.trans h.state.samples_width,
      htriggered.trans h.state.triggers_width, h.state.symbols_width, h.state.flags_width⟩, hquiet,
      h.phase, fun hinside => absurd hinside houtside, h.windows, h.symbols, h.flags⟩⟩

/-- A look succeeds, or the strict policy refuses a receive time. There is no burst to be timed. -/
theorem Counted.step_returns (h : Counted c remaining d e) (hplain : c.Plain) (hready : d.Ready)
    (source : String) :
    ∃ look, d.step source = .ok look ∧
      ∀ cause, look = .failed cause → c.options.policy = .strict := by
  have hnone := h.quiet.trigger?_eq_none
  have hpunctual : d.Punctual := fun k _ hfound => by
    rw [hnone] at hfound
    cases hfound
  have hlook := (h.state.plain hplain).step_returns hready hpunctual
    (fun hfound => absurd hnone hfound) source
  rwa [h.state.options_eq] at hlook

omit [Inhabited α] [Rounded τ] in
/-- What was emitted had its windows. -/
theorem Counted.needed_le (h : Counted c remaining d e) {n : Nat} (hn : 1 ≤ n) (hle : n ≤ e) :
    n * c.options.symbol + c.options.fft + 1 ≤ c.available := by
  have hmul : n * c.options.symbol ≤ e * c.options.symbol := Nat.mul_le_mul_right _ hle
  rcases h.windows with rfl | hwindows
  · omega
  · omega

omit [Inhabited α] [Rounded τ] in
/-- **A cutter that stops has emitted what was asked for exactly if there were samples for it.** If
it stops too early, it is still inside the frame, so it has the samples that are not used up. They
make up a window, and there is room, so it does not stop. -/
theorem Counted.le_iff (h : Counted c remaining d e) {n : Nat} (hn : 1 ≤ n) (hle : n ≤ remaining)
    (hsymbols : min n c.available ≤ c.symbols.room) (hflags : min n c.available ≤ c.flags.room)
    (hstop : d.available < d.window ∨ d.symbols.room = 0 ∨ d.flags.room = 0) :
    n ≤ e ↔ n * c.options.symbol + c.options.fft + 1 ≤ c.available := by
  refine ⟨h.needed_le hn, fun hneeded => ?_⟩
  by_contra hearly
  have hleft := h.left (by omega)
  have hmore : (e + 1) * c.options.symbol ≤ n * c.options.symbol :=
    Nat.mul_le_mul_right _ (by omega)
  have hsamples : n ≤ n * c.options.symbol := Nat.le_mul_of_pos_right n c.symbol_pos
  rw [Nat.succ_mul] at hmore
  rw [window, h.state.options_eq] at hstop
  obtain ⟨-, hsymbolsRoom⟩ := h.symbols
  obtain ⟨-, hflagsRoom⟩ := h.flags
  omega

/-- What a call of work leaves is counted. -/
theorem Quiet.exists_counted (h : c.Quiet) (hplain : c.Plain) (hphase : c.phase = .frame remaining)
    (hpos : 0 < remaining) {queue : MessageQueue} {turn : Turn (SymbolCutter α τ)}
    (hwork : c.work source queue = .ok turn) : ∃ e, Counted c remaining turn.block e := by
  rw [work, Fault.bind_eq_ok_iff] at hwork
  obtain ⟨_, -, hdrain⟩ := hwork
  exact drain_induct (P := fun d => ∃ e, Counted c remaining d e)
    (fun _ _ _ hd hready hstep => hd.elim fun _ he => he.look hplain hready hstep) rfl
    ⟨0, h.counted hphase hpos⟩ hdrain

/-- A call of work returns if a window is no longer than the words count. -/
theorem Quiet.work_returns (h : c.Quiet) (hplain : c.Plain) (hphase : c.phase = .frame remaining)
    (hpos : 0 < remaining) (hwindow : c.window < wordLimit) (source : String)
    (queue : MessageQueue) :
    ∃ turn, c.work source queue = .ok turn ∧
      (turn.failure ≠ none → c.options.policy = .strict) := by
  rw [work, Fault.word_ok hwindow]
  exact drain_returns (P := fun d => ∃ e, Counted c remaining d e)
    (fun _ _ _ hd hready hstep => hd.elim fun _ he => he.look hplain hready hstep)
    (fun _ hd hready => hd.elim fun _ he => he.step_returns hplain hready source) rfl
    ⟨0, h.counted hphase hpos⟩

end Call

/-- What building a cutter sets. -/
theorem plain_of_build [Rounded τ] {o : CutterOptions τ} {made : SymbolCutter α τ}
    (h : o.build = .ok made) : made.options = o ∧ made.Plain := by
  obtain ⟨-, -, hsound⟩ := Session.sound_start h
  exact ⟨hsound.options, hsound.plain⟩

end SymbolCutter

/-! ### The prefixer -/

namespace CyclicPrefixer

variable {α τ : Type}

/-- A prefixer like `made`, with anything in its terminals. -/
structure AnyState (made b : CyclicPrefixer α τ) : Prop where
  inputSize_eq : b.inputSize = made.inputSize
  outputSize_eq : b.outputSize = made.outputSize
  input_width : b.input.width = made.input.width
  ends_width : b.ends.width = made.ends.width
  output_width : b.output.width = made.output.width

variable {b : CyclicPrefixer α τ}

/-- **How many symbols are enough** for `n` samples. -/
theorem forecast_le_iff {n k : Nat} : b.forecast n ≤ k ↔ n ≤ k * b.outputSize := by
  have hpos := b.outputSize_pos
  rw [forecast, Nat.div_le_iff_le_mul_add_pred hpos, Nat.mul_comm]
  omega

/-- Nothing but the symbols at hand keeps a call from the symbols that are enough. -/
theorem forecast_le_ready_iff {n : Nat}
    (hends : b.ends.connected = true → min (b.forecast n) b.input.items ≤ b.ends.items)
    (hroom : min (b.forecast n) b.input.items * b.outputSize ≤ b.output.room) :
    b.forecast n ≤ b.ready ↔ b.forecast n ≤ b.input.items := by
  have hplaces := (Nat.le_div_iff_mul_le b.outputSize_pos).2 hroom
  obtain ⟨hinput, -, -⟩ := ready_le b
  refine ⟨fun h => h.trans hinput, fun h => ?_⟩
  rcases ready_stops b with hready | hready | ⟨hyes, hready⟩
  · omega
  · omega
  · have := hends hyes
    omega

end CyclicPrefixer

/-! ### Both -/

section Both

variable {α τ : Type}

/-- **A forecast is exact.**

A cutter that is inside a frame for at least `n` more symbols, with no trigger to be found and with
room for what there are samples for, emits `n` symbols in one call exactly if it has as many samples
as it forecasts. If that number leaves the machine word, it never does. The call returns, and fails
by the strict policy only.

A prefixer of prefixes no longer than the symbols, which knows of the burst ends it is asked about
and has room, emits `n` samples in one call exactly if it has as many symbols as it forecasts. -/
theorem forecasts_exact [Inhabited α] [Rounded τ] :
    (∀ (o : CutterOptions τ) (made c : SymbolCutter α τ) (n remaining : Nat),
      o.build = .ok made → SymbolCutter.AnyState made c → 1 ≤ n → c.phase = .frame remaining →
      n ≤ remaining → c.Quiet → min n c.available ≤ c.symbols.room →
      min n c.available ≤ c.flags.room → ∀ source queue,
        (∀ needed, c.forecast n = .ok needed →
          ∃ turn emitted, c.work source queue = .ok turn ∧
            turn.block.symbols.written = c.symbols.written + emitted ∧
            turn.block.flags.written = c.flags.written + emitted ∧
            (turn.failure ≠ none → o.policy = .strict) ∧
            (turn.failure = none → (n ≤ emitted ↔ needed ≤ c.available))) ∧
        (∀ fault turn, c.forecast n = .error fault → c.available < wordLimit →
          c.work source queue = .ok turn →
          turn.block.symbols.written < c.symbols.written + n)) ∧
    ∀ (inputSize outputSize : Nat) (made b : CyclicPrefixer α τ) (n : Nat),
      CyclicPrefixer.ofSizes inputSize outputSize = .ok made → CyclicPrefixer.AnyState made b →
      outputSize ≤ 2 * inputSize →
      (b.ends.connected = true → min (b.forecast n) b.input.items ≤ b.ends.items) →
      min (b.forecast n) b.input.items * b.outputSize ≤ b.output.room → ∀ source,
        ∃ d finished emitted, b.work source = .ok (d, finished) ∧
          d.output.written = b.output.written + emitted ∧
          (n ≤ emitted ↔ b.forecast n ≤ b.input.items) := by
  constructor
  · intro o made c n remaining hbuild hstate hn hphase hle hquiet hsymbols hflags source queue
    obtain ⟨rfl, hmade⟩ := SymbolCutter.plain_of_build hbuild
    have hplain := hstate.plain hmade
    have hpos : 0 < remaining := hn.trans hle
    have hlength := Nat.le_mul_of_pos_left c.options.symbol hn
    have hforecast : c.forecast n = Fault.word (n * c.options.symbol + c.options.fft + 1) :=
      if_neg (Nat.ne_of_gt hn)
    rw [hforecast]
    refine ⟨fun needed hneeded => ?_, fun fault turn hfault havailable hwork => ?_⟩
    · obtain ⟨hfits, rfl⟩ := Fault.word_eq_ok_iff.1 hneeded
      have hwindow : c.window < wordLimit := by
        rw [SymbolCutter.window]
        omega
      obtain ⟨turn, hwork, hfailed⟩ :=
        hquiet.work_returns hplain hphase hpos hwindow source queue
      obtain ⟨e, he⟩ := hquiet.exists_counted hplain hphase hpos hwork
      refine ⟨turn, e, hwork, he.symbols.1, he.flags.1, hstate.options_eq ▸ hfailed, fun hok => ?_⟩
      exact he.le_iff hn hle hsymbols hflags (SymbolCutter.work_stops hwork hok)
    · obtain ⟨e, he⟩ := hquiet.exists_counted hplain hphase hpos hwork
      rw [he.symbols.1]
      by_contra hmany
      have hfits := Nat.lt_of_le_of_lt (he.needed_le hn (by omega)) havailable
      rw [Fault.word_ok hfits] at hfault
      cases hfault
  · intro inputSize outputSize made b n hmade hstate hfits hends hroom source
    obtain ⟨hsound, hinput, houtput⟩ := CyclicPrefixer.Session.sound_start hmade source
    have hshort : b.prefixLength ≤ b.inputSize := by
      rw [CyclicPrefixer.prefixLength, hstate.inputSize_eq, hstate.outputSize_eq, hinput, houtput]
      omega
    obtain ⟨d, finished, hwork, -, hwritten, -⟩ := CyclicPrefixer.exists_work hshort
      (hstate.input_width.trans (hsound.input_width.trans hstate.inputSize_eq.symm))
      (hstate.output_width.trans hsound.output_width) source
    refine ⟨d, finished, _, hwork, hwritten, ?_⟩
    rw [← CyclicPrefixer.forecast_le_iff, CyclicPrefixer.forecast_le_ready_iff hends hroom]

/-- A cutter inside a frame of two symbols, with six samples. -/
def insideFrame (c : SymbolCutter Nat ℚ) : SymbolCutter Nat ℚ :=
  { c with
    phase := .frame 2
    samples := { c.samples with buffer := .ofList [1, 2, 3, 4, 5, 6] }
    triggers := { c.triggers with buffer := .ofList [1, 0, 0, 0, 0, 0] }
    symbols := { c.symbols with free := Space.empty.resize 2 }
    flags := { c.flags with free := Space.empty.resize 2 } }

/-- A prefixer with two symbols and room for six samples. -/
def twoSymbols (b : CyclicPrefixer Nat ℚ) : CyclicPrefixer Nat ℚ :=
  { b with
    input := { b.input with buffer := .ofList [1, 2, 3, 4] }
    output := { b.output with free := Space.empty.resize 6 } }

/-- Six samples are what a cutter of one sample in two wants for two symbols, and two symbols are
what a prefixer to three samples wants for four. -/
theorem forecasts_exact_two :
    (∃ made : SymbolCutter Nat ℚ,
      ({ fft := 1, symbol := 2, bandwidth := 1 } : CutterOptions ℚ).build = .ok made ∧
      (insideFrame made).forecast 2 = .ok 6 ∧ (insideFrame made).available = 6 ∧
      ∃ turn emitted, (insideFrame made).work "cutter" {} = .ok turn ∧ 2 ≤ emitted ∧
        turn.block.symbols.written = emitted) ∧
    ∃ made : CyclicPrefixer Nat ℚ, CyclicPrefixer.ofSizes 2 3 = .ok made ∧
      (twoSymbols made).forecast 4 = 2 ∧ (twoSymbols made).input.items = 2 ∧
      ∃ d finished emitted, (twoSymbols made).work "prefixer" = .ok (d, finished) ∧ 4 ≤ emitted ∧
        d.output.written = emitted := by
  constructor
  · obtain ⟨made, hbuild, hfilled⟩ := Fault.exists_ok_of_any
      (x := ({ fft := 1, symbol := 2, bandwidth := 1 } : CutterOptions ℚ).build)
      (p := fun made : SymbolCutter Nat ℚ =>
        decide ((insideFrame made).options.policy = .rebase ∧ (insideFrame made).available = 6 ∧
          (insideFrame made).forecast 2 = .ok 6 ∧ (insideFrame made).symbols.room = 2 ∧
          (insideFrame made).flags.room = 2 ∧ (insideFrame made).symbols.written = 0 ∧
          (insideFrame made).options.fft = 1)) (by decide +kernel)
    obtain ⟨hpolicy, havailable, hforecast, hsymbols, hflags, hwritten, hfft⟩ :=
      of_decide_eq_true hfilled
    have hquiet : (insideFrame made).Quiet := by
      rw [SymbolCutter.Quiet, hfft]
      exact fun x hx => List.eq_of_mem_replicate (n := 5) hx
    obtain ⟨turn, emitted, hwork, hemitted, -, hstrict, hcount⟩ := (forecasts_exact.1 _ made
      (insideFrame made) 2 2 hbuild ⟨rfl, rfl, rfl, rfl, rfl⟩ (by decide) rfl (by decide) hquiet
      (by rw [havailable, hsymbols]; decide) (by rw [havailable, hflags]; decide) "cutter" {}).1 6
      hforecast
    have hok : turn.failure = none := by
      by_contra hfailed
      cases hstrict hfailed
    rw [hwritten, Nat.zero_add] at hemitted
    exact ⟨made, hbuild, hforecast, havailable, turn, emitted, hwork,
      (hcount hok).2 (Nat.le_of_eq havailable.symm), hemitted⟩
  · obtain ⟨made, hmade, hfilled⟩ := Fault.exists_ok_of_any (x := CyclicPrefixer.ofSizes 2 3)
      (p := fun made : CyclicPrefixer Nat ℚ =>
        decide ((twoSymbols made).forecast 4 = 2 ∧ (twoSymbols made).input.items = 2 ∧
          (twoSymbols made).ends.connected = false ∧ (twoSymbols made).outputSize = 3 ∧
          (twoSymbols made).output.room = 6 ∧ (twoSymbols made).output.written = 0))
      (by decide +kernel)
    obtain ⟨hforecast, hitems, hends, hsize, hroom, hwritten⟩ := of_decide_eq_true hfilled
    obtain ⟨d, finished, emitted, hwork, hemitted, hcount⟩ := forecasts_exact.2 2 3 made
      (twoSymbols made) 4 hmade ⟨rfl, rfl, rfl, rfl, rfl⟩ (by decide)
      (fun hyes => by rw [hends] at hyes; cases hyes)
      (by rw [hforecast, hitems, hsize, hroom]; decide) "prefixer"
    rw [hwritten, Nat.zero_add] at hemitted
    exact ⟨made, hmade, hforecast, hitems, d, finished, emitted, hwork,
      hcount.2 (by rw [hforecast, hitems]), hemitted⟩

end Both

end OfdmBurst
