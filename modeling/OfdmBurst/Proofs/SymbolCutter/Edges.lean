import OfdmBurst.Proofs.SymbolCutter.Ending
import OfdmBurst.Proofs.SymbolCutter.Frames

/-!
# The two ends of a stream

A cutter looks at a whole window at a time, and it looks for triggers behind the first fft length of
it. Both cost something at the ends of a stream that is not padded. This module says what is cut
when a cutter finishes, and what can be missing.

At the start, a trigger counts from place `fft` on. The one place before it, where the fft length of
samples is just there, is never looked at.

At the end, less than a window is left. A trigger in it was looked at only if the look before
reached that far, and a look reaches a symbol length behind the samples that it is sure to use up.
So every trigger with a symbol length of samples behind it was found. Inside a frame the cutter
knows where the next symbol is, and all it lacks is the one sample more that its window has. So
every symbol with one more sample behind it was cut.

Nor is a symbol of a frame cut if the next trigger is right behind it. The look that would cut it
finds the trigger first.

## Main definitions

* `UpToEdges` — everything is cut but what is too near to an edge
* `Roomy` — there is room for whatever is cut

## Main results

* `drain_finishes`, `Session.work_finishes` — a call of work with room to spare finishes, if a
  stream has ended
* `Session.cuts_up_to_edges` — what was cut then
* `Session.loses_at_edges` — the bounds are sharp, at the start and at the end
-/

namespace OfdmBurst

namespace SymbolCutter

variable {α τ : Type} {o : CutterOptions τ}

theorem pairwise_triggersFrom (first : Nat) (triggers : List UInt8) :
    (triggersFrom first triggers).Pairwise (· < ·) :=
  List.Pairwise.filter _ List.pairwise_lt_range'

/-- Everything that there is to cut from a stream of `length` samples is cut, up to its edges: the
triggers with a symbol length of samples behind them, and the symbols of their frames with one more
sample behind them. A trigger up to that sample ends the frame before. -/
structure UpToEdges (o : CutterOptions τ) (length : Nat) (triggers : List UInt8)
    (emitted : List Segment) : Prop where
  /-- Every trigger with a symbol length of samples behind it has its flagged segment. -/
  bursts : ∀ i ∈ triggersFrom o.fft triggers, i + o.symbol < length → ⟨i, 1⟩ ∈ emitted
  /-- Every follower with one more sample behind it and no trigger up to there has its segment. -/
  followers : ∀ i ∈ triggersFrom o.fft triggers, ∀ j, 1 ≤ j → j ≤ o.timeout →
    i + j * o.symbol + 1 < length →
    (∀ k, i < k → k ≤ i + j * o.symbol + 1 → triggers.getD k 0 = 0) →
    ⟨i + j * o.symbol, 0⟩ ∈ emitted

section Run

variable [Inhabited α] [Rounded τ]

/-- **Why a call of work does not finish**, if it does not fail: no stream has ended, or a look
could be taken and there is no room. -/
theorem drain_finishes {source : String} {queue : MessageQueue} {n : Nat} {c : SymbolCutter α τ}
    {turn : Turn (SymbolCutter α τ)} (hn : n = c.available)
    (h : c.drain source queue n = .ok turn) (hok : turn.failure = none) :
    turn.finished = (turn.block.samples.closed || turn.block.triggers.closed) ∨
      turn.block.window ≤ turn.block.available ∧
        (turn.block.symbols.room = 0 ∨ turn.block.flags.room = 0) := by
  induction n using Nat.strongRecOn generalizing c with
  | ind n ih =>
    rw [drain] at h
    split at h
    · cases h
      exact .inl rfl
    next hwindow =>
      split at h
      next hroom =>
        cases h
        exact .inr ⟨hn ▸ Nat.le_of_not_lt hwindow, hroom⟩
      next hroom =>
        split at h
        · cases h
        · cases h
          cases hok
        next d used hstep =>
          have hpos := used.property
          have hwin : 0 < c.window := Nat.succ_pos _
          refine ih (n - used.val) (by omega) ?_ h
          rw [(step_cases hstep).available_eq, hn]

/-- There is room for as many symbols as there are samples at hand. -/
def Roomy (c : SymbolCutter α τ) : Prop :=
  c.available ≤ c.symbols.room ∧ c.available ≤ c.flags.room

omit [Rounded τ] in
/-- One item takes up room for one item at most. -/
theorem room_le_of_put {β : Type} [Inhabited β] {p q : Outlet β τ} (marks : List (Tag τ))
    {data : List β} (h : (p.attachAll marks).put data = .ok q) (hdata : data.length ≤ p.width) :
    p.room ≤ q.room + 1 := by
  have hone : data.length / p.width ≤ 1 := Nat.div_le_of_le_mul (by omega)
  rw [Outlet.room_put marks h]
  omega

/-- A look uses up a sample for everything that it emits. -/
theorem Roomy.look {c d : SymbolCutter α τ} {source : String} {used : Nat}
    (hsymbols : c.symbols.width = c.options.fft) (hflags : c.flags.width = 1) (h : c.Roomy)
    (hready : c.Ready) (hstep : Step c source d used) : d.Roomy := by
  have hlength : ∀ first, (c.cutAt first).length ≤ c.symbols.width := fun first =>
    hsymbols ▸ List.length_take_le _ _
  have hwin : 0 < c.window := Nat.succ_pos _
  have hwindow := hready.1
  have hleft := hstep.available_eq
  have hsymbol := c.symbol_pos
  obtain ⟨hrooms, hroomf⟩ := h
  rw [Roomy, hleft]
  cases hstep with
  | @burst _ _ _ _ _ symbols flags _ _ _ _ _ _ symbol flag =>
    have hs : c.symbols.room ≤ symbols.room + 1 := room_le_of_put [] symbol (hlength _)
    have hf : c.flags.room ≤ flags.room + 1 := room_le_of_put _ flag (Nat.le_of_eq hflags.symm)
    dsimp only
    omega
  | @follow _ _ _ _ symbols flags _ _ _ _ _ symbol flag =>
    have hs : c.symbols.room ≤ symbols.room + 1 := room_le_of_put [] symbol (hlength _)
    have hf : c.flags.room ≤ flags.room + 1 := room_le_of_put [] flag (Nat.le_of_eq hflags.symm)
    dsimp only
    omega
  | pass =>
    dsimp only
    omega

namespace Session

variable {s : Session α τ} {emitted : List Segment}

/-- **A call of work finishes**, if a stream has ended and there is room for whatever is cut. -/
theorem work_finishes {c : SymbolCutter α τ} (hbuild : o.build = .ok c)
    {events : List (Event α τ)} (hrun : (start c).run events = .ok s)
    (hended : s.cutter.samples.closed = true ∨ s.cutter.triggers.closed = true)
    (hroomy : s.cutter.Roomy) (hpolicy : o.policy ≠ .strict)
    (hwindow : o.symbol + o.fft + 1 < wordLimit) (hfits : o.preamble * o.symbol < wordLimit)
    (htimes : TimesFit s.samples o.bandwidth) (source : String) (queue : MessageQueue) :
    ∃ turn, s.cutter.work source queue = .ok turn ∧ turn.failure = none ∧
      turn.finished = true := by
  obtain ⟨hfft, htimeout, -⟩ := sound_start hbuild
  obtain ⟨emitted, hsound⟩ := exists_sound hbuild hrun
  have hspan : s.cutter.window < wordLimit := by
    rw [window, hsound.options]
    exact hwindow
  obtain ⟨turn, hturn, hok⟩ := work_succeeds hbuild hrun hspan hpolicy hfits htimes source queue
  refine ⟨turn, hturn, hok, ?_⟩
  obtain ⟨_, -, hdrain⟩ := Fault.bind_eq_ok_iff.1 hturn
  obtain ⟨-, hroom, hsamples, htriggers⟩ := drain_induct
    (P := fun c => (∃ emitted, ({ s with cutter := c } : Session α τ).Sound o emitted) ∧ c.Roomy ∧
      c.samples.closed = s.cutter.samples.closed ∧ c.triggers.closed = s.cutter.triggers.closed)
    (by
      rintro c d used ⟨⟨emitted, hc⟩, hroomy, hsamples, htriggers⟩ hready hstep
      have hwidth : c.symbols.width = c.options.fft :=
        hc.symbols_width.trans (congrArg _ hc.options.symm)
      exact ⟨⟨_, hc.look hfft htimeout hready hstep⟩,
        hroomy.look hwidth hc.flags_width hready hstep,
        (Inlet.closed_consume hstep.consumed.1).trans hsamples,
        (Inlet.closed_consume hstep.consumed.2).trans htriggers⟩)
    rfl ⟨⟨emitted, hsound⟩, hroomy, rfl, rfl⟩ hdrain
  rcases drain_finishes rfl hdrain hok with hfinished | ⟨hready, hfull⟩
  · rw [hfinished, hsamples, htriggers]
    exact Bool.or_eq_true_iff.2 hended
  · have hwin : 0 < turn.block.window := Nat.succ_pos _
    obtain ⟨hsymbols, hflags⟩ := hroom
    omega

omit [Inhabited α] [Rounded τ] in
/-- What a cutter that has run dry has not cut reaches up to the edge of the stream. -/
theorem Sound.upToEdges (h : s.Sound o emitted)
    (hlength : s.triggers.data.length = s.samples.data.length)
    (hdry : s.cutter.available < s.cutter.window) :
    UpToEdges o s.samples.data.length s.triggers.data emitted := by
  have hcut : ∀ e ∈ segments o (triggersFrom o.fft s.triggers.data),
      (e.flag = 1 → e.last + o.symbol < s.samples.data.length) →
      (e.flag = 0 → e.last + 1 < s.samples.data.length) → e ∈ emitted := by
    intro e he hburst hfollows
    rw [← h.segments_eq] at he
    refine (List.mem_append.1 he).resolve_right fun hahead => ?_
    rcases h.held_back hlength hdry e hahead with ⟨hflag, hlast⟩ | ⟨hflag, hlast⟩
    · exact Nat.not_lt.2 hlast (hburst hflag)
    · exact Nat.not_lt.2 hlast (hfollows hflag)
  constructor
  · intro i hi hlast
    refine hcut _ (trigger_mem_segments hi) (fun _ => hlast) fun hflag => ?_
    cases hflag
  · intro i hi j hpos hj hlast hclear
    refine hcut _ (follower_mem_segments (pairwise_triggersFrom _ _) hi hpos hj fun u hu hlt => ?_)
      (fun hflag => ?_) fun _ => hlast
    · by_contra hclose
      exact (mem_triggersFrom_iff.1 hu).2.2 (hclear u hlt (Nat.le_of_not_lt hclose))
    · cases hflag

/-- **A cutter that finishes has cut its streams up to the edges**: all triggers with a symbol
length of samples behind them, and all symbols of a frame with one more sample behind them. It has
cut nothing but the segmentation. And a call of work does finish, if a stream has ended, there is
room for whatever is cut, and what is computed fits its words. -/
theorem cuts_up_to_edges {c : SymbolCutter α τ} (hbuild : o.build = .ok c)
    {events : List (Event α τ)} (hrun : (start c).run events = .ok s)
    (hlength : s.triggers.data.length = s.samples.data.length) (source : String)
    (queue : MessageQueue) :
    (∀ turn, s.cutter.work source queue = .ok turn → turn.finished = true →
      ∃ emitted : List Segment,
        ({ s with cutter := turn.block } : Session α τ).symbolsOut =
          emitted.flatMap (·.samples o.fft s.samples.data) ∧
        ({ s with cutter := turn.block } : Session α τ).flagsOut = emitted.map (·.flag) ∧
        emitted <+: segments o (triggersFrom o.fft s.triggers.data) ∧
        UpToEdges o s.samples.data.length s.triggers.data emitted) ∧
    (s.cutter.samples.closed = true ∨ s.cutter.triggers.closed = true → s.cutter.Roomy →
      o.policy ≠ .strict → o.symbol + o.fft + 1 < wordLimit → o.preamble * o.symbol < wordLimit →
      TimesFit s.samples o.bandwidth →
      ∃ turn, s.cutter.work source queue = .ok turn ∧ turn.failure = none ∧
        turn.finished = true) := by
  refine ⟨fun turn hturn hfinished => ?_, fun hended hroomy hpolicy hwindow hfits htimes =>
    work_finishes hbuild hrun hended hroomy hpolicy hwindow hfits htimes source queue⟩
  obtain ⟨hfft, htimeout, -⟩ := sound_start hbuild
  obtain ⟨emitted, hsound⟩ := exists_sound hbuild hrun
  obtain ⟨_, -, hdrain⟩ := Fault.bind_eq_ok_iff.1 hturn
  obtain ⟨cut, hcut⟩ := drain_induct
    (P := fun c => ∃ emitted, ({ s with cutter := c } : Session α τ).Sound o emitted)
    (by
      rintro c d used ⟨emitted, hc⟩ hready hstep
      exact ⟨_, hc.look hfft htimeout hready hstep⟩)
    rfl ⟨emitted, hsound⟩ hdrain
  exact ⟨cut, hcut.symbols_eq, hcut.flags_eq, hcut.segments_isPrefix,
    hcut.upToEdges hlength (drain_finished rfl hdrain hfinished).1⟩

/-- Streams that arrive whole, and end, with room for every sample. -/
def arrival (triggers : List UInt8) : List (Event Nat ℚ) :=
  [.symbols (.reserve triggers.length), .flags (.reserve triggers.length),
    .samples (.push (List.range triggers.length) []), .triggers (.push triggers []),
    .samples .close, .triggers .close]

/-- The second trigger comes too early for a second symbol behind the first, and the stream ends too
early for one behind the second. -/
theorem cuts_up_to_edges_twice :
    ∃ (c : SymbolCutter Nat ℚ) (s : Session Nat ℚ) (turn : Turn (SymbolCutter Nat ℚ)),
      ({ fft := 1, symbol := 2, bandwidth := 1, timeout := 2 } : CutterOptions ℚ).build = .ok c ∧
      (start c).run (arrival [0, 1, 0, 0, 0, 1, 0, 0]) = .ok s ∧
      s.cutter.work "cutter" {} = .ok turn ∧ turn.finished = true ∧
      ∃ emitted : List Segment,
        ({ s with cutter := turn.block } : Session Nat ℚ).flagsOut = emitted.map (·.flag) ∧
        ⟨1, 1⟩ ∈ emitted ∧ ⟨3, 0⟩ ∈ emitted ∧ ⟨5, 1⟩ ∈ emitted := by
  obtain ⟨c, hbuild, h⟩ := Fault.exists_ok_of_any
    (x := ({ fft := 1, symbol := 2, bandwidth := 1, timeout := 2 } : CutterOptions ℚ).build)
    (p := fun c : SymbolCutter Nat ℚ =>
      ((start c).run (arrival [0, 1, 0, 0, 0, 1, 0, 0])).toOption.any fun s : Session Nat ℚ =>
        s.triggers.data == [0, 1, 0, 0, 0, 1, 0, 0] && s.samples.data.length == 8 &&
        s.samples.tags.isEmpty && s.cutter.samples.closed &&
        decide (s.cutter.available ≤ s.cutter.symbols.room) &&
        decide (s.cutter.available ≤ s.cutter.flags.room))
    (by decide +kernel)
  obtain ⟨s, hrun, hs⟩ := Fault.exists_ok_of_any h
  simp only [Bool.and_eq_true, beq_iff_eq, decide_eq_true_eq, List.isEmpty_iff] at hs
  obtain ⟨⟨⟨⟨⟨htriggers, hlength⟩, htags⟩, hclosed⟩, hsymbols⟩, hflags⟩ := hs
  have htimes : TimesFit s.samples 1 := by
    refine timesFit_of_untagged htags ?_
    rw [hlength]
    decide +kernel
  obtain ⟨hcuts, hends⟩ :=
    cuts_up_to_edges hbuild hrun (by rw [htriggers, hlength]; rfl) "cutter" {}
  obtain ⟨turn, hturn, -, hfinished⟩ :=
    hends (.inl hclosed) ⟨hsymbols, hflags⟩ (by decide) (by decide) (by decide) htimes
  obtain ⟨emitted, -, hout, -, hedges⟩ := hcuts turn hturn hfinished
  rw [htriggers, hlength] at hedges
  have hclear : ∀ k ≤ 4, 1 < k → ([0, 1, 0, 0, 0, 1, 0, 0] : List UInt8).getD k 0 = 0 := by decide
  refine ⟨c, s, turn, hbuild, hrun, hturn, hfinished, emitted, hout, ?_, ?_, ?_⟩
  · exact hedges.bursts 1 (by decide) (by decide)
  · exact hedges.followers 1 (by decide) 1 (by decide) (by decide) (by decide)
      fun k hlt hle => hclear k hle hlt
  · exact hedges.bursts 5 (by decide) (by decide)

/-- **What is lost at the edges**: a trigger on the first sample, which is an fft length, a trigger
on the last one, the symbol behind a trigger, which ends with the stream, and the symbol between two
triggers. -/
theorem loses_at_edges :
    ∃ c : SymbolCutter Nat ℚ,
      ({ fft := 1, symbol := 1, bandwidth := 1, timeout := 1 } : CutterOptions ℚ).build = .ok c ∧
      ∀ p ∈ [([1, 0, 0], []), ([0, 0, 0, 1], []), ([0, 1, 0], [1]),
          ([0, 1, 0, 1, 0, 0], [1, 1, 0])],
        ∃ (s : Session Nat ℚ) (turn : Turn (SymbolCutter Nat ℚ)),
          (start c).run (arrival p.1) = .ok s ∧ s.cutter.work "cutter" {} = .ok turn ∧
          turn.finished = true ∧
          ({ s with cutter := turn.block } : Session Nat ℚ).flagsOut = p.2 := by
  obtain ⟨c, hbuild, h⟩ := Fault.exists_ok_of_any
    (x := ({ fft := 1, symbol := 1, bandwidth := 1, timeout := 1 } : CutterOptions ℚ).build)
    (p := fun c : SymbolCutter Nat ℚ =>
      ([([1, 0, 0], []), ([0, 0, 0, 1], []), ([0, 1, 0], [1]), ([0, 1, 0, 1, 0, 0], [1, 1, 0])] :
          List (List UInt8 × List UInt8)).all fun p =>
        ((start c).run (arrival p.1)).toOption.any fun s : Session Nat ℚ =>
          (s.cutter.work "cutter" {}).toOption.any fun turn =>
            turn.finished && ({ s with cutter := turn.block } : Session Nat ℚ).flagsOut == p.2)
    (by decide +kernel)
  refine ⟨c, hbuild, fun p hp => ?_⟩
  obtain ⟨s, hrun, hs⟩ := Fault.exists_ok_of_any (List.all_eq_true.1 h p hp)
  obtain ⟨turn, hturn, hout⟩ := Fault.exists_ok_of_any hs
  rw [Bool.and_eq_true, beq_iff_eq] at hout
  exact ⟨s, turn, hrun, hturn, hout⟩

end Session

end Run

end SymbolCutter

end OfdmBurst
