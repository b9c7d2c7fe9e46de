import OfdmBurst.Proofs.SymbolCutter.Run

/-!
# What a cutter emits

A cutter emits the segmentation of its streams, in order and from the start, however the streams
arrive and whenever it is called. `Session.Sound` is the invariant behind it. Its heart is one
equation: what was emitted, followed by what is ahead of the cutter, is the whole segmentation. It
is stated for every continuation of the trigger stream, so that pushing more triggers does not
touch it, and every look only moves the boundary between the two parts.

The samples of an emitted segment have all arrived by then, so pushing more samples does not touch
them either.

## Main results

* `Session.Sound.look` — a look moves segments from what is ahead to what was emitted
* `Session.run_sound` — what is kept beside soundness, a run keeps
* `Session.exists_sound` — every session is sound
* `Session.Sound.segments_eq` — the equation, for the triggers that have arrived
* `Session.Sound.isPrefix` — what was emitted begins the segmentation
* `Session.Sound.exists_rest` — the rest of it is not used up
-/

namespace OfdmBurst

namespace SymbolCutter

variable {α τ : Type}

/-- The segments that a look cuts out. -/
def cutNext (c : SymbolCutter α τ) : List Segment :=
  match c.trigger?, c.phase with
  | some k, _ => [⟨c.samples.read + c.options.fft + k, 1⟩]
  | none, .frame _ => [⟨c.samples.read + c.options.fft + c.options.symbol - 1, 0⟩]
  | none, .search => []

/-- A cutter that was just built has noted nothing, and holds no tags. -/
structure Fresh (c : SymbolCutter α τ) : Prop where
  /-- No time was noted. -/
  anchor : c.anchor = none
  /-- No carrier offset was noted. -/
  offset : c.offset = none
  /-- No sample was looked at for tags. -/
  seen : c.seen = 0
  /-- No sample was used up. -/
  read : c.samples.read = 0
  /-- There is no tag on a sample. -/
  samples : c.samples.tags = []
  /-- There is no tag on a flag. -/
  flags : c.flags.tags = .empty

theorem fresh_of_build [Scalar τ] {o : CutterOptions τ} {c : SymbolCutter α τ}
    (hbuild : o.build = .ok c) : c.Fresh := by
  rw [CutterOptions.build] at hbuild
  constructor <;> grind [Inlet.scalar, Outlet.scalar]

namespace Session

/-- A cutter that nobody has used yet. -/
def start (c : SymbolCutter α τ) : Session α τ := { cutter := c }

/-- Everything emitted so far, taken or not: the scalars of the symbols. -/
def symbolsOut (s : Session α τ) : List α := (s.cutter.symbols.total s.symbols).data

/-- Everything emitted so far, taken or not: the flags. -/
def flagsOut (s : Session α τ) : List UInt8 := (s.cutter.flags.total s.flags).data

/-- **The invariant of a session** in which the segments `emitted` were emitted. -/
structure Sound (o : CutterOptions τ) (s : Session α τ) (emitted : List Segment) : Prop where
  /-- The options are those the cutter was built from. -/
  options : s.cutter.options = o
  /-- Samples are consumed one by one. -/
  samples_width : s.cutter.samples.width = 1
  /-- Triggers are consumed one by one. -/
  triggers_width : s.cutter.triggers.width = 1
  /-- Symbols are put out whole. -/
  symbols_width : s.cutter.symbols.width = o.fft
  /-- Flags are put out one by one. -/
  flags_width : s.cutter.flags.width = 1
  /-- The inlet of the samples holds what is left of its record. -/
  samples : s.cutter.samples.Holds s.samples
  /-- So does the inlet of the triggers. -/
  triggers : s.cutter.triggers.Holds s.triggers
  /-- As many triggers were used up as samples. -/
  aligned : s.cutter.triggers.read = s.cutter.samples.read
  /-- The record of the symbols is what was taken of them. -/
  symbols : s.cutter.symbols.Gave s.symbols
  /-- The record of the flags is what was taken of them. -/
  flags : s.cutter.flags.Gave s.flags
  /-- A frame that is over is left. -/
  phase_ne : s.cutter.phase ≠ .frame 0
  /-- The samples put out are those of the segments emitted. -/
  symbols_eq : s.symbolsOut = emitted.flatMap (·.samples o.fft s.samples.data)
  /-- The flags put out are theirs, too. -/
  flags_eq : s.flagsOut = emitted.map (·.flag)
  /-- All samples of a segment emitted have arrived. -/
  inside : ∀ e ∈ emitted, o.fft ≤ e.last + 1 ∧ e.last < s.samples.data.length
  /-- What was emitted and what is ahead is the whole reference, however the triggers go on. -/
  whole : ∀ later, emitted ++ ahead o s.cutter.phase s.cutter.samples.read (s.triggers.data ++ later) =
    segments o (triggersFrom o.fft (s.triggers.data ++ later))

end Session

/-- The samples of a segment inside a stream stay when the stream grows. -/
theorem Segment.samples_append {e : Segment} {fft : Nat} {xs : List α}
    (h : fft ≤ e.last + 1 ∧ e.last < xs.length) (more : List α) :
    e.samples fft (xs ++ more) = e.samples fft xs := by
  rw [samples, samples, take_drop_append (by omega)]

theorem Segment.length_samples {e : Segment} {fft : Nat} {xs : List α}
    (h : fft ≤ e.last + 1 ∧ e.last < xs.length) : (e.samples fft xs).length = fft := by
  rw [samples, List.length_take, List.length_drop]
  omega

theorem flatMap_samples_append {es : List Segment} {fft : Nat} {xs : List α}
    (h : ∀ e ∈ es, fft ≤ e.last + 1 ∧ e.last < xs.length) (more : List α) :
    es.flatMap (·.samples fft (xs ++ more)) = es.flatMap (·.samples fft xs) := by
  induction es with
  | nil => rfl
  | cons e es ih =>
    rw [List.flatMap_cons, List.flatMap_cons, Segment.samples_append (h e (by simp)),
      ih fun e he => h e (by simp [he])]

namespace Session

variable {o : CutterOptions τ} {s : Session α τ} {emitted : List Segment}

namespace Sound

/-- A ready cutter has a window of samples and of triggers in front of it. -/
theorem window_le (h : s.Sound o emitted) (hready : s.cutter.window ≤ s.cutter.available) :
    s.cutter.samples.read + (o.symbol + o.fft + 1) ≤ s.samples.data.length ∧
      s.cutter.samples.read + (o.symbol + o.fft + 1) ≤ s.triggers.data.length := by
  have hs := h.samples.items_eq
  have ht := h.triggers.items_eq
  rw [h.samples_width, Nat.div_one] at hs
  rw [h.triggers_width, Nat.div_one, h.aligned] at ht
  rw [window, h.options, available] at hready
  omega

/-- The window of a look, in the whole stream of triggers. -/
theorem trigger?_eq (h : s.Sound o emitted) (hready : s.cutter.window ≤ s.cutter.available)
    (later : List UInt8) :
    s.cutter.trigger? =
      (((s.triggers.data ++ later).drop (s.cutter.samples.read + o.fft)).take
        (o.symbol + 1)).findIdx? (· != 0) := by
  have hlen := (h.window_le hready).2
  rw [trigger?, h.triggers.buffer, h.triggers_width, h.aligned, h.options, List.drop_drop,
    Nat.mul_one, take_drop_append (by omega)]

/-- A trigger that is found lies in the window. -/
theorem lt_of_found (h : s.Sound o emitted) {k : Nat} (found : s.cutter.trigger? = some k) :
    k < o.symbol + 1 := by
  have hk := lt_of_trigger? found
  rwa [h.options] at hk

/-- The samples that are cut out, in the whole stream. -/
theorem cutAt_eq (h : s.Sound o emitted) (first : Nat) (hfft : 0 < o.fft) (flag : UInt8) :
    s.cutter.cutAt first =
      (⟨s.cutter.samples.read + first + o.fft - 1, flag⟩ : Segment).samples o.fft s.samples.data := by
  rw [cutAt, h.samples.buffer, h.samples_width, Nat.mul_one, h.options, List.drop_drop,
    Segment.samples]
  have hplace : s.cutter.samples.read + first + o.fft - 1 + 1 - o.fft =
      s.cutter.samples.read + first := by omega
  rw [hplace]

end Sound

section Events

variable [Inhabited α] [Rounded τ]

namespace Sound

omit [Inhabited α] [Rounded τ] in
theorem feedSamples (h : s.Sound o emitted) {p : Inlet α τ} {r : Record α τ} {e : Inlet.Event α τ}
    (he : s.cutter.samples.meet s.samples e = .ok (p, r)) :
    ({ s with cutter := { s.cutter with samples := p }, samples := r } : Session α τ).Sound o
      emitted := by
  obtain ⟨hp, hwidth, hread, hrecord⟩ := h.samples.meet he
  refine { h with
    samples_width := hwidth.trans h.samples_width
    samples := hp
    aligned := h.aligned.trans hread.symm
    symbols_eq := ?_
    inside := ?_
    whole := fun later => ?_ }
  · rcases hrecord with rfl | ⟨data, tags, -, rfl⟩
    · exact h.symbols_eq
    · exact h.symbols_eq.trans (flatMap_samples_append h.inside data).symm
  · rcases hrecord with rfl | ⟨data, tags, -, rfl⟩
    · exact h.inside
    · intro e he
      have hin := h.inside e he
      simp only [Record.append, List.length_append]
      omega
  · rw [← h.whole later]
    simp only [hread]

omit [Inhabited α] [Rounded τ] in
theorem feedTriggers (h : s.Sound o emitted) {p : Inlet UInt8 τ} {r : Record UInt8 τ}
    {e : Inlet.Event UInt8 τ} (he : s.cutter.triggers.meet s.triggers e = .ok (p, r)) :
    ({ s with cutter := { s.cutter with triggers := p }, triggers := r } : Session α τ).Sound o
      emitted := by
  obtain ⟨hp, hwidth, hread, hrecord⟩ := h.triggers.meet he
  refine { h with
    triggers_width := hwidth.trans h.triggers_width
    triggers := hp
    aligned := hread.trans h.aligned
    whole := fun later => ?_ }
  rcases hrecord with rfl | ⟨data, tags, -, rfl⟩
  · exact h.whole later
  · simp only [Record.append, List.append_assoc]
    exact h.whole (data ++ later)

omit [Inhabited α] [Rounded τ] in
theorem readSymbols (h : s.Sound o emitted) {p : Outlet α τ} {r : Record α τ} {e : Outlet.Event}
    (he : s.cutter.symbols.meet s.symbols e = .ok (p, r)) :
    ({ s with cutter := { s.cutter with symbols := p }, symbols := r } : Session α τ).Sound o
      emitted := by
  obtain ⟨hp, hwidth, htotal⟩ := h.symbols.meet he
  exact { h with
    symbols_width := hwidth.trans h.symbols_width
    symbols := hp
    symbols_eq := (congrArg Record.data htotal).trans h.symbols_eq }

omit [Inhabited α] [Rounded τ] in
theorem readFlags (h : s.Sound o emitted) {p : Outlet UInt8 τ} {r : Record UInt8 τ}
    {e : Outlet.Event} (he : s.cutter.flags.meet s.flags e = .ok (p, r)) :
    ({ s with cutter := { s.cutter with flags := p }, flags := r } : Session α τ).Sound o
      emitted := by
  obtain ⟨hp, hwidth, htotal⟩ := h.flags.meet he
  exact { h with
    flags_width := hwidth.trans h.flags_width
    flags := hp
    flags_eq := (congrArg Record.data htotal).trans h.flags_eq }

omit [Rounded τ] in
/-- Using up samples and putting one segment, which was the first of those ahead. -/
theorem emit (h : s.Sound o emitted) {d : SymbolCutter α τ} {used : Nat} {segment : Segment}
    (marks : List (Tag τ)) (hoptions : d.options = o)
    (hinside : o.fft ≤ segment.last + 1 ∧ segment.last < s.samples.data.length)
    (hsamples : s.cutter.samples.consume used = .ok d.samples)
    (htriggers : s.cutter.triggers.consume used = .ok d.triggers)
    (hsymbols : s.cutter.symbols.put (segment.samples o.fft s.samples.data) = .ok d.symbols)
    (hflags : (s.cutter.flags.attachAll marks).put [segment.flag] = .ok d.flags)
    (hmarks : ∀ t ∈ marks, t.index = s.cutter.flags.written)
    (hphase : d.phase ≠ .frame 0)
    (hahead : ∀ later,
      ahead o s.cutter.phase s.cutter.samples.read (s.triggers.data ++ later) =
        segment :: ahead o d.phase (s.cutter.samples.read + used) (s.triggers.data ++ later)) :
    ({ s with cutter := d } : Session α τ).Sound o (emitted ++ [segment]) := by
  obtain ⟨hsw, hsr⟩ := Inlet.consume_frame hsamples
  obtain ⟨htw, htr⟩ := Inlet.consume_frame htriggers
  obtain ⟨hsym, hsymw, -, hsymt⟩ := h.symbols.put hsymbols
  obtain ⟨hfl, hflw, -, hflt⟩ := h.flags.emit marks (fun t ht => by
    rw [hmarks t ht, h.flags_width, List.length_singleton, Nat.div_one]
    omega) hflags
  refine
    { options := hoptions
      samples_width := hsw.trans h.samples_width
      triggers_width := htw.trans h.triggers_width
      symbols_width := hsymw.trans h.symbols_width
      flags_width := hflw.trans h.flags_width
      samples := h.samples.consume hsamples
      triggers := h.triggers.consume htriggers
      aligned := by rw [hsr, htr, h.aligned]
      symbols := hsym
      flags := hfl
      phase_ne := hphase
      symbols_eq := ?_
      flags_eq := ?_
      inside := ?_
      whole := fun later => ?_ }
  · rw [List.flatMap_append, ← h.symbols_eq]
    exact (congrArg Record.data hsymt).trans (by simp [symbolsOut])
  · rw [List.map_append, ← h.flags_eq]
    exact (congrArg Record.data hflt).trans (by simp [flagsOut])
  · intro e he
    rcases List.mem_append.1 he with he | he
    · exact h.inside e he
    · rw [List.mem_singleton] at he
      exact he ▸ hinside
  · rw [← h.whole later, hahead later, hsr]
    simp

/-- **A look moves segments from what is ahead to what was emitted.** -/
theorem look (h : s.Sound o emitted) (hfft : 0 < o.fft) (htimeout : o.timeout ≠ 0)
    {d : SymbolCutter α τ} {source : String} {used : Nat} (hready : s.cutter.Ready)
    (hstep : Step s.cutter source d used) :
    ({ s with cutter := d } : Session α τ).Sound o (emitted ++ s.cutter.cutNext) := by
  have hwindow := h.window_le hready.1
  have hsym : o.fft ≤ o.symbol := h.options ▸ s.cutter.fft_le
  have hto : s.cutter.options.timeout = o.timeout := by rw [h.options]
  have hused : s.cutter.options.symbol = o.symbol := by rw [h.options]
  have hspan : ∀ later, s.cutter.samples.read + o.fft + (o.symbol + 1) ≤
      (s.triggers.data ++ later).length := by
    intro later
    rw [List.length_append]; omega
  cases hstep with
  | @burst k _ _ _ _ _ _ _ _ found _ _ _ symbol flag sampled triggered =>
    have hk := h.lt_of_found found
    have hlast : s.cutter.samples.read + (k + 1) + o.fft - 1 = s.cutter.samples.read + o.fft + k := by
      omega
    have hcut : s.cutter.cutNext = [⟨s.cutter.samples.read + o.fft + k, 1⟩] := by
      rw [cutNext, found, h.options]
    rw [h.cutAt_eq _ hfft 1, hlast] at symbol
    rw [hcut]
    refine h.emit _ h.options ⟨?_, ?_⟩ sampled triggered symbol flag ?_ ?_ fun later => ?_
    · simp only; omega
    · simp only; omega
    · exact fun t ht => index_of_mem_burstMarks ht
    · simpa [hto] using htimeout
    · rw [h.trigger?_eq hready.1 later] at found
      rw [ahead_of_some hfft found (hspan later) s.cutter.phase, hto]
  | @follow n _ _ _ _ _ _ _ found framed _ symbol flag sampled triggered =>
    obtain ⟨m, rfl⟩ : ∃ m, n = m + 1 := by
      cases n with
      | zero => exact absurd framed h.phase_ne
      | succ m => exact ⟨m, rfl⟩
    have hlast : s.cutter.samples.read + o.symbol + o.fft - 1 =
        s.cutter.samples.read + o.fft + o.symbol - 1 := by omega
    have hcut : s.cutter.cutNext = [⟨s.cutter.samples.read + o.fft + o.symbol - 1, 0⟩] := by
      rw [cutNext, found, framed, h.options]
    rw [h.cutAt_eq _ hfft 0, hused, hlast] at symbol
    rw [hused] at sampled triggered
    rw [hcut]
    refine h.emit [] h.options ⟨?_, ?_⟩ sampled triggered symbol flag (by simp) ?_ fun later => ?_
    · simp only; omega
    · simp only; omega
    · cases m <;> simp [countdown]
    · rw [h.trigger?_eq hready.1 later] at found
      rw [framed, ahead_frame_of_none hfft found (hspan later)]
  | pass found searching _ sampled triggered =>
    obtain ⟨hsw, hsr⟩ := Inlet.consume_frame sampled
    obtain ⟨htw, htr⟩ := Inlet.consume_frame triggered
    have hcut : s.cutter.cutNext = [] := by rw [cutNext, found, searching]
    rw [hcut, List.append_nil]
    refine { h with
      samples_width := hsw.trans h.samples_width
      triggers_width := htw.trans h.triggers_width
      samples := h.samples.consume sampled
      triggers := h.triggers.consume triggered
      aligned := by rw [hsr, htr, h.aligned]
      whole := fun later => ?_ }
    rw [h.trigger?_eq hready.1 later] at found
    rw [← h.whole later]
    simp only [searching, hsr, hused]
    rw [ahead_search_of_none found (hspan later)]

end Sound

/-! ### The whole session -/

omit [Inhabited α] in
/-- What building a cutter checks, as far as cutting depends on it, and where it starts. -/
theorem sound_start {c : SymbolCutter α τ} (hbuild : o.build = .ok c) :
    0 < o.fft ∧ o.timeout ≠ 0 ∧ (start c).Sound o [] := by
  rw [CutterOptions.build] at hbuild
  split at hbuild
  · cases hbuild
  next hfft =>
    split at hbuild
    · cases hbuild
    · split at hbuild
      · cases hbuild
      · split at hbuild
        · cases hbuild
        next htimeout =>
          split at hbuild
          · cases hbuild
          · cases hbuild
            refine ⟨Nat.pos_of_ne_zero hfft, htimeout, ?_⟩
            exact
              { options := rfl
                samples_width := rfl
                triggers_width := rfl
                symbols_width := rfl
                flags_width := rfl
                samples := Inlet.holds_fresh rfl rfl rfl
                triggers := Inlet.holds_fresh rfl rfl rfl
                aligned := rfl
                symbols := Outlet.gave_fresh rfl rfl rfl
                flags := Outlet.gave_fresh rfl rfl rfl
                phase_ne := by simp [start]
                symbols_eq := rfl
                flags_eq := rfl
                inside := by simp
                whole := fun later => by simp [ahead, start, Inlet.scalar] }

/-- **What is kept beside soundness, with the segments that were emitted, is kept by a run.** -/
theorem run_sound {P : Session α τ → List Segment → Prop} {t : Session α τ}
    {events : List (Event α τ)} (hfft : 0 < o.fft) (htimeout : o.timeout ≠ 0)
    (samples : ∀ s emitted p r e, s.Sound o emitted → P s emitted →
      s.cutter.samples.meet s.samples e = .ok (p, r) →
      P { s with cutter := { s.cutter with samples := p }, samples := r } emitted)
    (triggers : ∀ s emitted p r e, s.Sound o emitted → P s emitted →
      s.cutter.triggers.meet s.triggers e = .ok (p, r) →
      P { s with cutter := { s.cutter with triggers := p }, triggers := r } emitted)
    (symbols : ∀ s emitted p r e, s.Sound o emitted → P s emitted →
      s.cutter.symbols.meet s.symbols e = .ok (p, r) →
      P { s with cutter := { s.cutter with symbols := p }, symbols := r } emitted)
    (flags : ∀ s emitted p r e, s.Sound o emitted → P s emitted →
      s.cutter.flags.meet s.flags e = .ok (p, r) →
      P { s with cutter := { s.cutter with flags := p }, flags := r } emitted)
    (look : ∀ s emitted source d used, Event.work source ∈ events → s.Sound o emitted →
      P s emitted → s.cutter.Ready → Step s.cutter source d used →
      P { s with cutter := d } (emitted ++ s.cutter.cutNext))
    (hs : ∃ emitted, s.Sound o emitted ∧ P s emitted) (hrun : s.run events = .ok t) :
    ∃ emitted, t.Sound o emitted ∧ P t emitted := by
  refine run_induct_of_mem (P := fun s => ∃ emitted, s.Sound o emitted ∧ P s emitted)
    ?_ ?_ ?_ ?_ ?_ hs hrun
  · rintro s p r e ⟨emitted, hsound, h⟩ hmeet
    exact ⟨emitted, hsound.feedSamples hmeet, samples _ _ _ _ _ hsound h hmeet⟩
  · rintro s p r e ⟨emitted, hsound, h⟩ hmeet
    exact ⟨emitted, hsound.feedTriggers hmeet, triggers _ _ _ _ _ hsound h hmeet⟩
  · rintro s p r e ⟨emitted, hsound, h⟩ hmeet
    exact ⟨emitted, hsound.readSymbols hmeet, symbols _ _ _ _ _ hsound h hmeet⟩
  · rintro s p r e ⟨emitted, hsound, h⟩ hmeet
    exact ⟨emitted, hsound.readFlags hmeet, flags _ _ _ _ _ hsound h hmeet⟩
  · rintro s source d used hwork ⟨emitted, hsound, h⟩ hready hstep
    exact ⟨emitted ++ s.cutter.cutNext, hsound.look hfft htimeout hready hstep,
      look _ _ _ _ _ hwork hsound h hready hstep⟩

/-- **Every session is sound**, whatever its events. -/
theorem exists_sound {c : SymbolCutter α τ} (hbuild : o.build = .ok c) {events : List (Event α τ)}
    (hrun : (start c).run events = .ok s) : ∃ emitted, s.Sound o emitted := by
  obtain ⟨hfft, htimeout, hstart⟩ := sound_start hbuild
  obtain ⟨emitted, hsound, -⟩ := run_sound (P := fun _ _ => True) hfft htimeout
    (fun _ _ _ _ _ _ _ _ => trivial) (fun _ _ _ _ _ _ _ _ => trivial)
    (fun _ _ _ _ _ _ _ _ => trivial) (fun _ _ _ _ _ _ _ _ => trivial)
    (fun _ _ _ _ _ _ _ _ _ _ => trivial) ⟨[], hstart, trivial⟩ hrun
  exact ⟨emitted, hsound⟩

omit [Inhabited α] [Rounded τ] in
/-- What was emitted and what is ahead, in the triggers that have arrived. -/
theorem Sound.segments_eq (h : s.Sound o emitted) :
    emitted ++ ahead o s.cutter.phase s.cutter.samples.read s.triggers.data =
      segments o (triggersFrom o.fft s.triggers.data) := by
  have hwhole := h.whole []
  rwa [List.append_nil] at hwhole

omit [Inhabited α] [Rounded τ] in
/-- What was emitted begins the segments of the triggers that have arrived. -/
theorem Sound.segments_isPrefix (h : s.Sound o emitted) :
    emitted <+: segments o (triggersFrom o.fft s.triggers.data) :=
  h.segments_eq ▸ List.prefix_append _ _

omit [Inhabited α] [Rounded τ] in
/-- The segments of a sound session begin the segmentation of its streams, however they go on. -/
theorem Sound.isPrefix (h : s.Sound o emitted) (moreSamples : List α) (moreTriggers : List UInt8) :
    (emitted.map fun e => (e.samples o.fft s.samples.data, e.flag)) <+:
      segmentation o (s.samples.data ++ moreSamples) (s.triggers.data ++ moreTriggers) := by
  rw [segmentation, ← h.whole moreTriggers, List.map_append]
  have hsame : (emitted.map fun e => (e.samples o.fft s.samples.data, e.flag)) =
      emitted.map fun e => (e.samples o.fft (s.samples.data ++ moreSamples), e.flag) :=
    List.map_congr_left fun e he => by rw [Segment.samples_append (h.inside e he)]
  rw [hsame]
  exact List.prefix_append _ _

omit [Inhabited α] [Rounded τ] in
/-- **Nothing of the rest is used up**, however the triggers go on: neither the samples of a segment
that was not emitted nor, if it is flagged, its trigger. -/
theorem Sound.exists_rest (h : s.Sound o emitted) (later : List UInt8) :
    ∃ rest, emitted ++ rest = segments o (triggersFrom o.fft (s.triggers.data ++ later)) ∧
      ∀ e ∈ rest, s.cutter.samples.read + o.fft ≤ e.last :=
  ⟨_, h.whole later, fun _ he => le_last_of_mem_ahead (h.options ▸ s.cutter.symbol_pos) he⟩

omit [Inhabited α] [Rounded τ] in
/-- What is not used up is in the inlets, samples and triggers side by side. -/
theorem Sound.buffers_eq (h : s.Sound o emitted) :
    s.cutter.samples.buffer.toList = s.samples.data.drop s.cutter.samples.read ∧
      s.cutter.triggers.buffer.toList = s.triggers.data.drop s.cutter.samples.read := by
  rw [h.samples.buffer, h.triggers.buffer, h.samples_width, h.triggers_width, h.aligned,
    Nat.mul_one]
  exact ⟨rfl, rfl⟩

end Events

end Session

end SymbolCutter

end OfdmBurst
