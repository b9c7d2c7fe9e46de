import OfdmBurst.Proofs.SymbolCutter.Timing

/-!
# What a burst is marked with

The flagged symbol of a burst carries the time at which the burst began, and it may carry an offset
of the carrier. A detector puts such an offset on the samples, somewhere in front of the trigger it
belongs to. The cutter keeps the most recent one, hands it on with the next burst, and forgets it.

So an offset belongs to the burst with the first trigger that is honoured at or behind it, and to no
other. `offsetBetween` says that of the whole stream: it reads off the tags from the last trigger
that was honoured up to the next. That the cutter agrees rests on the two ends of what it has noted.
It notes every tag once, and when it finds a trigger it has noted exactly the tags up to it.

With the times of `Session.Timed` this gives all tags on the flags, as one list.

## Main definitions

* `offsetBetween` — the most recent carrier offset on some of the samples
* `honoured` — how far the stream was used up by triggers
* `descriptions` — the reference: the tags of all bursts
* `Session.Described` — the invariant

## Main results

* `observe_offset` — a look notes the offsets up to where it ends
* `Session.Described.look` — a look keeps the invariant
* `Session.describes_bursts` — all tags of a session, and that its calls of work return
-/

namespace OfdmBurst

namespace SymbolCutter

variable {α τ : Type}

/-! ### Offsets -/

/-- The most recent carrier offset on the samples from `first` on and before `bound`. -/
def offsetBetween (tags : List (Tag τ)) (first bound : Nat) : Option Float :=
  (Tag.latest? (tags.filter fun t =>
    first ≤ t.index && t.index < bound && t.key == Tag.syncOffset)).bind Tag.number?

/-- Carrier offsets are numbers. -/
def OffsetsGiven (tags : List (Tag τ)) : Prop :=
  ∀ t ∈ tags, t.key = Tag.syncOffset → ∃ x, t.number? = some x

theorem offsetBetween_of_le {tags : List (Tag τ)} {first bound : Nat} (h : bound ≤ first) :
    offsetBetween tags first bound = none := by
  have hnone : (tags.filter fun t =>
      first ≤ t.index && t.index < bound && t.key == Tag.syncOffset) = [] := by
    refine List.filter_eq_nil_iff.2 fun t _ => ?_
    simp only [Bool.and_eq_true, decide_eq_true_eq]
    omega
  rw [offsetBetween, hnone]
  rfl

/-- The offset is a later one, if there are any. -/
theorem offsetBetween_eq_or {tags : List (Tag τ)} {first mid last : Nat} (hfirst : first ≤ mid)
    (hlast : mid ≤ last) (hoffsets : OffsetsGiven tags) :
    offsetBetween tags first last =
      (offsetBetween tags mid last).or (offsetBetween tags first mid) := by
  have hnew : (tags.filter fun t =>
      first ≤ t.index && t.index < last && t.key == Tag.syncOffset).filter (mid ≤ ·.index) =
        tags.filter fun t => mid ≤ t.index && t.index < last && t.key == Tag.syncOffset := by
    rw [List.filter_filter]
    refine List.filter_congr fun t _ => ?_
    by_cases ht : mid ≤ t.index
    · simp [ht, Nat.le_trans hfirst ht]
    · simp [ht]
  have hold : (tags.filter fun t =>
      first ≤ t.index && t.index < last && t.key == Tag.syncOffset).filter (·.index < mid) =
        tags.filter fun t => first ≤ t.index && t.index < mid && t.key == Tag.syncOffset := by
    rw [List.filter_filter]
    refine List.filter_congr fun t _ => ?_
    by_cases ht : t.index < mid
    · simp [ht, Nat.lt_of_lt_of_le ht hlast]
    · simp [ht]
  have hgiven : ∀ t ∈ tags.filter fun t =>
      first ≤ t.index && t.index < last && t.key == Tag.syncOffset, ∃ x, t.number? = some x := by
    intro t ht
    have hmem := List.mem_filter.1 ht
    simp only [Bool.and_eq_true, beq_iff_eq] at hmem
    exact hoffsets t hmem.1 hmem.2.2
  rw [offsetBetween, Tag.bind_latest?_eq_or hgiven mid, hnew, hold]
  rfl

/-- What is pushed later leaves the offsets of what was there as they are. -/
theorem offsetBetween_append {r : Record α τ} {first bound : Nat} (h : bound ≤ r.data.length)
    (data : List α) (tags : List (Tag τ)) :
    offsetBetween (r.append 1 data tags).tags first bound = offsetBetween r.tags first bound := by
  rw [offsetBetween, Record.filter_tags_append, offsetBetween]
  intro t ht
  simp only [Bool.and_eq_true, decide_eq_true_eq] at ht
  omega

/-- **A look notes the offsets up to where it ends.** If the offset that waits was the most recent
one from `first` on, it still is. -/
theorem observe_offset {c d : SymbolCutter α τ} {r : Record α τ} {first last : Nat}
    (hholds : c.samples.Holds r) (hoffsets : OffsetsGiven r.tags) (hread : c.samples.read ≤ c.seen)
    (hfirst : first ≤ c.seen) (hoffset : c.offset = offsetBetween r.tags first c.seen)
    (h : c.observe last = .ok d) : d.offset = offsetBetween r.tags first (max c.seen last) := by
  rw [observe_eq] at h
  simp only [Nat.max_eq_left hread] at h
  split at h
  next hlast =>
    cases h
    rw [Nat.max_eq_left hlast, hoffset]
  next hlast =>
    have hle : c.seen ≤ last := by omega
    obtain ⟨anchor, -, rfl⟩ := Fault.map_eq_ok_iff.1 h
    rw [Nat.max_eq_right hle, offsetBetween_eq_or hfirst hle hoffsets, ← hoffset]
    show Option.or ((c.samples.latest? c.seen last Tag.syncOffset).bind Tag.number?) _ = _
    rw [Inlet.latest?, hholds.tagsBetween_eq hread, offsetBetween]

/-! ### The reference -/

/-- How many samples there are up to the last trigger that was honoured. -/
def honoured (segments : List Segment) : Nat :=
  ((segments.filter (·.flag == 1)).getLast?.map (·.last + 1)).getD 0

/-- The marks on a segment behind others. An unflagged one has none. -/
def marksBehind [Rounded τ] (o : CutterOptions τ) (source : String) (tags : List (Tag τ))
    (before : List Segment) (e : Segment) : List (Tag τ) :=
  if e.flag = 1 then
    (burstTime o tags e.last).toOption.toList.flatMap fun time =>
      burstMarks source before.length time (offsetBetween tags (honoured before) (e.last + 1))
  else []

/-- **The reference.** The tags of all bursts among some segments. -/
def descriptions [Rounded τ] (o : CutterOptions τ) (source : String) (tags : List (Tag τ))
    (segments : List Segment) : List (Tag τ) :=
  segments.zipIdx.flatMap fun (e, i) => marksBehind o source tags (segments.take i) e

theorem honoured_burst (segments : List Segment) (last : Nat) :
    honoured (segments ++ [⟨last, 1⟩]) = last + 1 := by
  simp [honoured, List.filter_append]

theorem honoured_follower (segments : List Segment) (last : Nat) :
    honoured (segments ++ [⟨last, 0⟩]) = honoured segments := by
  simp [honoured, List.filter_append]

theorem marksBehind_burst [Rounded τ] {o : CutterOptions τ} {tags : List (Tag τ)} {last : Nat}
    {time : Timestamp τ} (htime : burstTime o tags last = .ok time) (source : String)
    (before : List Segment) :
    marksBehind o source tags before ⟨last, 1⟩ =
      burstMarks source before.length time (offsetBetween tags (honoured before) (last + 1)) := by
  simp [marksBehind, htime, Except.toOption]

theorem marksBehind_follower [Rounded τ] (o : CutterOptions τ) (source : String)
    (tags : List (Tag τ)) (before : List Segment) (last : Nat) :
    marksBehind o source tags before ⟨last, 0⟩ = [] := rfl

theorem descriptions_concat [Rounded τ] (o : CutterOptions τ) (source : String)
    (tags : List (Tag τ)) (segments : List Segment) (e : Segment) :
    descriptions o source tags (segments ++ [e]) =
      descriptions o source tags segments ++ marksBehind o source tags segments e := by
  rw [descriptions, List.zipIdx_append, List.flatMap_append]
  congr 1
  · refine List.flatMap_congr ?_
    rintro ⟨x, i⟩ hx
    have hlt := List.snd_lt_of_mem_zipIdx hx
    show marksBehind o source tags ((segments ++ [e]).take i) x = _
    rw [List.take_append_of_le_length (by omega)]
  · simp

/-- The reference looks at no tag behind the segments. -/
theorem descriptions_append [Rounded τ] {o : CutterOptions τ} {r : Record α τ}
    {segments : List Segment} (hinside : ∀ e ∈ segments, e.last < r.data.length) (source : String)
    (data : List α) (tags : List (Tag τ)) :
    descriptions o source (r.append 1 data tags).tags segments =
      descriptions o source r.tags segments := by
  refine List.flatMap_congr ?_
  rintro ⟨x, i⟩ hx
  have hlt := hinside x (List.fst_mem_of_mem_zipIdx hx)
  show marksBehind o source (r.append 1 data tags).tags (segments.take i) x =
    marksBehind o source r.tags (segments.take i) x
  rw [marksBehind, burstTime_append hlt, offsetBetween_append hlt, marksBehind]

namespace Session

/-- **The invariant of the marks** of a session in which `emitted` was emitted, all of it called for
by `source`. -/
structure Described [Rounded τ] (o : CutterOptions τ) (source : String) (s : Session α τ)
    (emitted : List Segment) : Prop where
  /-- The last burst emitted is among the samples whose tags were noted. -/
  honoured_le : honoured emitted ≤ s.cutter.seen
  /-- The offset that waits is the last one noted behind that burst. -/
  offset : s.cutter.offset = offsetBetween s.samples.tags (honoured emitted) s.cutter.seen
  /-- Every burst emitted has a time. -/
  dated : ∀ e ∈ emitted, e.flag = 1 → ∃ time, burstTime o s.samples.tags e.last = .ok time
  /-- The tags put out are the descriptions of the bursts emitted. -/
  tags_eq : (s.cutter.flags.total s.flags).tags = descriptions o source s.samples.tags emitted

variable [Rounded τ] {o : CutterOptions τ} {source : String} {s : Session α τ}
  {emitted : List Segment}

namespace Described

theorem feedSamples (h : s.Described o source emitted) (hsound : s.Sound o emitted)
    (htimed : s.Timed o emitted) {p : Inlet α τ} {r : Record α τ} {e : Inlet.Event α τ}
    (he : s.cutter.samples.meet s.samples e = .ok (p, r)) :
    ({ s with cutter := { s.cutter with samples := p }, samples := r } : Session α τ).Described o
      source emitted := by
  obtain ⟨-, -, -, hrecord⟩ := hsound.samples.meet he
  rcases hrecord with rfl | ⟨data, tags, -, rfl⟩
  · exact { h with }
  · rw [hsound.samples_width]
    have hinside : ∀ e ∈ emitted, e.last < s.samples.data.length :=
      fun e he => (hsound.inside e he).2
    refine { h with offset := ?_, dated := fun e he hflag => ?_, tags_eq := ?_ }
    · rw [offsetBetween_append htimed.seen_le.1]
      exact h.offset
    · rw [burstTime_append (hinside e he)]
      exact h.dated e he hflag
    · rw [descriptions_append hinside]
      exact h.tags_eq

theorem readFlags (h : s.Described o source emitted) (hsound : s.Sound o emitted)
    {p : Outlet UInt8 τ} {r : Record UInt8 τ} {e : Outlet.Event}
    (he : s.cutter.flags.meet s.flags e = .ok (p, r)) :
    ({ s with cutter := { s.cutter with flags := p }, flags := r } : Session α τ).Described o source
      emitted := by
  obtain ⟨-, -, htotal⟩ := hsound.flags.meet he
  refine { h with tags_eq := ?_ }
  rw [htotal]
  exact h.tags_eq

variable [Inhabited α]

/-- **A look keeps the invariant of the marks.** -/
theorem look (h : s.Described o source emitted) (hsound : s.Sound o emitted)
    (htimed : s.Timed o emitted) (hpolicy : o.policy ≠ .drop)
    (htimes : TimesGiven s.samples.tags) (hoffsets : OffsetsGiven s.samples.tags)
    {d : SymbolCutter α τ} {used : Nat} (hready : s.cutter.Ready)
    (hstep : Step s.cutter source d used) :
    ({ s with cutter := d } : Session α τ).Described o source (emitted ++ s.cutter.cutNext) := by
  cases hstep with
  | @burst k anchor offset seen time _ _ _ _ found observed _ timed _ flag =>
    obtain ⟨-, hbefore, hseen, hanchor⟩ :=
      htimed.observe_found hsound hpolicy htimes hready found observed
    have htime := hsound.burstTime_of_timed hanchor timed
    have hmax : max s.cutter.seen (s.cutter.samples.read + (s.cutter.options.fft + k + 1)) =
        s.cutter.samples.read + o.fft + k + 1 := by
      rw [hsound.options]
      omega
    have hoffset := observe_offset hsound.samples hoffsets htimed.read_le h.honoured_le h.offset
      observed
    rw [hmax] at hoffset
    have hcut : s.cutter.cutNext = [⟨s.cutter.samples.read + o.fft + k, 1⟩] := by
      rw [cutNext, found, hsound.options]
    obtain ⟨-, -, -, htotal⟩ :=
      hsound.flags.emit _ (burstMarks_place hsound.flags_width source time offset 1) flag
    rw [hcut]
    refine { honoured_le := ?_, offset := ?_, dated := ?_, tags_eq := ?_ }
    · rw [honoured_burst]
      exact Nat.le_of_eq hseen.symm
    · -- the burst takes the offset with it, and nothing behind its trigger was noted
      rw [honoured_burst]
      exact (offsetBetween_of_le (Nat.le_of_eq hseen)).symm
    · intro e he hflag
      rcases List.mem_append.1 he with he | he
      · exact h.dated e he hflag
      · obtain rfl := List.mem_singleton.1 he
        exact ⟨time, htime⟩
    · rw [htotal, h.tags_eq, descriptions_concat, marksBehind_burst htime, hsound.written_eq,
        ← hoffset]
  | @follow n anchor offset seen _ _ _ _ found framed observed _ flag =>
    have hseen := observe_seen htimed.read_le observed
    have hoffset := observe_offset hsound.samples hoffsets htimed.read_le h.honoured_le h.offset
      observed
    have hcut : s.cutter.cutNext = [⟨s.cutter.samples.read + o.fft + o.symbol - 1, 0⟩] := by
      rw [cutNext, found, framed, hsound.options]
    obtain ⟨-, -, -, htotal⟩ := hsound.flags.put flag
    rw [hcut]
    refine { honoured_le := ?_, offset := ?_, dated := ?_, tags_eq := ?_ }
    · rw [honoured_follower]
      exact Nat.le_trans h.honoured_le (hseen ▸ Nat.le_max_left _ _)
    · rw [honoured_follower]
      exact hoffset.trans (congrArg _ hseen.symm)
    · intro e he hflag
      rcases List.mem_append.1 he with he | he
      · exact h.dated e he hflag
      · obtain rfl := List.mem_singleton.1 he
        cases hflag
    · rw [htotal, h.tags_eq, descriptions_concat, marksBehind_follower, List.append_nil]
  | @pass anchor offset seen _ _ found searching observed =>
    have hseen := observe_seen htimed.read_le observed
    have hoffset := observe_offset hsound.samples hoffsets htimed.read_le h.honoured_le h.offset
      observed
    have hcut : s.cutter.cutNext = [] := by rw [cutNext, found, searching]
    rw [hcut, List.append_nil]
    refine { h with honoured_le := ?_, offset := ?_ }
    · exact Nat.le_trans h.honoured_le (hseen ▸ Nat.le_max_left _ _)
    · exact hoffset.trans (congrArg _ hseen.symm)

end Described

/-! ### The whole session -/

theorem described_start {c : SymbolCutter α τ} (hbuild : o.build = .ok c) (source : String) :
    (start c).Described o source [] := by
  have hfresh := fresh_of_build hbuild
  refine
    { honoured_le := Nat.zero_le _
      offset := ?_
      dated := fun e he => absurd he List.not_mem_nil
      tags_eq := ?_ }
  · show c.offset = offsetBetween [] 0 c.seen
    rw [hfresh.offset]
    rfl
  · show ([] : List (Tag τ)) ++ c.flags.tags.toList = []
    rw [hfresh.flags]
    rfl

variable [Inhabited α]

/-- **Every session is described**, whatever its events, if its times are times and its offsets are
numbers. -/
theorem exists_described {c : SymbolCutter α τ} (hbuild : o.build = .ok c)
    (hpolicy : o.policy = .rebase) {events : List (Event α τ)}
    (hsource : ∀ x, Event.work x ∈ events → x = source) (hrun : (start c).run events = .ok s)
    (htimes : TimesGiven s.samples.tags) (hoffsets : OffsetsGiven s.samples.tags) :
    ∃ emitted, s.Sound o emitted ∧ s.Timed o emitted ∧ s.Described o source emitted := by
  obtain ⟨hfft, htimeout, hstart⟩ := sound_start hbuild
  have hkeeps : o.policy ≠ .drop := by
    rw [hpolicy]
    decide
  obtain ⟨emitted, hsound, h⟩ : ∃ emitted, s.Sound o emitted ∧
      (TimesGiven s.samples.tags ∧ OffsetsGiven s.samples.tags →
        s.Timed o emitted ∧ s.Described o source emitted) := by
    refine run_sound (P := fun s emitted => TimesGiven s.samples.tags ∧
      OffsetsGiven s.samples.tags → s.Timed o emitted ∧ s.Described o source emitted)
      hfft htimeout ?_ ?_ ?_ ?_ ?_
      ⟨[], hstart, fun _ => ⟨timed_start hbuild, described_start hbuild source⟩⟩ hrun
    · intro s emitted p r e hsound h hmeet hgiven
      have hbefore := hsound.samples.tags_subset hmeet
      obtain ⟨htimed, hdescribed⟩ :=
        h ⟨fun t ht => hgiven.1 t (hbefore ht), fun t ht => hgiven.2 t (hbefore ht)⟩
      exact ⟨htimed.feedSamples hsound hmeet, hdescribed.feedSamples hsound htimed hmeet⟩
    · intro s emitted p r e hsound h hmeet hgiven
      obtain ⟨htimed, hdescribed⟩ := h hgiven
      exact ⟨htimed.feedTriggers hsound hmeet, { hdescribed with }⟩
    · intro s emitted p r e hsound h hmeet hgiven
      obtain ⟨htimed, hdescribed⟩ := h hgiven
      exact ⟨{ htimed with }, { hdescribed with }⟩
    · intro s emitted p r e hsound h hmeet hgiven
      obtain ⟨htimed, hdescribed⟩ := h hgiven
      exact ⟨htimed.readFlags hsound hmeet, hdescribed.readFlags hsound hmeet⟩
    · intro s emitted x d used hwork hsound h hready hstep hgiven
      obtain rfl := hsource x hwork
      obtain ⟨htimed, hdescribed⟩ := h hgiven
      exact ⟨htimed.look hsound hkeeps hgiven.1 hready hstep,
        hdescribed.look hsound htimed hkeeps hgiven.1 hgiven.2 hready hstep⟩
  exact ⟨emitted, hsound, h ⟨htimes, hoffsets⟩⟩

/-- **What is on the flags.** Every burst that was cut out has a time, counted from the most recent
receive time up to its trigger, and the flag of its symbol carries that time, and the most recent
carrier offset behind the trigger that was honoured before, if there is one. All these tags name the
block, and there are no others. If the lengths fit a word and the bursts of the streams have times,
a call of work returns and does not fail. -/
theorem describes_bursts {c : SymbolCutter α τ} (hbuild : o.build = .ok c)
    (hpolicy : o.policy = .rebase) {events : List (Event α τ)}
    (hsource : ∀ x, Event.work x ∈ events → x = source) (hrun : (start c).run events = .ok s)
    (htimes : TimesGiven s.samples.tags) (hoffsets : OffsetsGiven s.samples.tags) :
    (∃ emitted, emitted <+: segments o (triggersFrom o.fft s.triggers.data) ∧
      s.symbolsOut = emitted.flatMap (·.samples o.fft s.samples.data) ∧
      s.flagsOut = emitted.map (·.flag) ∧
      (∀ e ∈ emitted, e.flag = 1 → ∃ time, burstTime o s.samples.tags e.last = .ok time) ∧
      (s.cutter.flags.total s.flags).tags = descriptions o source s.samples.tags emitted) ∧
    (o.symbol + o.fft + 1 < wordLimit → o.preamble * o.symbol < wordLimit →
      (∀ t ∈ triggersFrom o.fft s.triggers.data,
        ∃ time, burstTime o s.samples.tags t = .ok time) →
      ∀ x queue, ∃ turn, s.cutter.work x queue = .ok turn ∧ turn.failure = none) := by
  obtain ⟨hfft, htimeout, -⟩ := sound_start hbuild
  obtain ⟨emitted, hsound, htimed, hdescribed⟩ :=
    exists_described hbuild hpolicy hsource hrun htimes hoffsets
  refine ⟨⟨emitted, ?_, hsound.symbols_eq, hsound.flags_eq, hdescribed.dated, hdescribed.tags_eq⟩,
    ?_⟩
  · have hwhole := hsound.whole []
    rw [List.append_nil] at hwhole
    rw [← hwhole]
    exact List.prefix_append _ _
  · intro hwindow hfits hbursts x queue
    exact htimed.work_returns hsound hfft htimeout hpolicy htimes hbursts hwindow hfits x queue

/-- Two bursts in two pieces. There is a receive time in front of each, and an offset in front of
the first. -/
def offsetOnce : List (Event Nat ℚ) :=
  [.symbols (.reserve 4), .flags (.reserve 4),
    .samples (.push [10, 11, 12, 13, 14]
      [⟨0, Tag.rxTime, .time ⟨5, 0⟩, none⟩, ⟨2, Tag.syncOffset, .double 0.5, none⟩]),
    .triggers (.push [0, 0, 0, 1, 0] []), .work "cutter",
    .samples (.push [15, 16, 17, 18, 19] [⟨0, Tag.rxTime, .time ⟨9, 0⟩, none⟩]),
    .triggers (.push [0, 0, 1, 0, 0] []), .work "cutter"]

/-- The offset is handed on once. -/
theorem describes_bursts_offsetOnce :
    ∃ (c : SymbolCutter Nat ℚ) (s : Session Nat ℚ),
      ({ fft := 1, symbol := 2, bandwidth := 1, timeout := 2 } : CutterOptions ℚ).build = .ok c ∧
      (start c).run offsetOnce = .ok s ∧
      (s.cutter.flags.total s.flags).tags.map (fun t => (t.index, t.key)) =
        [(0, Tag.syncTime), (0, Tag.syncOffset), (2, Tag.syncTime)] ∧
      (∃ emitted, s.flagsOut = emitted.map (·.flag) ∧
        (s.cutter.flags.total s.flags).tags =
          descriptions { fft := 1, symbol := 2, bandwidth := (1 : ℚ), timeout := 2 } "cutter"
            s.samples.tags emitted) ∧
      ∃ turn, s.cutter.work "cutter" {} = .ok turn ∧ turn.failure = none := by
  obtain ⟨c, hbuild, h⟩ := Fault.exists_ok_of_any
    (x := ({ fft := 1, symbol := 2, bandwidth := 1, timeout := 2 } : CutterOptions ℚ).build)
    (p := fun c : SymbolCutter Nat ℚ => ((start c).run offsetOnce).toOption.any fun s =>
      (s.cutter.flags.total s.flags).tags.map (fun t => (t.index, t.key)) ==
          [(0, Tag.syncTime), (0, Tag.syncOffset), (2, Tag.syncTime)] &&
        (s.samples.tags.all fun t => t.key != Tag.rxTime || t.time?.isSome) &&
        (s.samples.tags.all fun t => t.key != Tag.syncOffset || t.number?.isSome) &&
        (triggersFrom 1 s.triggers.data).all fun t =>
          (burstTime { fft := 1, symbol := 2, bandwidth := (1 : ℚ), timeout := 2 } s.samples.tags
            t).toOption.any fun _ => true)
    (by decide +kernel)
  obtain ⟨s, hrun, h⟩ := Fault.exists_ok_of_any h
  simp only [Bool.and_eq_true, beq_iff_eq, List.all_eq_true, Bool.or_eq_true, bne_iff_ne] at h
  obtain ⟨⟨⟨htags, htimes⟩, hoffsets⟩, hbursts⟩ := h
  have hsource : ∀ x, Event.work x ∈ offsetOnce → x = "cutter" := by
    intro x hx
    simpa [offsetOnce] using hx
  have htimesGiven : TimesGiven s.samples.tags := by
    intro t ht hkey
    exact Option.isSome_iff_exists.1 ((htimes t ht).resolve_left (not_not.2 hkey))
  have hoffsetsGiven : OffsetsGiven s.samples.tags := by
    intro t ht hkey
    exact Option.isSome_iff_exists.1 ((hoffsets t ht).resolve_left (not_not.2 hkey))
  obtain ⟨⟨emitted, -, -, hflags, -, hall⟩, hreturns⟩ :=
    describes_bursts hbuild rfl hsource hrun htimesGiven hoffsetsGiven
  refine ⟨c, s, hbuild, hrun, htags, ⟨emitted, hflags, hall⟩, ?_⟩
  refine hreturns (by decide) (by decide) (fun t ht => ?_) "cutter" {}
  obtain ⟨time, htime, -⟩ := Fault.exists_ok_of_any (hbursts t ht)
  exact ⟨time, htime⟩

end Session

end SymbolCutter

end OfdmBurst
