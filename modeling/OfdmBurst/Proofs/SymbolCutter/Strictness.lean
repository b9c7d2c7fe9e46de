import Mathlib.Logic.Relation
import OfdmBurst.Proofs.SymbolCutter.Dropping
import OfdmBurst.Proofs.SymbolCutter.Timing

/-!
# Refusing late times

Under the strict policy a look fails if the most recent receive time that it would note is not on
the first sample. The failure comes before the look has done anything, so the cutter that fails is
the one that the looks before have left.

Nor does it help to wait. The window is there already, and whatever arrives is behind it. So the
next look is the same look, and it fails in the same way, whatever happens in between. That is
`Session.Halted`. A late time is never noted, so nothing is ever cut out from there on, and the
anchor is a receive time on the first sample, or there is none.

## Main definitions

* `Refused`, `lateDue` — why a look fails, and the late times that it would note
* `Reaches` — where the looks of a call of work lead
* `Session.Strict` — the invariant
* `Session.Halted`, `Session.Abreast` — what a failure leaves, and what follows it

## Main results

* `refused_iff` — when a look fails
* `work_failed_iff` — when and how a call of work does
* `Session.Strict.look` — a look keeps the invariant, or it fails
* `Session.Halted.run` — a failure stays
* `Session.refuses_late_times` — what a strict cutter does about late times
-/

namespace OfdmBurst

namespace SymbolCutter

variable {α τ : Type}

/-- Where the late times are that the look that is due would note. -/
def lateDue (tags : List (Tag τ)) (c : SymbolCutter α τ) : List Nat :=
  (tags.filter fun t =>
    max c.seen c.samples.read ≤ t.index && t.index < c.due && isLate t).map (·.index)

/-- The most recent receive time that the look that is due would note is a reason to fail. -/
def Refused (c : SymbolCutter α τ) (cause : FramingError) : Prop :=
  ∃ t, c.samples.latest? (max c.seen c.samples.read) c.due Tag.rxTime = some t ∧
    (∃ time, t.time? = some time) ∧ t.index ≠ 0 ∧ cause = .timeTagOffset t.index

variable {c d : SymbolCutter α τ} {cause : FramingError}

/-! ### Looks that fail -/

theorem anchorAfter_strict_error_iff (found : Option (Tag τ))
    (anchor : Option (Nat × Timestamp τ)) :
    anchorAfter .strict found anchor = .error cause ↔
      ∃ t, found = some t ∧ (∃ time, t.time? = some time) ∧ t.index ≠ 0 ∧
        cause = .timeTagOffset t.index := by
  cases found with
  | none => simp [anchorAfter]
  | some t =>
    cases htime : t.time? with
    | none => simp [anchorAfter, htime]
    | some time =>
      by_cases hindex : t.index = 0
      · simp [anchorAfter, htime, hindex]
      · simp [anchorAfter, htime, hindex, eq_comm]

/-- A strict cutter fails to note tags exactly if it refuses the most recent receive time. -/
theorem observe_due_error_iff (hpolicy : c.options.policy = .strict) :
    c.observe c.due = .error cause ↔ c.Refused cause := by
  rw [observe_eq, hpolicy]
  by_cases hdue : c.due ≤ max c.seen c.samples.read
  · -- there is nothing to note
    have hnone : ¬ c.Refused cause := by
      rintro ⟨t, hlatest, -⟩
      have hmem := (List.mem_filter.1 (Tag.latest?_mem hlatest)).2
      simp only [Bool.and_eq_true, decide_eq_true_eq] at hmem
      omega
    simp [hdue, hnone]
  · rw [if_neg hdue, Refused, ← anchorAfter_strict_error_iff _ c.anchor]
    exact Fault.map_eq_error_iff

theorem isLate_iff {t : Tag τ} : isLate t = true ↔ t.index ≠ 0 ∧ t.key = Tag.rxTime := by
  rw [isLate, Bool.and_eq_true, bne_iff_ne, beq_iff_eq]

theorem mem_lateDue {tags : List (Tag τ)} {i : Nat} :
    i ∈ lateDue tags c ↔
      ∃ t ∈ tags, isLate t = true ∧ t.index = i ∧ max c.seen c.samples.read ≤ i ∧ i < c.due := by
  simp only [lateDue, List.mem_map, List.mem_filter, Bool.and_eq_true, decide_eq_true_eq]
  constructor
  · rintro ⟨t, ⟨ht, ⟨hfirst, hlast⟩, hlate⟩, rfl⟩
    exact ⟨t, ht, hlate, rfl, hfirst, hlast⟩
  · rintro ⟨t, ht, hlate, rfl, hfirst, hlast⟩
    exact ⟨t, ⟨ht, ⟨hfirst, hlast⟩, hlate⟩, rfl⟩

/-- If receive times are times, a look is refused for the last of the late ones that it would
note. -/
theorem refused_iff {r : Record α τ} (hholds : c.samples.Holds r) (hgiven : TimesGiven r.tags) :
    c.Refused cause ↔ ∃ i, (lateDue r.tags c).max? = some i ∧ cause = .timeTagOffset i := by
  have hmem : ∀ t, t ∈ c.samples.tagsBetween (max c.seen c.samples.read) c.due Tag.rxTime ↔
      t ∈ r.tags ∧ (max c.seen c.samples.read ≤ t.index ∧ t.index < c.due) ∧
        t.key = Tag.rxTime := by
    intro t
    rw [hholds.tagsBetween_eq (Nat.le_max_right _ _), List.mem_filter, Bool.and_eq_true,
      Bool.and_eq_true, decide_eq_true_eq, decide_eq_true_eq, beq_iff_eq]
  constructor
  · rintro ⟨t, hlatest, -, hindex, rfl⟩
    obtain ⟨ht, ⟨hfirst, hlast⟩, hkey⟩ := (hmem t).1 (Tag.latest?_mem hlatest)
    refine ⟨t.index, List.max?_eq_some_iff.2 ⟨?_, fun i hi => ?_⟩, rfl⟩
    · exact mem_lateDue.2 ⟨t, ht, isLate_iff.2 ⟨hindex, hkey⟩, rfl, hfirst, hlast⟩
    · obtain ⟨u, hu, hlate, rfl, hfirst, hlast⟩ := mem_lateDue.1 hi
      exact Tag.index_le_of_latest? hlatest
        ((hmem u).2 ⟨hu, ⟨hfirst, hlast⟩, (isLate_iff.1 hlate).2⟩)
  · rintro ⟨i, hmax, rfl⟩
    obtain ⟨hi, hle⟩ := List.max?_eq_some_iff.1 hmax
    obtain ⟨u, hu, hlate, rfl, hfirst, hlast⟩ := mem_lateDue.1 hi
    obtain ⟨hindex, hkey⟩ := isLate_iff.1 hlate
    have hu := (hmem u).2 ⟨hu, ⟨hfirst, hlast⟩, hkey⟩
    cases hlatest : c.samples.latest? (max c.seen c.samples.read) c.due Tag.rxTime with
    | none => exact absurd (Tag.latest?_eq_none hlatest ▸ hu) List.not_mem_nil
    | some t =>
      -- the most recent one is at least as far on as the last late one, so it is late itself
      have hge := Tag.index_le_of_latest? hlatest hu
      obtain ⟨ht, hplace, hkey⟩ := (hmem t).1 (Tag.latest?_mem hlatest)
      have hne : t.index ≠ 0 := by omega
      have hle := hle t.index
        (mem_lateDue.2 ⟨t, ht, isLate_iff.2 ⟨hne, hkey⟩, rfl, hplace.1, hplace.2⟩)
      exact ⟨t, hlatest, hgiven t ht hkey, hne, by rw [Nat.le_antisymm hge hle]⟩

/-! ### Calls of work that fail -/

section Runs

variable [Inhabited α] [Rounded τ]

/-- A look that succeeds, in a call of work. -/
def Looks (source : String) (c d : SymbolCutter α τ) : Prop :=
  c.Ready ∧ ∃ used, Step c source d used

/-- Looks that succeed, one after the other. This is where a call of work leads. -/
def Reaches (source : String) : SymbolCutter α τ → SymbolCutter α τ → Prop :=
  Relation.ReflTransGen (Looks source)

/-- A call of work fails exactly if it leads to a look that fails, and then it leaves the cutter as
it was in front of that look. -/
theorem drain_failed_iff {source : String} {queue : MessageQueue} {n : Nat}
    {turn : Turn (SymbolCutter α τ)} (hn : n = c.available) :
    c.drain source queue n = .ok turn ∧ turn.failure = some cause ↔
      ∃ d, Reaches source c d ∧ d.Ready ∧ d.step source = .ok (.failed cause) ∧
        turn = { block := d, queue, failure := some cause } := by
  constructor
  · -- by induction on the samples at hand, of which every look uses up some
    rintro ⟨h, hfailed⟩
    induction n using Nat.strongRecOn generalizing c with
    | ind n ih =>
      rw [drain] at h
      split at h
      · cases h
        cases hfailed
      next hwindow =>
        split at h
        · cases h
          cases hfailed
        next hroom =>
          have hready : c.Ready := ⟨by omega, not_or.1 hroom⟩
          split at h
          · cases h
          next hstep =>
            cases h
            cases hfailed
            exact ⟨c, .refl, hready, hstep, rfl⟩
          next d used hstep =>
            have hmoved := step_cases hstep
            have hpos := used.property
            have hwin : 0 < c.window := Nat.succ_pos _
            obtain ⟨e, hreach, hrest⟩ := ih (n - used.val) (by omega)
              (by rw [hmoved.available_eq, hn]) h
            exact ⟨e, .head ⟨hready, _, hmoved⟩ hreach, hrest⟩
  · -- by induction on the looks, the first of which is the one that the call takes
    rintro ⟨d, hreach, hready, hstep, rfl⟩
    refine ⟨?_, rfl⟩
    induction hreach using Relation.ReflTransGen.head_induction_on generalizing n with
    | refl =>
      rw [drain, dif_neg (hn ▸ Nat.not_lt.2 hready.1), if_neg (not_or.2 hready.2), hstep]
    | head hlook _ ih =>
      obtain ⟨hfirst, used, hmoved⟩ := hlook
      obtain ⟨hused, hstep⟩ := hmoved.step_eq
      rw [drain, dif_neg (hn ▸ Nat.not_lt.2 hfirst.1), if_neg (not_or.2 hfirst.2), hstep]
      exact ih (by rw [hmoved.available_eq, hn])

/-- **When and how a call of work fails**, as seen by the caller. -/
theorem work_failed_iff {source : String} {queue : MessageQueue} {turn : Turn (SymbolCutter α τ)} :
    c.work source queue = .ok turn ∧ turn.failure = some cause ↔
      c.window < wordLimit ∧
        ∃ d, Reaches source c d ∧ d.Ready ∧ d.step source = .ok (.failed cause) ∧
          turn = { block := d, queue, failure := some cause } := by
  simp only [work, Fault.bind_eq_ok_iff, Fault.word_eq_ok_iff]
  constructor
  · rintro ⟨⟨_, ⟨hwindow, -⟩, hdrain⟩, hfailed⟩
    exact ⟨hwindow, (drain_failed_iff rfl).1 ⟨hdrain, hfailed⟩⟩
  · rintro ⟨hwindow, h⟩
    obtain ⟨hdrain, hfailed⟩ := (drain_failed_iff rfl).2 h
    exact ⟨⟨_, ⟨hwindow, rfl⟩, hdrain⟩, hfailed⟩

end Runs

/-! ### Late times are not noted -/

/-- What a look cuts out ends where the look is due, or in front of it. -/
theorem last_lt_due {e : Segment} (he : e ∈ c.cutNext) : e.last < c.due := by
  cases hfound : c.trigger? with
  | some k =>
    rw [cutNext, hfound, List.mem_singleton] at he
    rw [due_of_some hfound, he]
    dsimp only
    omega
  | none =>
    rw [due_of_none hfound, window]
    cases hphase : c.phase with
    | search =>
      rw [cutNext, hfound, hphase] at he
      exact absurd he List.not_mem_nil
    | frame n =>
      rw [cutNext, hfound, hphase, List.mem_singleton] at he
      rw [he]
      dsimp only
      omega

/-- What a strict cutter notes has no late times in it. -/
theorem lateDue_of_observe {r : Record α τ} (hpolicy : c.options.policy = .strict)
    (hholds : c.samples.Holds r) (hgiven : TimesGiven r.tags) (h : c.observe c.due = .ok d) :
    lateDue r.tags c = [] := by
  rw [← List.max?_eq_none_iff, Option.eq_none_iff_forall_ne_some]
  intro i hmax
  have hrefused := (refused_iff hholds hgiven).2 ⟨i, hmax, rfl⟩
  rw [(observe_due_error_iff hpolicy).2 hrefused] at h
  cases h

namespace Session

variable {o : CutterOptions τ} {s u : Session α τ} {emitted : List Segment}

/-- **The invariant of a strict session.** The late times are all still to come, and whatever was
cut out ends in front of them. -/
structure Strict (s : Session α τ) (emitted : List Segment) : Prop where
  /-- No late time is among the samples whose tags were noted. -/
  late : ∀ t ∈ s.samples.tags, isLate t = true → s.cutter.seen ≤ t.index
  /-- Whatever was cut out is among them. -/
  cut : ∀ e ∈ emitted, e.last < s.cutter.seen

namespace Strict

theorem feedSamples (h : s.Strict emitted) (hsound : s.Sound o emitted)
    (hseen : s.cutter.seen ≤ s.samples.data.length) {p : Inlet α τ} {r : Record α τ}
    {e : Inlet.Event α τ} (he : s.cutter.samples.meet s.samples e = .ok (p, r)) :
    ({ s with cutter := { s.cutter with samples := p }, samples := r } : Session α τ).Strict
      emitted := by
  obtain ⟨-, -, -, rfl | ⟨data, tags, -, rfl⟩⟩ := hsound.samples.meet he
  · exact { h with }
  · refine { h with late := fun t ht hlate => ?_ }
    rcases List.mem_append.1 ht with ht | ht
    · exact h.late t ht hlate
    · obtain ⟨u, -, rfl⟩ := List.mem_map.1 ht
      rw [hsound.samples_width, Nat.div_one]
      exact Nat.le_trans hseen (Nat.le_add_left _ u.index)

variable [Inhabited α] [Rounded τ]

/-- **A look keeps the invariant of strictness**, or it fails. -/
theorem look (h : s.Strict emitted) (hsound : s.Sound o emitted)
    (hread : s.cutter.samples.read ≤ s.cutter.seen) (hpolicy : o.policy = .strict)
    (hgiven : TimesGiven s.samples.tags) {d : SymbolCutter α τ} {source : String} {used : Nat}
    (hstep : Step s.cutter source d used) :
    ({ s with cutter := d } : Session α τ).Strict (emitted ++ s.cutter.cutNext) := by
  obtain ⟨e, hobserve, -, hnoted⟩ := hstep.observed
  have hseen : d.seen = max s.cutter.seen s.cutter.due :=
    hnoted.trans (observe_seen hread hobserve)
  have hnone := lateDue_of_observe (hsound.options ▸ hpolicy) hsound.samples hgiven hobserve
  constructor
  · intro t ht hlate
    show d.seen ≤ t.index
    have hold := h.late t ht hlate
    by_contra hlt
    have hmem : t.index ∈ lateDue s.samples.tags s.cutter :=
      mem_lateDue.2 ⟨t, ht, hlate, rfl, by omega, by omega⟩
    exact absurd (hnone ▸ hmem) List.not_mem_nil
  · intro e he
    show e.last < d.seen
    rw [hseen]
    rcases List.mem_append.1 he with he | he
    · exact Nat.lt_of_lt_of_le (h.cut e he) (Nat.le_max_left _ _)
    · exact Nat.lt_of_lt_of_le (last_lt_due he) (Nat.le_max_right _ _)

end Strict

/-- **Every session of a strict cutter is strict**, and timed as well, if its receive times are
times. -/
theorem exists_strict [Inhabited α] [Rounded τ] {c : SymbolCutter α τ} (hbuild : o.build = .ok c)
    (hpolicy : o.policy = .strict) {events : List (Event α τ)}
    (hrun : (start c).run events = .ok s) (hgiven : TimesGiven s.samples.tags) :
    ∃ emitted, s.Sound o emitted ∧ s.Timed o emitted ∧ s.Strict emitted := by
  obtain ⟨hfft, htimeout, hstart⟩ := sound_start hbuild
  have hkeeps : o.policy ≠ .drop := by
    rw [hpolicy]
    decide
  have hfirst : (start c).Strict [] :=
    { late := fun t _ _ => Nat.le_trans (Nat.le_of_eq (fresh_of_build hbuild).seen) (Nat.zero_le _)
      cut := fun e he => absurd he List.not_mem_nil }
  obtain ⟨emitted, hsound, h⟩ : ∃ emitted, s.Sound o emitted ∧
      (TimesGiven s.samples.tags → s.Timed o emitted ∧ s.Strict emitted) := by
    refine run_sound (P := fun s emitted => TimesGiven s.samples.tags →
      s.Timed o emitted ∧ s.Strict emitted) hfft htimeout ?_ ?_ ?_ ?_ ?_
      ⟨[], hstart, fun _ => ⟨timed_start hbuild, hfirst⟩⟩ hrun
    · intro s emitted p r e hsound h hmeet hgiven
      obtain ⟨htimed, hstrict⟩ := h fun t ht => hgiven t (hsound.samples.tags_subset hmeet ht)
      exact ⟨htimed.feedSamples hsound hmeet, hstrict.feedSamples hsound htimed.seen_le.1 hmeet⟩
    · intro s emitted p r e hsound h hmeet hgiven
      obtain ⟨htimed, hstrict⟩ := h hgiven
      exact ⟨htimed.feedTriggers hsound hmeet, { hstrict with }⟩
    · intro s emitted p r e hsound h hmeet hgiven
      obtain ⟨htimed, hstrict⟩ := h hgiven
      exact ⟨{ htimed with }, { hstrict with }⟩
    · intro s emitted p r e hsound h hmeet hgiven
      obtain ⟨htimed, hstrict⟩ := h hgiven
      exact ⟨htimed.readFlags hsound hmeet, { hstrict with }⟩
    · intro s emitted source d used _ hsound h hready hstep hgiven
      obtain ⟨htimed, hstrict⟩ := h hgiven
      exact ⟨htimed.look hsound hkeeps hgiven hready hstep,
        hstrict.look hsound htimed.read_le hpolicy hgiven hstep⟩
  exact ⟨emitted, hsound, h hgiven⟩

/-- The anchor of a strict cutter is a receive time on the first sample. -/
theorem Strict.anchor_eq [Rounded τ] (h : s.Strict emitted) (htimed : s.Timed o emitted)
    {index : Nat} {time : Timestamp τ} (hanchor : s.cutter.anchor = some (index, time)) :
    index = 0 ∧
      ∃ t ∈ s.samples.tags, t.index = 0 ∧ t.key = Tag.rxTime ∧ t.time? = some time := by
  rw [htimed.anchor, anchorAt] at hanchor
  obtain ⟨t, hlatest, hvalue⟩ := Option.bind_eq_some_iff.1 hanchor
  obtain ⟨found, htime, hpair⟩ := Option.map_eq_some_iff.1 hvalue
  cases hpair
  obtain ⟨ht, hnoted⟩ := List.mem_filter.1 (Tag.latest?_mem hlatest)
  simp only [Bool.and_eq_true, decide_eq_true_eq, beq_iff_eq] at hnoted
  have hzero : t.index = 0 := by
    by_contra hindex
    have hlate := h.late t ht (isLate_iff.2 ⟨hindex, hnoted.2⟩)
    omega
  exact ⟨hzero, t, ht, hzero, hnoted.2, htime⟩

/-! ### Failing for good -/

/-- **What a failure leaves.** There is a window, and the look at it is refused. -/
structure Halted (s : Session α τ) (cause : FramingError) : Prop where
  /-- There is a window to look at. -/
  window_le : s.cutter.window ≤ s.cutter.available
  /-- The look at it notes a late time. -/
  refused : s.cutter.Refused cause

/-- The two sessions have got equally far: they have used up as much, they have emitted the same
symbols and flags, with the same tags, and the state of the cutter is the same. -/
structure Abreast (s t : Session α τ) : Prop extends s.Agrees t where
  /-- They have used up as many samples. -/
  samples : s.cutter.samples.read = t.cutter.samples.read
  /-- They have used up as many triggers. -/
  triggers : s.cutter.triggers.read = t.cutter.triggers.read
  /-- They are in the same phase. -/
  phase : s.cutter.phase = t.cutter.phase
  /-- They have noted the same carrier offset. -/
  offset : s.cutter.offset = t.cutter.offset
  /-- They have noted tags up to the same sample. -/
  seen : s.cutter.seen = t.cutter.seen

/-- No look goes further than its window. -/
theorem due_le (c : SymbolCutter α τ) : c.due ≤ c.samples.read + c.window := by
  cases hfound : c.trigger? with
  | none => rw [due_of_none hfound]
  | some k =>
    have hk := lt_of_trigger? hfound
    rw [due_of_some hfound, window]
    omega

namespace Halted

/-- Samples that arrive are behind the window. -/
theorem feedSamples (h : s.Halted cause) (hsound : s.Sound o emitted) {p : Inlet α τ}
    {r : Record α τ} {e : Inlet.Event α τ}
    (he : s.cutter.samples.meet s.samples e = .ok (p, r)) :
    ({ s with cutter := { s.cutter with samples := p }, samples := r } : Session α τ).Halted
      cause := by
  obtain ⟨-, -, hread, -⟩ := hsound.samples.meet he
  have hmore := hsound.samples.items_le_meet he
  have hdue := due_le s.cutter
  have hwindow := h.window_le
  rw [available] at hwindow
  obtain ⟨t, hlatest, htime⟩ := h.refused
  refine ⟨Nat.le_trans hwindow (min_le_min_right _ hmore), t, ?_, htime⟩
  show p.latest? (max s.cutter.seen p.read) (p.read + _) Tag.rxTime = some t
  rw [hread]
  have hlast : s.cutter.due ≤ s.cutter.samples.read + s.cutter.samples.items := by omega
  exact (hsound.samples.latest?_meet he (Nat.le_max_right _ _) hlast _).trans hlatest

/-- So are triggers. -/
theorem feedTriggers (h : s.Halted cause) (hsound : s.Sound o emitted) {p : Inlet UInt8 τ}
    {r : Record UInt8 τ} {e : Inlet.Event UInt8 τ}
    (he : s.cutter.triggers.meet s.triggers e = .ok (p, r)) :
    ({ s with cutter := { s.cutter with triggers := p }, triggers := r } : Session α τ).Halted
      cause := by
  have hwindow : s.cutter.window ≤ min s.cutter.samples.items p.items :=
    Nat.le_trans h.window_le (min_le_min_left _ (hsound.triggers.items_le_meet he))
  have hsame : ({ s.cutter with triggers := p } : SymbolCutter α τ).trigger? =
      s.cutter.trigger? := by
    have hnew := (hsound.feedTriggers he).trigger?_eq hwindow []
    rw [List.append_nil] at hnew
    obtain ⟨-, -, -, rfl | ⟨data, tags, -, rfl⟩⟩ := hsound.triggers.meet he
    · rw [hnew, hsound.trigger?_eq h.window_le [], List.append_nil]
    · rw [hnew, hsound.trigger?_eq h.window_le data]
      rfl
  obtain ⟨t, hlatest, htime⟩ := h.refused
  refine ⟨hwindow, t, ?_, htime⟩
  rw [due, hsame]
  exact hlatest

variable [Inhabited α] [Rounded τ]

/-- **A failure stays**, whatever happens after it. -/
theorem run (h : s.Halted cause) (hsound : s.Sound o emitted) (hfft : 0 < o.fft)
    (htimeout : o.timeout ≠ 0) (hpolicy : o.policy = .strict) {later : List (Event α τ)}
    (hrun : s.run later = .ok u) :
    u.cutter.options = o ∧ u.Halted cause ∧ u.Abreast s := by
  have hfirst : s.Abreast s := ⟨⟨rfl, rfl, rfl⟩, rfl, rfl, rfl, rfl, rfl⟩
  obtain ⟨more, hu, hhalted⟩ : ∃ emitted, u.Sound o emitted ∧ u.Halted cause ∧ u.Abreast s := by
    refine run_sound (P := fun u _ => u.Halted cause ∧ u.Abreast s) hfft htimeout ?_ ?_ ?_ ?_ ?_
      ⟨emitted, hsound, h, hfirst⟩ hrun
    · intro v emitted p r e hv hhalted hmeet
      obtain ⟨-, -, hread, -⟩ := hv.samples.meet hmeet
      exact ⟨hhalted.1.feedSamples hv hmeet,
        { hhalted.2 with samples := hread.trans hhalted.2.samples }⟩
    · intro v emitted p r e hv hhalted hmeet
      obtain ⟨-, -, hread, -⟩ := hv.triggers.meet hmeet
      exact ⟨hhalted.1.feedTriggers hv hmeet,
        { hhalted.2 with triggers := hread.trans hhalted.2.triggers }⟩
    · intro v emitted p r e hv hhalted hmeet
      obtain ⟨-, -, htotal⟩ := hv.symbols.meet hmeet
      exact ⟨{ hhalted.1 with }, { hhalted.2 with symbols := htotal.trans hhalted.2.symbols }⟩
    · intro v emitted p r e hv hhalted hmeet
      obtain ⟨-, -, htotal⟩ := hv.flags.meet hmeet
      exact ⟨{ hhalted.1 with }, { hhalted.2 with flags := htotal.trans hhalted.2.flags }⟩
    · intro v emitted source d used _ hv hhalted hready hstep
      -- no look gets that far
      obtain ⟨e, hobserve, -⟩ := hstep.observed
      rw [(observe_due_error_iff (hv.options ▸ hpolicy)).2 hhalted.1.refused] at hobserve
      cases hobserve
  exact ⟨hu.options, hhalted⟩

/-- A call of work fails again, as soon as there is room. -/
theorem work (h : s.Halted cause) (hpolicy : s.cutter.options.policy = .strict)
    (hwindow : s.cutter.window < wordLimit) (hsymbols : s.cutter.symbols.room ≠ 0)
    (hflags : s.cutter.flags.room ≠ 0) (source : String) (queue : MessageQueue) :
    s.cutter.work source queue = .ok { block := s.cutter, queue, failure := some cause } := by
  have hstep : s.cutter.step source = .ok (.failed cause) :=
    step_failed_iff.2 ((observe_due_error_iff hpolicy).2 h.refused)
  exact (work_failed_iff.2
    ⟨hwindow, s.cutter, .refl, ⟨h.window_le, hsymbols, hflags⟩, hstep, rfl⟩).1

end Halted

variable [Inhabited α] [Rounded τ]

/-- The cutters to which a call of work leads are sound. -/
theorem Sound.reaches (h : s.Sound o emitted) (hfft : 0 < o.fft) (htimeout : o.timeout ≠ 0)
    {source : String} (hreach : Reaches source s.cutter d) :
    ∃ emitted, ({ s with cutter := d } : Session α τ).Sound o emitted := by
  induction hreach with
  | refl => exact ⟨emitted, h⟩
  | tail _ hlook ih =>
    obtain ⟨more, hmore⟩ := ih
    obtain ⟨hready, used, hstep⟩ := hlook
    exact ⟨_, hmore.look hfft htimeout hready hstep⟩

/-- **A strict cutter fails in front of late times, and for good.** A call of work fails exactly if
its looks lead to one that would note a late time, and it names the last of those. It leaves the
cutter as the looks before have left it, and however a session goes on from there, it gets no
further, and calls of work fail in the same way. What was emitted is what the reference says, and
ends in front of all late times. The anchor is on the first sample. -/
theorem refuses_late_times {c : SymbolCutter α τ} (hbuild : o.build = .ok c)
    (hpolicy : o.policy = .strict) {events : List (Event α τ)}
    (hrun : (start c).run events = .ok s) (hgiven : TimesGiven s.samples.tags) :
    (∀ source queue turn cause,
      s.cutter.work source queue = .ok turn ∧ turn.failure = some cause ↔
        s.cutter.window < wordLimit ∧ ∃ d i, Reaches source s.cutter d ∧ d.Ready ∧
          (lateDue s.samples.tags d).max? = some i ∧ cause = .timeTagOffset i ∧
          turn = { block := d, queue, failure := some cause }) ∧
    (∀ source queue turn cause, s.cutter.work source queue = .ok turn →
      turn.failure = some cause →
      ∀ later u, ({ s with cutter := turn.block } : Session α τ).run later = .ok u →
        u.Abreast { s with cutter := turn.block } ∧
        (u.cutter.symbols.room ≠ 0 → u.cutter.flags.room ≠ 0 → ∀ source queue,
          u.cutter.work source queue = .ok { block := u.cutter, queue, failure := some cause })) ∧
    (∃ emitted, emitted <+: segments o (triggersFrom o.fft s.triggers.data) ∧
      s.Emitted o.fft (emitted.map (Segment.cut o s.samples)) ∧
      ∀ e ∈ emitted, ∀ t ∈ s.samples.tags, isLate t = true → e.last < t.index) ∧
    ∀ index time, s.cutter.anchor = some (index, time) → index = 0 ∧
      ∃ t ∈ s.samples.tags, t.index = 0 ∧ t.key = Tag.rxTime ∧ t.time? = some time := by
  obtain ⟨hfft, htimeout, -⟩ := sound_start hbuild
  obtain ⟨emitted, hsound, htimed, hstrict⟩ := exists_strict hbuild hpolicy hrun hgiven
  have hrefused : ∀ source d cause, Reaches source s.cutter d →
      (d.step source = .ok (.failed cause) ↔ d.Refused cause) := by
    intro source d cause hreach
    obtain ⟨_, hd⟩ := hsound.reaches hfft htimeout hreach
    rw [step_failed_iff, observe_due_error_iff (hd.options ▸ hpolicy)]
  refine ⟨fun source queue turn cause => ?_, fun source queue turn cause hwork hfailed => ?_, ?_,
    fun index time => hstrict.anchor_eq htimed⟩
  · rw [work_failed_iff]
    refine and_congr_right fun _ => exists_congr fun d => ?_
    constructor
    · rintro ⟨hreach, hready, hstep, hturn⟩
      obtain ⟨_, hd⟩ := hsound.reaches hfft htimeout hreach
      obtain ⟨i, hmax, hcause⟩ :=
        (refused_iff hd.samples hgiven).1 ((hrefused source d cause hreach).1 hstep)
      exact ⟨i, hreach, hready, hmax, hcause, hturn⟩
    · rintro ⟨i, hreach, hready, hmax, hcause, hturn⟩
      obtain ⟨_, hd⟩ := hsound.reaches hfft htimeout hreach
      have hcauses := (refused_iff hd.samples hgiven).2 ⟨i, hmax, hcause⟩
      exact ⟨hreach, hready, (hrefused source d cause hreach).2 hcauses, hturn⟩
  · obtain ⟨hwindow, d, hreach, hready, hstep, rfl⟩ := work_failed_iff.1 ⟨hwork, hfailed⟩
    obtain ⟨more, hd⟩ := hsound.reaches hfft htimeout hreach
    have hleft : ({ s with cutter := d } : Session α τ).Halted cause :=
      ⟨hready.1, (hrefused source d cause hreach).1 hstep⟩
    intro later u hlater
    obtain ⟨hoptions, hhalted, habreast⟩ := hleft.run hd hfft htimeout hpolicy hlater
    have hsame : u.cutter.window = s.cutter.window := by
      rw [window, hoptions, window, hsound.options]
    exact ⟨habreast, hhalted.work (hoptions ▸ hpolicy) (hsame ▸ hwindow)⟩
  · refine ⟨emitted, hsound.segments_isPrefix, htimed.emitted_cut hsound,
      fun e he t ht hlate => ?_⟩
    exact Nat.lt_of_lt_of_le (hstrict.cut e he) (hstrict.late t ht hlate)

/-- The options of the smallest strict cutter. -/
def strictest : CutterOptions ℚ := { fft := 1, symbol := 1, bandwidth := 1, policy := .strict }

/-- Six samples with a burst at the second. There is a receive time on the first sample and another
on the fifth. -/
def timesApart : List (Event Nat ℚ) :=
  [.symbols (.reserve 4), .flags (.reserve 4),
    .samples (.push [1, 2, 3, 4, 5, 6]
      [⟨0, Tag.rxTime, .time ⟨5, 0⟩, none⟩, ⟨4, Tag.rxTime, .time ⟨9, 0⟩, none⟩]),
    .triggers (.push [0, 1, 0, 0, 0, 0] [])]

/-- Two symbols come out before the second time is due, and none after it. -/
theorem refuses_late_times_second :
    ∃ (c : SymbolCutter Nat ℚ) (s t : Session Nat ℚ),
      strictest.build = .ok c ∧ (start c).run timesApart = .ok s ∧
      s.cutter.work "cutter" {} =
        .ok { block := t.cutter, queue := {}, failure := some (.timeTagOffset 4) } ∧
      t.symbolsOut = [2, 3] ∧ t.flagsOut = [1, 0] ∧
      t.cutter.anchor.map (fun a => (a.1, a.2.seconds)) = some (0, 5) ∧
      (Reaches "cutter" s.cutter t.cutter ∧ (lateDue s.samples.tags t.cutter).max? = some 4) ∧
      ∀ later u, t.run later = .ok u → u.Abreast t ∧
        (u.cutter.symbols.room ≠ 0 → u.cutter.flags.room ≠ 0 → ∀ source queue,
          u.cutter.work source queue =
            .ok { block := u.cutter, queue, failure := some (.timeTagOffset 4) }) := by
  obtain ⟨c, hbuild, h⟩ := Fault.exists_ok_of_any (x := strictest.build)
    (p := fun c : SymbolCutter Nat ℚ =>
      ((start c).run timesApart).toOption.any fun s =>
        (s.samples.tags.all fun t => t.key != Tag.rxTime || t.time?.isSome) &&
        (s.cutter.work "cutter" {}).toOption.any fun turn =>
          turn.failure == some (.timeTagOffset 4) &&
          ({ s with cutter := turn.block } : Session Nat ℚ).symbolsOut == [2, 3] &&
          ({ s with cutter := turn.block } : Session Nat ℚ).flagsOut == [1, 0] &&
          turn.block.anchor.map (fun a => (a.1, a.2.seconds)) == some (0, 5))
    (by decide +kernel)
  obtain ⟨s, hs, h⟩ := Fault.exists_ok_of_any h
  obtain ⟨hgiven, h⟩ := Bool.and_eq_true_iff.1 h
  obtain ⟨turn, hturn, h⟩ := Fault.exists_ok_of_any h
  simp only [Bool.and_eq_true, beq_iff_eq] at h
  obtain ⟨⟨⟨hfailed, hsymbols⟩, hflags⟩, hanchor⟩ := h
  simp only [List.all_eq_true, Bool.or_eq_true, bne_iff_ne] at hgiven
  have htimes : TimesGiven s.samples.tags := fun t ht hkey =>
    Option.isSome_iff_exists.1 ((hgiven t ht).resolve_left (not_not.2 hkey))
  obtain ⟨hfails, hstays, -, -⟩ := refuses_late_times hbuild rfl hs htimes
  obtain ⟨-, d, i, hreach, -, hmax, hcause, rfl⟩ :=
    (hfails "cutter" {} turn _).1 ⟨hturn, hfailed⟩
  cases hcause
  exact ⟨c, s, { s with cutter := d }, hbuild, hs, hturn, hsymbols, hflags, hanchor,
    ⟨hreach, hmax⟩, hstays "cutter" {} _ _ hturn rfl⟩

end Session

end SymbolCutter

end OfdmBurst
