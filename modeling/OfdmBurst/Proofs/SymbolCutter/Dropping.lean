import Mathlib.Data.Rat.Floor
import OfdmBurst.Proofs.Signal.Exact
import OfdmBurst.Proofs.SymbolCutter.Thinning

/-!
# Leaving times aside

Under the policy that drops, a cutter takes its anchor from a receive time on the first sample of
the stream, and leaves all later ones aside. One would expect that a later one might as well not be
there. That is nearly so. A look asks for the most recent receive time of its window, and only then
whether it is on the first sample. So a later receive time that is left aside takes the place of the
one on the first sample, if the same look sees both.

Only the first look can see the first sample. So the late times that matter are those up to where
the first look ends, and what they do is the same whatever they say: the cutter has no anchor, for
ever, and counts its times from the start of the clock. In both cases the run is the one of another
stream: of the stream without the late times, or of the stream without any.

## Main definitions

* `isLate` — a receive time behind the first sample
* `firstLook` — where the first look ends
* `timeOnFirst` — the anchor that the first look takes
* `Session.Dropping` — the invariant
* `Session.Unaffected` — taking tags out does not change that anchor

## Main results

* `Session.Dropping.look` — the anchor is the one of the first look
* `Session.run_thin` — a run without tags that do not change that anchor
* `Session.leaves_late_times` — the two cases
* `Session.late_time_hides_first` — they differ
-/

namespace OfdmBurst

namespace SymbolCutter

variable {α τ : Type}

/-- A receive time that is not on the first sample. -/
def isLate (t : Tag τ) : Bool := t.index != 0 && t.key == Tag.rxTime

/-- The number of samples that the first look notes the tags of. -/
def firstLook (o : CutterOptions τ) (triggers : List UInt8) : Nat :=
  (((triggers.drop o.fft).take (o.symbol + 1)).findIdx? (· != 0)).elim (o.symbol + o.fft + 1)
    fun k => o.fft + k + 1

/-- The anchor of a tag on the first sample. -/
def onFirst (t : Tag τ) : Option (Nat × Timestamp τ) :=
  if t.index = 0 then t.time?.map fun time => (0, time) else none

/-- The anchor that a first look of `bound` samples takes. It is that of the most recent receive
time, if that one is on the first sample. -/
def timeOnFirst (tags : List (Tag τ)) (bound : Nat) : Option (Nat × Timestamp τ) :=
  (Tag.latest? (tags.filter fun t => t.index < bound && t.key == Tag.rxTime)).bind onFirst

theorem firstLook_le (o : CutterOptions τ) (triggers : List UInt8) :
    firstLook o triggers ≤ o.symbol + o.fft + 1 := by
  rw [firstLook]
  cases hfound : ((triggers.drop o.fft).take (o.symbol + 1)).findIdx? (· != 0) with
  | none => exact Nat.le_refl _
  | some k =>
    have hk := (List.findIdx?_eq_some_iff_getElem.1 hfound).1
    rw [List.length_take] at hk
    rw [Option.elim_some]
    omega

/-- Triggers behind the window do not move the end of the first look. -/
theorem firstLook_append {o : CutterOptions τ} {triggers : List UInt8}
    (h : o.symbol + o.fft + 1 ≤ triggers.length) (more : List UInt8) :
    firstLook o (triggers ++ more) = firstLook o triggers := by
  rw [firstLook, take_drop_append (by omega), firstLook]

/-- What is pushed later leaves the anchor of the first look as it is. -/
theorem timeOnFirst_append {r : Record α τ} {bound : Nat} (h : bound ≤ r.data.length)
    (data : List α) (tags : List (Tag τ)) :
    timeOnFirst (r.append 1 data tags).tags bound = timeOnFirst r.tags bound := by
  rw [timeOnFirst, Record.filter_tags_append, timeOnFirst]
  intro t ht
  simp only [Bool.and_eq_true, decide_eq_true_eq] at ht
  omega

/-- A late time that the first look sees leaves it without an anchor. -/
theorem timeOnFirst_of_late {tags : List (Tag τ)} {bound : Nat} {t : Tag τ} (ht : t ∈ tags)
    (hkey : t.key = Tag.rxTime) (hlate : t.index ≠ 0) (hbound : t.index < bound) :
    timeOnFirst tags bound = none := by
  have hmem : t ∈ tags.filter fun t => t.index < bound && t.key == Tag.rxTime := by
    refine List.mem_filter.2 ⟨ht, ?_⟩
    simp only [hbound, hkey, decide_true, beq_self_eq_true, Bool.and_self]
  rw [timeOnFirst]
  cases hlatest : Tag.latest? (tags.filter fun t => t.index < bound && t.key == Tag.rxTime) with
  | none => rfl
  | some u =>
    have hle := Tag.index_le_of_latest? hlatest hmem
    rw [Option.bind_some, onFirst, if_neg (by omega)]

/-! ### What a look notes -/

theorem anchorAfter_drop (found : Option (Tag τ)) (anchor : Option (Nat × Timestamp τ)) :
    anchorAfter .drop found anchor = .ok ((found.bind onFirst).or anchor) := by
  cases found with
  | none => rfl
  | some t =>
    simp only [anchorAfter, Option.bind_some, onFirst]
    by_cases hindex : t.index = 0
    · cases t.time? <;> simp [hindex]
    · cases t.time? <;> simp [hindex]

theorem bind_latest?_zero (p : Inlet α τ) (last : Nat) :
    (p.latest? 0 last Tag.rxTime).bind onFirst = timeOnFirst p.tags last := by
  simp [Inlet.latest?, Inlet.tagsBetween, timeOnFirst]

/-- Behind the first sample there is no time on it. -/
theorem bind_latest?_pos (p : Inlet α τ) {first : Nat} (h : 0 < first) (last : Nat) :
    (p.latest? first last Tag.rxTime).bind onFirst = none := by
  cases hlatest : p.latest? first last Tag.rxTime with
  | none => rfl
  | some t =>
    have hmem := (List.mem_filter.1 (Tag.latest?_mem hlatest)).2
    simp only [Bool.and_eq_true, decide_eq_true_eq] at hmem
    rw [Option.bind_some, onFirst, if_neg (by omega)]

variable {c d : SymbolCutter α τ} {last : Nat}

/-- Noting tags under the policy that drops. -/
theorem observe_drop (hpolicy : c.options.policy = .drop) :
    c.observe last =
      if last ≤ max c.seen c.samples.read then .ok c
      else
        .ok { c with
          anchor := ((c.samples.latest? (max c.seen c.samples.read) last Tag.rxTime).bind
            onFirst).or c.anchor
          offset := ((c.samples.latest? (max c.seen c.samples.read) last Tag.syncOffset).bind
            Tag.number?).or c.offset
          seen := last } := by
  rw [observe_eq, hpolicy]
  simp only [anchorAfter_drop]
  rfl

/-- Taking tags out makes no difference to what is noted, unless it changes the anchor of the first
look. -/
theorem observe_thin {keep : Tag τ → Bool} (hkeep : ∀ t, keep t = false → t.key = Tag.rxTime)
    (hpolicy : c.options.policy = .drop)
    (hfirst : max c.seen c.samples.read = 0 →
      timeOnFirst (c.samples.thin keep).tags last = timeOnFirst c.samples.tags last)
    (h : c.observe last = .ok d) : (c.thin keep).observe last = .ok (d.thin keep) := by
  have hanchor : ((c.samples.thin keep).latest? (max c.seen c.samples.read) last
      Tag.rxTime).bind onFirst =
        (c.samples.latest? (max c.seen c.samples.read) last Tag.rxTime).bind onFirst := by
    rcases Nat.eq_zero_or_pos (max c.seen c.samples.read) with hzero | hpos
    · rw [hzero, bind_latest?_zero, bind_latest?_zero, hfirst hzero]
    · rw [bind_latest?_pos _ hpos, bind_latest?_pos _ hpos]
  have hoffset : (c.samples.thin keep).latest? (max c.seen c.samples.read) last Tag.syncOffset =
      c.samples.latest? (max c.seen c.samples.read) last Tag.syncOffset := by
    rw [Inlet.latest?, Inlet.tagsBetween, Inlet.thin, List.filter_filter, Inlet.latest?,
      Inlet.tagsBetween]
    congr 1
    refine List.filter_congr fun t _ => ?_
    cases hkept : keep t with
    | true => rw [Bool.and_true]
    | false =>
      have hother : (t.key == Tag.syncOffset) = false := by
        rw [hkeep t hkept]
        decide
      rw [hother, Bool.and_false, Bool.and_false]
  rw [observe_drop hpolicy] at h
  rw [observe_drop (c := c.thin keep) hpolicy]
  show (if last ≤ max c.seen c.samples.read then _ else _) = _
  split at h
  next hlast =>
    cases h
    exact if_pos hlast
  next hlast =>
    cases h
    rw [if_neg hlast]
    show Except.ok ({ c.thin keep with
      anchor := (((c.samples.thin keep).latest? (max c.seen c.samples.read) last
        Tag.rxTime).bind onFirst).or c.anchor
      offset := (((c.samples.thin keep).latest? (max c.seen c.samples.read) last
        Tag.syncOffset).bind Tag.number?).or c.offset
      seen := last }) = _
    rw [hanchor, hoffset]
    rfl

/-- A look does not fail under the policy that drops. -/
theorem step_ne_failed [Inhabited α] [Rounded τ] (hpolicy : c.options.policy = .drop)
    (source : String) (cause : FramingError) : c.step source ≠ .ok (.failed cause) := by
  rw [Ne, step_failed_iff, observe_drop hpolicy]
  intro h
  split at h <;> cases h

namespace Session

variable {o : CutterOptions τ} {s t : Session α τ} {emitted : List Segment}

/-- **The invariant of the anchor.** It is the one that the first look took. -/
structure Dropping (o : CutterOptions τ) (s : Session α τ) : Prop where
  /-- Without a look nothing is used up and there is no anchor. -/
  unseen : s.cutter.seen = 0 → s.cutter.samples.read = 0 ∧ s.cutter.anchor = none
  /-- Behind the first look the anchor is the time on the first sample, as that look found it. -/
  seen : s.cutter.seen ≠ 0 → o.symbol + o.fft + 1 ≤ s.samples.data.length ∧
    o.symbol + o.fft + 1 ≤ s.triggers.data.length ∧
    s.cutter.anchor = timeOnFirst s.samples.tags (firstLook o s.triggers.data)

/-- Taking out the tags that fail the test does not change the anchor that the first look takes. -/
def Unaffected (keep : Tag τ → Bool) (o : CutterOptions τ) (s : Session α τ) : Prop :=
  o.symbol + o.fft + 1 ≤ s.samples.data.length → o.symbol + o.fft + 1 ≤ s.triggers.data.length →
    timeOnFirst (s.samples.thin keep).tags (firstLook o s.triggers.data) =
      timeOnFirst s.samples.tags (firstLook o s.triggers.data)

/-- The first look that is due ends where `firstLook` says. -/
theorem Sound.due_eq (h : s.Sound o emitted) (hready : s.cutter.window ≤ s.cutter.available)
    (hread : s.cutter.samples.read = 0) : s.cutter.due = firstLook o s.triggers.data := by
  have hfound := h.trigger?_eq hready []
  rw [List.append_nil, hread, Nat.zero_add] at hfound
  rw [due, hread, Nat.zero_add, hfound, firstLook, window, h.options]

/-- Before anything was used up, an inlet holds all tags of its record. -/
theorem Sound.tags_eq (h : s.Sound o emitted) (hread : s.cutter.samples.read = 0) :
    s.cutter.samples.tags = s.samples.tags := by
  rw [h.samples.tags, hread]
  exact List.filter_eq_self.2 fun t _ => decide_eq_true (Nat.zero_le _)

namespace Dropping

theorem feedSamples (h : s.Dropping o) (hsound : s.Sound o emitted) {p : Inlet α τ}
    {r : Record α τ} {e : Inlet.Event α τ}
    (he : s.cutter.samples.meet s.samples e = .ok (p, r)) :
    ({ s with cutter := { s.cutter with samples := p }, samples := r } : Session α τ).Dropping
      o := by
  obtain ⟨-, -, hread, hrecord⟩ := hsound.samples.meet he
  refine ⟨fun hseen => ?_, fun hseen => ?_⟩
  · exact ⟨hread.trans (h.unseen hseen).1, (h.unseen hseen).2⟩
  · obtain ⟨hsamples, htriggers, hanchor⟩ := h.seen hseen
    rcases hrecord with rfl | ⟨data, tags, -, rfl⟩
    · exact ⟨hsamples, htriggers, hanchor⟩
    · refine ⟨Nat.le_trans hsamples (s.samples.length_le_append _ data tags), htriggers, ?_⟩
      rw [hsound.samples_width,
        timeOnFirst_append (Nat.le_trans (firstLook_le o _) hsamples)]
      exact hanchor

theorem feedTriggers (h : s.Dropping o) (hsound : s.Sound o emitted) {p : Inlet UInt8 τ}
    {r : Record UInt8 τ} {e : Inlet.Event UInt8 τ}
    (he : s.cutter.triggers.meet s.triggers e = .ok (p, r)) :
    ({ s with cutter := { s.cutter with triggers := p }, triggers := r } : Session α τ).Dropping
      o := by
  obtain ⟨-, -, -, hrecord⟩ := hsound.triggers.meet he
  refine ⟨h.unseen, fun hseen => ?_⟩
  obtain ⟨hsamples, htriggers, hanchor⟩ := h.seen hseen
  rcases hrecord with rfl | ⟨data, tags, -, rfl⟩
  · exact ⟨hsamples, htriggers, hanchor⟩
  · refine ⟨hsamples, Nat.le_trans htriggers (s.triggers.length_le_append _ data tags), ?_⟩
    show _ = timeOnFirst _ (firstLook o (s.triggers.data ++ data))
    rw [firstLook_append htriggers]
    exact hanchor

variable [Inhabited α] [Rounded τ]

/-- **A look keeps the anchor of the first look.** -/
theorem look (h : s.Dropping o) (hsound : s.Sound o emitted) (hpolicy : o.policy = .drop)
    {d : SymbolCutter α τ} {source : String} {used : Nat} (hready : s.cutter.Ready)
    (hstep : Step s.cutter source d used) : ({ s with cutter := d } : Session α τ).Dropping o := by
  obtain ⟨e, hobserve, hanchor, hseen⟩ := hstep.observed
  have hwindow := hsound.window_le hready.1
  have hdrop : s.cutter.options.policy = .drop := hsound.options ▸ hpolicy
  have hdue : 0 < s.cutter.due := by
    rw [due]
    cases s.cutter.trigger? with
    | none => exact Nat.lt_of_lt_of_le (Nat.succ_pos _) (Nat.le_add_left _ _)
    | some k => exact Nat.lt_of_lt_of_le (Nat.succ_pos _) (Nat.le_add_left _ _)
  rw [observe_drop hdrop] at hobserve
  have hnoted : e.seen ≠ 0 ∧
      e.anchor = timeOnFirst s.samples.tags (firstLook o s.triggers.data) := by
    by_cases hzero : s.cutter.seen = 0
    · -- the first look, over everything up to where it is due
      obtain ⟨hread, hnone⟩ := h.unseen hzero
      have hmax : max s.cutter.seen s.cutter.samples.read = 0 := by omega
      rw [hmax, if_neg (by omega)] at hobserve
      cases hobserve
      refine ⟨by dsimp only; omega, ?_⟩
      dsimp only
      rw [hnone, Option.or_none, bind_latest?_zero, hsound.tags_eq hread,
        hsound.due_eq hready.1 hread]
    · obtain ⟨-, -, hfirst⟩ := h.seen hzero
      split at hobserve
      · cases hobserve
        exact ⟨hzero, hfirst⟩
      next hlast =>
        cases hobserve
        refine ⟨by dsimp only; omega, ?_⟩
        dsimp only
        rw [bind_latest?_pos _ (by omega), Option.none_or, hfirst]
  refine ⟨fun hnever => absurd (hseen.symm.trans hnever) hnoted.1, fun _ => ?_⟩
  obtain ⟨hsamples, htriggers⟩ := hwindow
  refine ⟨?_, ?_, hanchor.trans hnoted.2⟩
  · exact Nat.le_trans (Nat.le_add_left _ _) hsamples
  · exact Nat.le_trans (Nat.le_add_left _ _) htriggers

end Dropping

/-! ### Runs -/

section Runs

variable {keep : Tag τ → Bool}

/-- What changes nothing when more has arrived, changes nothing now. -/
theorem Unaffected.of_feedSamples (hsound : s.Sound o emitted) {p : Inlet α τ} {r : Record α τ}
    {e : Inlet.Event α τ} (he : s.cutter.samples.meet s.samples e = .ok (p, r))
    (h : ({ s with cutter := { s.cutter with samples := p }, samples := r } :
      Session α τ).Unaffected keep o) : s.Unaffected keep o := by
  intro hsamples htriggers
  have hbound := Nat.le_trans (firstLook_le o s.triggers.data) hsamples
  obtain ⟨-, -, -, rfl | ⟨data, tags, -, rfl⟩⟩ := hsound.samples.meet he
  · exact h hsamples htriggers
  · have hsame := h (Nat.le_trans hsamples (s.samples.length_le_append _ data tags)) htriggers
    rw [hsound.samples_width, Record.thin_append, timeOnFirst_append hbound] at hsame
    rw [← hsame]
    exact (timeOnFirst_append (r := s.samples.thin keep) hbound data _).symm

theorem Unaffected.of_feedTriggers (hsound : s.Sound o emitted) {p : Inlet UInt8 τ}
    {r : Record UInt8 τ} {e : Inlet.Event UInt8 τ}
    (he : s.cutter.triggers.meet s.triggers e = .ok (p, r))
    (h : ({ s with cutter := { s.cutter with triggers := p }, triggers := r } :
      Session α τ).Unaffected keep o) : s.Unaffected keep o := by
  intro hsamples htriggers
  obtain ⟨-, -, -, rfl | ⟨data, tags, -, rfl⟩⟩ := hsound.triggers.meet he
  · exact h hsamples htriggers
  · have hsame := h hsamples (Nat.le_trans htriggers (s.triggers.length_le_append _ data tags))
    rw [Record.append, firstLook_append htriggers] at hsame
    exact hsame

/-- A look that is due notes the same. -/
theorem Unaffected.indifferent (h : s.Unaffected keep o) (hsound : s.Sound o emitted)
    (hpolicy : o.policy = .drop)
    (hkeep : ∀ t, keep t = false → t.key = Tag.rxTime) (hready : s.cutter.Ready) :
    s.cutter.Indifferent keep := by
  intro d hobserve
  refine observe_thin hkeep (hsound.options ▸ hpolicy) (fun hzero => ?_) hobserve
  have hread : s.cutter.samples.read = 0 := by omega
  obtain ⟨hsamples, htriggers⟩ := hsound.window_le hready.1
  rw [Inlet.thin, hsound.tags_eq hread, hsound.due_eq hready.1 hread]
  exact h (by omega) (by omega)

variable [Inhabited α] [Rounded τ]

variable (keep) in
/-- What changes nothing at the end of a run, changes nothing at its start. -/
theorem unaffected_of_run (hfft : 0 < o.fft) (htimeout : o.timeout ≠ 0)
    (hsound : ∃ emitted, s.Sound o emitted) {events : List (Event α τ)}
    (hrun : s.run events = .ok t) :
    ∃ emitted, t.Sound o emitted ∧ (t.Unaffected keep o → s.Unaffected keep o) := by
  obtain ⟨emitted, hs⟩ := hsound
  refine run_sound (P := fun t _ => t.Unaffected keep o → s.Unaffected keep o) hfft htimeout
    ?_ ?_ ?_ ?_ ?_ ⟨emitted, hs, fun h => h⟩ hrun
  · exact fun u emitted p r e hu hback hmeet h => hback (h.of_feedSamples hu hmeet)
  · exact fun u emitted p r e hu hback hmeet h => hback (h.of_feedTriggers hu hmeet)
  · exact fun u emitted p r e hu hback hmeet => hback
  · exact fun u emitted p r e hu hback hmeet => hback
  · exact fun u emitted source d used _ hu hback hready hstep => hback

/-- **A run without tags that do not matter is the same run.** Those are receive times that do not
change the anchor of the first look. -/
theorem run_thin (hfft : 0 < o.fft) (htimeout : o.timeout ≠ 0) (hpolicy : o.policy = .drop)
    (hkeep : ∀ t, keep t = false → t.key = Tag.rxTime) (hsound : ∃ emitted, s.Sound o emitted)
    {events : List (Event α τ)} (hrun : s.run events = .ok t) (hsame : t.Unaffected keep o) :
    (s.thin keep).run (thinned keep s.samples.data.length events) = .ok (t.thin keep) := by
  induction events generalizing s with
  | nil =>
    rw [run, List.foldlM_nil, Fault.pure_eq_ok_iff] at hrun
    subst hrun
    rfl
  | cons e rest ih =>
    obtain ⟨-, -, hnow⟩ := unaffected_of_run keep hfft htimeout hsound hrun
    rw [run, List.foldlM_cons, Fault.bind_eq_ok_iff] at hrun
    obtain ⟨u, hact, hrest⟩ := hrun
    have hone : s.run [e] = .ok u := by
      rw [run, List.foldlM_cons]
      exact Fault.bind_eq_ok_iff.2 ⟨u, hact, rfl⟩
    obtain ⟨more, hu, -⟩ := unaffected_of_run keep hfft htimeout hsound hone
    obtain ⟨emitted, hs⟩ := hsound
    have hthin : (s.thin keep).act
        (e.thin keep (s.samples.data.length / s.cutter.samples.width)) = .ok (u.thin keep) := by
      refine act_thin keep
        (P := fun c => ∃ emitted, ({ s with cutter := c } : Session α τ).Sound o emitted)
        ?_ ?_ ?_ hs.samples ⟨emitted, hs⟩ hact
      · rintro c source d used ⟨emitted, hc⟩ hready hstep
        exact ⟨_, hc.look hfft htimeout hready hstep⟩
      · rintro c ⟨emitted, hc⟩ hready
        exact Unaffected.indifferent (s := { s with cutter := c }) (hnow hsame) hc hpolicy hkeep
          hready
      · rintro c source cause ⟨emitted, hc⟩ -
        exact step_ne_failed (hc.options ▸ hpolicy) source cause
    rw [hs.samples_width, Nat.div_one] at hthin
    have hmore := ih ⟨more, hu⟩ hrest
    rw [length_act hs.samples_width hact] at hmore
    rw [run, thinned, List.foldlM_cons]
    exact Fault.bind_eq_ok_iff.2 ⟨_, hthin, hmore⟩

/-- Every session has the anchor of its first look. -/
theorem exists_dropping {c : SymbolCutter α τ} (hbuild : o.build = .ok c)
    (hpolicy : o.policy = .drop) {events : List (Event α τ)} (hrun : (start c).run events = .ok s) :
    s.Dropping o := by
  obtain ⟨hfft, htimeout, hstart⟩ := sound_start hbuild
  have hfresh := fresh_of_build hbuild
  have hinit : (start c).Dropping o :=
    ⟨fun _ => ⟨hfresh.read, hfresh.anchor⟩, fun hnot => absurd hfresh.seen hnot⟩
  obtain ⟨-, -, h⟩ : ∃ emitted, s.Sound o emitted ∧ s.Dropping o := by
    refine run_sound (P := fun s _ => s.Dropping o) hfft htimeout ?_ ?_ ?_ ?_ ?_
      ⟨[], hstart, hinit⟩ hrun
    · exact fun u emitted p r e hu h hmeet => h.feedSamples hu hmeet
    · exact fun u emitted p r e hu h hmeet => h.feedTriggers hu hmeet
    · exact fun u emitted p r e hu h hmeet => ⟨h.unseen, h.seen⟩
    · exact fun u emitted p r e hu h hmeet => ⟨h.unseen, h.seen⟩
    · exact fun u emitted source d used _ hu h hready hstep => h.look hu hpolicy hready hstep
  exact h

end Runs

/-! ### Late times -/

/-- The two sessions have emitted the same symbols and flags, with the same tags, and have the same
anchor. -/
structure Agrees (s t : Session α τ) : Prop where
  /-- They have emitted the same symbols, taken or not. -/
  symbols : s.cutter.symbols.total s.symbols = t.cutter.symbols.total t.symbols
  /-- They have emitted the same flags with the same tags. -/
  flags : s.cutter.flags.total s.flags = t.cutter.flags.total t.flags
  /-- They count times from the same anchor. -/
  anchor : s.cutter.anchor = t.cutter.anchor

variable {c : SymbolCutter α τ}

/-- A cutter that was just built has no tags that could be taken out. -/
theorem start_thin [Scalar τ] (hbuild : o.build = .ok c) (keep : Tag τ → Bool) :
    (start c).thin keep = start c := by
  have htags := (fresh_of_build hbuild).samples
  have hinlet : c.samples.thin keep = c.samples := by
    rw [Inlet.thin, htags, List.filter_nil, ← htags]
  rw [thin, SymbolCutter.thin, start, hinlet]
  rfl

/-- Late times that the first look does not see do not change its anchor. -/
theorem unaffected_of_clear
    (hclear : ∀ t ∈ s.samples.tags, t.key = Tag.rxTime →
      t.index = 0 ∨ firstLook o s.triggers.data ≤ t.index) :
    s.Unaffected (fun t => !isLate t) o := by
  intro _ _
  rw [timeOnFirst, Record.thin, List.filter_filter, timeOnFirst]
  congr 2
  refine List.filter_congr fun t ht => ?_
  by_cases hkey : t.key = Tag.rxTime
  · rcases hclear t ht hkey with hzero | hbehind
    · simp [isLate, hzero]
    · simp [Nat.not_lt.2 hbehind]
  · simp [hkey]

/-- If the first look sees a late time, no receive time changes its anchor. -/
theorem unaffected_of_late {t : Tag τ} (ht : t ∈ s.samples.tags) (hkey : t.key = Tag.rxTime)
    (hlate : t.index ≠ 0) (hseen : t.index < firstLook o s.triggers.data) :
    s.Unaffected (fun t => t.key != Tag.rxTime) o := by
  intro _ _
  have hnone : (s.samples.thin fun t => t.key != Tag.rxTime).tags.filter
      (fun t => t.index < firstLook o s.triggers.data && t.key == Tag.rxTime) = [] := by
    refine List.filter_eq_nil_iff.2 fun u hu hkeys => ?_
    have hother := (List.mem_filter.1 hu).2
    simp only [Bool.and_eq_true, beq_iff_eq] at hkeys
    simp [hkeys.2] at hother
  rw [timeOnFirst_of_late ht hkey hlate hseen, timeOnFirst, hnone]
  rfl

variable [Inhabited α] [Rounded τ]

/-- **Late times are left aside, or they hide the first.** If the first look sees no late time, the
run is the one without the late times. If it sees one, the cutter has no anchor, and the run is the
one without any receive time. -/
theorem leaves_late_times (hbuild : o.build = .ok c) (hpolicy : o.policy = .drop)
    {events : List (Event α τ)} (hrun : (start c).run events = .ok s) :
    ((∀ t ∈ s.samples.tags, t.key = Tag.rxTime →
        t.index = 0 ∨ firstLook o s.triggers.data ≤ t.index) →
      ∃ u, (start c).run (thinned (fun t => !isLate t) 0 events) = .ok u ∧ u.Agrees s) ∧
    ∀ t ∈ s.samples.tags, t.key = Tag.rxTime → t.index ≠ 0 →
      t.index < firstLook o s.triggers.data →
      s.cutter.anchor = none ∧
        ∃ u, (start c).run (thinned (fun t => t.key != Tag.rxTime) 0 events) = .ok u ∧
          u.Agrees s := by
  obtain ⟨hfft, htimeout, hstart⟩ := sound_start hbuild
  have hthin : ∀ keep : Tag τ → Bool, (∀ t, keep t = false → t.key = Tag.rxTime) →
      s.Unaffected keep o → ∃ u, (start c).run (thinned keep 0 events) = .ok u ∧ u.Agrees s := by
    intro keep hkeep hsame
    have hmirror := run_thin hfft htimeout hpolicy hkeep ⟨[], hstart⟩ hrun hsame
    rw [start_thin hbuild] at hmirror
    exact ⟨s.thin keep, hmirror, rfl, rfl, rfl⟩
  constructor
  · intro hclear
    refine hthin _ (fun t ht => ?_) (unaffected_of_clear hclear)
    simp only [isLate, Bool.not_eq_false', Bool.and_eq_true, beq_iff_eq] at ht
    exact ht.2
  · intro t ht hkey hlate hseen
    refine ⟨?_, hthin _ (fun u hu => ?_) (unaffected_of_late ht hkey hlate hseen)⟩
    · have hdropping := exists_dropping hbuild hpolicy hrun
      by_cases hzero : s.cutter.seen = 0
      · exact (hdropping.unseen hzero).2
      · rw [(hdropping.seen hzero).2.2, timeOnFirst_of_late ht hkey hlate hseen]
    · exact bne_eq_false_iff_eq.1 hu

/-- The options of the smallest cutter that drops. -/
def smallest : CutterOptions ℚ := { fft := 1, symbol := 1, bandwidth := 1, policy := .drop }

/-- Four samples with a burst at the second. There is a receive time on the first sample and another
on sample `late`. -/
def twoTimes (late : Nat) : List (Event Nat ℚ) :=
  [.symbols (.reserve 4), .flags (.reserve 4),
    .samples (.push [1, 2, 3, 4]
      [⟨0, Tag.rxTime, .time ⟨5, 0⟩, none⟩, ⟨late, Tag.rxTime, .time ⟨9, 0⟩, none⟩]),
    .triggers (.push [0, 1, 0, 0] []), .work "cutter"]

/-- The first look ends with the second sample. A late time on the third is left aside, and one on
the second leaves the cutter without an anchor. -/
theorem leaves_late_times_both :
    ∃ (c : SymbolCutter Nat ℚ) (s t : Session Nat ℚ),
      smallest.build = .ok c ∧ (start c).run (twoTimes 2) = .ok s ∧
      (start c).run (twoTimes 1) = .ok t ∧
      (∃ u, (start c).run (thinned (fun t => !isLate t) 0 (twoTimes 2)) = .ok u ∧ u.Agrees s) ∧
      t.cutter.anchor = none ∧
      ∃ u, (start c).run (thinned (fun t => t.key != Tag.rxTime) 0 (twoTimes 1)) = .ok u ∧
        u.Agrees t := by
  obtain ⟨c, hbuild, h⟩ := Fault.exists_ok_of_any (x := smallest.build)
    (p := fun c : SymbolCutter Nat ℚ =>
      (((start c).run (twoTimes 2)).toOption.any fun s =>
        s.samples.tags.all fun t => t.key != Tag.rxTime || (t.index == 0 ||
          decide (firstLook smallest s.triggers.data ≤ t.index))) &&
      ((start c).run (twoTimes 1)).toOption.any fun s =>
        s.samples.tags.any fun t => t.key == Tag.rxTime && (t.index != 0 &&
          decide (t.index < firstLook smallest s.triggers.data)))
    (by decide +kernel)
  obtain ⟨hclear, hseen⟩ := Bool.and_eq_true_iff.1 h
  obtain ⟨s, hs, hclear⟩ := Fault.exists_ok_of_any hclear
  obtain ⟨t, ht, hseen⟩ := Fault.exists_ok_of_any hseen
  simp only [List.all_eq_true, List.any_eq_true, Bool.or_eq_true, Bool.and_eq_true, bne_iff_ne,
    beq_iff_eq, decide_eq_true_eq] at hclear hseen
  obtain ⟨late, hmem, hkey, hindex, hbound⟩ := hseen
  refine ⟨c, s, t, hbuild, hs, ht, ?_, ?_⟩
  · refine (leaves_late_times hbuild rfl hs).1 fun u hu hkey => ?_
    exact (hclear u hu).resolve_left (not_not.2 hkey)
  · exact (leaves_late_times hbuild rfl ht).2 late hmem hkey hindex hbound

/-- **A late time hides the first.** Without it the cutter has an anchor and counts the burst from
there. With it there is none, and the burst is counted from the start of the clock. -/
theorem late_time_hides_first :
    ∃ (c : SymbolCutter Nat ℚ) (s t : Session Nat ℚ),
      smallest.build = .ok c ∧ (start c).run (twoTimes 1) = .ok s ∧
      (start c).run (thinned (fun t => !isLate t) 0 (twoTimes 1)) = .ok t ∧
      s.cutter.anchor.map (fun a => (a.1, a.2.seconds)) = none ∧
      t.cutter.anchor.map (fun a => (a.1, a.2.seconds)) = some (0, 5) ∧
      (s.cutter.flags.total s.flags).tags.map (fun t => t.time?.map (·.seconds)) = [some 1] ∧
      (t.cutter.flags.total t.flags).tags.map (fun t => t.time?.map (·.seconds)) = [some 6] := by
  obtain ⟨c, hbuild, h⟩ := Fault.exists_ok_of_any (x := smallest.build)
    (p := fun c : SymbolCutter Nat ℚ =>
      (((start c).run (twoTimes 1)).toOption.any fun s =>
        s.cutter.anchor.map (fun a => (a.1, a.2.seconds)) == none &&
        (s.cutter.flags.total s.flags).tags.map (fun t => t.time?.map (·.seconds)) == [some 1]) &&
      ((start c).run (thinned (fun t => !isLate t) 0 (twoTimes 1))).toOption.any fun t =>
        t.cutter.anchor.map (fun a => (a.1, a.2.seconds)) == some (0, 5) &&
        (t.cutter.flags.total t.flags).tags.map (fun t => t.time?.map (·.seconds)) == [some 6])
    (by decide +kernel)
  obtain ⟨hwith, hwithout⟩ := Bool.and_eq_true_iff.1 h
  obtain ⟨s, hs, hwith⟩ := Fault.exists_ok_of_any hwith
  obtain ⟨t, ht, hwithout⟩ := Fault.exists_ok_of_any hwithout
  simp only [Bool.and_eq_true, beq_iff_eq] at hwith hwithout
  exact ⟨c, s, t, hbuild, hs, ht, hwith.1, hwithout.1, hwith.2, hwithout.2⟩

end Session

end SymbolCutter

end OfdmBurst
