import Mathlib.Data.List.Forall2
import OfdmBurst.Proofs.SymbolCutter.Progress

/-!
# When bursts began

The flagged symbol of a burst carries the time at which the burst began. It is counted from the
anchor, and a cutter that takes every receive time as its anchor has a simple one: the most recent
receive time on the samples up to the trigger. `anchorAt` reads it off the tags of the whole stream,
and `burstTime` counts from there.

Why the cutter agrees is not quite plain, because a look notes the tags of its whole window, and
tags behind a trigger that is still to come must not be noted yet. No look goes past a trigger:
what was noted ends at or before the next trigger, and the look that finds it notes the tags up to
it. That is the invariant `Session.Timed`.

## Main definitions

* `anchorAt`, `burstTime` — the reference
* `Session.Timed` — the invariant
* `CutSymbol`, `Session.Emitted` — symbols with flags and times, and what a session emits of them

## Main results

* `Session.Timed.look` — a look keeps the invariant
* `Session.exists_timed` — every session is timed
* `Session.Timed.emitted_cut` — what it has emitted
* `Session.Timed.work_returns` — a call of work returns
-/

namespace OfdmBurst

namespace SymbolCutter

variable {α τ : Type}

/-- The most recent receive time on the samples before `bound`, with its sample. -/
def anchorAt (tags : List (Tag τ)) (bound : Nat) : Option (Nat × Timestamp τ) :=
  (Tag.latest? (tags.filter fun t => t.index < bound && t.key == Tag.rxTime)).bind fun t =>
    t.time?.map fun time => (t.index, time)

/-- Receive times are times. -/
def TimesGiven (tags : List (Tag τ)) : Prop :=
  ∀ t ∈ tags, t.key = Tag.rxTime → ∃ time, t.time? = some time

/-- **The reference.** The time at which the burst with its trigger at `trigger` began. -/
def burstTime [Rounded τ] (o : CutterOptions τ) (tags : List (Tag τ)) (trigger : Nat) :
    Except Fault (Timestamp τ) :=
  let (index, time) := (anchorAt tags (trigger + 1)).getD (0, .zero)
  time.shift ((Scalar.whole (trigger + 1 - o.preamble * o.symbol) - Scalar.whole index) / o.bandwidth)

/-! ### Anchors -/

/-- Later receive times are the anchor, if there are any. -/
theorem anchorAt_of_le {tags : List (Tag τ)} {first last : Nat} (h : first ≤ last)
    (htimes : TimesGiven tags) :
    anchorAt tags last =
      ((Tag.latest? (tags.filter fun t =>
          first ≤ t.index && t.index < last && t.key == Tag.rxTime)).bind fun t =>
        t.time?.map fun time => (t.index, time)).or (anchorAt tags first) := by
  have hnew : (tags.filter fun t => t.index < last && t.key == Tag.rxTime).filter
      (fun t => decide (first ≤ t.index)) = tags.filter fun t =>
        first ≤ t.index && t.index < last && t.key == Tag.rxTime := by
    rw [List.filter_filter]
    refine List.filter_congr fun t _ => ?_
    rw [Bool.and_assoc]
  have hold : (tags.filter fun t => t.index < last && t.key == Tag.rxTime).filter
      (fun t => decide (t.index < first)) = tags.filter fun t =>
        t.index < first && t.key == Tag.rxTime := by
    rw [List.filter_filter]
    refine List.filter_congr fun t _ => ?_
    by_cases ht : t.index < first
    · rw [decide_eq_true ht, decide_eq_true (Nat.lt_of_lt_of_le ht h), Bool.true_and]
    · rw [decide_eq_false ht, Bool.false_and, Bool.false_and]
  have hgiven : ∀ t ∈ tags.filter fun t => t.index < last && t.key == Tag.rxTime,
      ∃ x, (t.time?.map fun time => (t.index, time)) = some x := by
    intro t ht
    have hmem := List.mem_filter.1 ht
    simp only [Bool.and_eq_true, beq_iff_eq] at hmem
    obtain ⟨time, htime⟩ := htimes t hmem.1 hmem.2.2
    exact ⟨(t.index, time), by rw [htime, Option.map_some]⟩
  rw [anchorAt, Tag.bind_latest?_eq_or hgiven first, hnew, hold, anchorAt]

/-- What is pushed later leaves the anchor of what was there as it is. -/
theorem anchorAt_append {r : Record α τ} {bound : Nat} (h : bound ≤ r.data.length) (data : List α)
    (tags : List (Tag τ)) : anchorAt (r.append 1 data tags).tags bound = anchorAt r.tags bound := by
  rw [anchorAt, Record.filter_tags_append, anchorAt]
  intro t ht
  simp only [Bool.and_eq_true, decide_eq_true_eq] at ht
  omega

theorem burstTime_append [Rounded τ] {o : CutterOptions τ} {r : Record α τ} {trigger : Nat}
    (h : trigger < r.data.length) (data : List α) (tags : List (Tag τ)) :
    burstTime o (r.append 1 data tags).tags trigger = burstTime o r.tags trigger := by
  rw [burstTime, anchorAt_append h, burstTime]

/-- The samples up to the furthest that was looked at were seen. -/
theorem observe_seen {c d : SymbolCutter α τ} {last : Nat} (hread : c.samples.read ≤ c.seen)
    (h : c.observe last = .ok d) : d.seen = max c.seen last := by
  rw [observe_eq] at h
  simp only [Nat.max_eq_left hread] at h
  split at h
  next hlast =>
    cases h
    rw [Nat.max_eq_left hlast]
  next hlast =>
    obtain ⟨anchor, -, rfl⟩ := Fault.map_eq_ok_iff.1 h
    rw [Nat.max_eq_right (by omega)]

/-- A cutter whose anchor is that of what it has seen has the anchor of what it looks at then. A
strict one has it as well, or it fails. -/
theorem observe_anchorAt {c d : SymbolCutter α τ} {r : Record α τ} {last : Nat}
    (hholds : c.samples.Holds r) (htimes : TimesGiven r.tags) (hpolicy : c.options.policy ≠ .drop)
    (hread : c.samples.read ≤ c.seen) (hanchor : c.anchor = anchorAt r.tags c.seen)
    (h : c.observe last = .ok d) :
    d.seen = max c.seen last ∧ d.anchor = anchorAt r.tags (max c.seen last) := by
  refine ⟨observe_seen hread h, ?_⟩
  rw [observe_eq] at h
  simp only [Nat.max_eq_left hread] at h
  split at h
  next hlast =>
    cases h
    rw [Nat.max_eq_left hlast]
    exact hanchor
  next hlast =>
    have hle : c.seen ≤ last := by omega
    obtain ⟨anchor, hafter, rfl⟩ := Fault.map_eq_ok_iff.1 h
    rw [Nat.max_eq_right hle, anchorAt_of_le hle htimes, ← hanchor]
    rw [Inlet.latest?, hholds.tagsBetween_eq hread] at hafter
    show anchor = _
    cases hlatest : Tag.latest? (r.tags.filter fun t =>
        c.seen ≤ t.index && t.index < last && t.key == Tag.rxTime) with
    | none =>
      rw [hlatest] at hafter
      cases hafter
      rfl
    | some t =>
      have hmem := List.mem_filter.1 (Tag.latest?_mem hlatest)
      simp only [Bool.and_eq_true, beq_iff_eq] at hmem
      obtain ⟨time, htime⟩ := htimes t hmem.1 hmem.2.2
      rw [hlatest] at hafter
      simp only [anchorAfter, Option.bind_some, htime] at hafter
      rw [Option.bind_some, htime]
      split at hafter
      next hindex =>
        cases hafter
        rw [hindex]
        rfl
      next hindex =>
        cases hcase : c.options.policy with
        | rebase =>
          rw [hcase] at hafter
          cases hafter
          rfl
        | drop => exact absurd hcase hpolicy
        | strict =>
          rw [hcase] at hafter
          cases hafter

/-- A cutter with the anchor of the trigger counts from there. -/
theorem timeAt_eq_burstTime [Rounded τ] {o : CutterOptions τ} {c : SymbolCutter α τ}
    {tags : List (Tag τ)} {trigger : Nat} (hoptions : c.options = o)
    (hanchor : c.anchor = anchorAt tags (trigger + 1)) :
    c.timeAt (trigger + 1 - c.options.preamble * c.options.symbol) = burstTime o tags trigger := by
  subst hoptions
  rw [timeAt, hanchor, burstTime]

/-! ### Triggers -/

theorem mem_triggersFrom_iff {first t : Nat} {triggers : List UInt8} :
    t ∈ triggersFrom first triggers ↔
      first ≤ t ∧ t < triggers.length ∧ triggers.getD t 0 ≠ 0 := by
  rw [triggersFrom, List.mem_filter, List.mem_range'_1, bne_iff_ne]
  constructor
  · rintro ⟨⟨hfirst, hlt⟩, hset⟩
    exact ⟨hfirst, by omega, hset⟩
  · rintro ⟨hfirst, hlt, hset⟩
    exact ⟨⟨hfirst, by omega⟩, hset⟩

/-- If there is no trigger in front of a place, those from there on are all. -/
theorem triggersFrom_eq_zero {first : Nat} {triggers : List UInt8}
    (h : ∀ t ∈ triggersFrom 0 triggers, first ≤ t) :
    triggersFrom first triggers = triggersFrom 0 triggers := by
  have hnone : (List.range' 0 (min first triggers.length)).filter
      (fun i => triggers.getD i 0 != 0) = [] := by
    refine List.filter_eq_nil_iff.2 fun i hi hset => ?_
    rw [List.mem_range'_1] at hi
    have hle := h i (mem_triggersFrom_iff.2 ⟨Nat.zero_le _, by omega, bne_iff_ne.1 hset⟩)
    omega
  have hsplit : List.range' 0 (triggers.length - 0) = List.range' 0 (min first triggers.length) ++
      List.range' (min first triggers.length) (triggers.length - min first triggers.length) := by
    have happend := List.range'_append_1 (s := 0) (m := min first triggers.length)
      (n := triggers.length - min first triggers.length)
    rw [Nat.zero_add] at happend
    rw [happend]
    congr 1
    omega
  rw [triggersFrom, triggersFrom, hsplit, List.filter_append, hnone, List.nil_append]
  by_cases hfirst : first ≤ triggers.length
  · rw [Nat.min_eq_left hfirst]
  · have hlength : triggers.length - first = 0 := by omega
    rw [Nat.min_eq_right (by omega), hlength, Nat.sub_self]
    rfl

/-- A trigger was there already, or it is behind those that were. -/
theorem mem_triggersFrom_append {first t : Nat} {triggers more : List UInt8}
    (h : t ∈ triggersFrom first (triggers ++ more)) :
    t ∈ triggersFrom first triggers ∨ triggers.length ≤ t := by
  obtain ⟨hfirst, -, hset⟩ := mem_triggersFrom_iff.1 h
  by_cases hlt : t < triggers.length
  · refine .inl (mem_triggersFrom_iff.2 ⟨hfirst, hlt, ?_⟩)
    rw [List.getD_eq_getElem?_getD, List.getElem?_append_left hlt] at hset
    rw [List.getD_eq_getElem?_getD]
    exact hset
  · exact .inr (Nat.le_of_not_lt hlt)

/-! ### Marks -/

/-- The tag says when the burst of the segment began, at the place of the segment. -/
def Marked [Rounded τ] (o : CutterOptions τ) (tags : List (Tag τ)) (e : Segment × Nat) (t : Tag τ) :
    Prop :=
  t.index = e.2 ∧ ∃ time, t.value = .time time ∧ burstTime o tags e.1.last = .ok time

/-- One of the marks of a burst gives its time. -/
theorem filter_burstMarks (source : String) (index : Nat) (time : Timestamp τ)
    (offset : Option Float) :
    (burstMarks source index time offset).filter (·.key == Tag.syncTime) =
      [{ index, key := Tag.syncTime, value := .time time, source := some source }] := by
  cases offset <;> rfl

/-- The marks of a burst are on the next flag. -/
theorem burstMarks_place {p : Outlet UInt8 τ} (hwidth : p.width = 1) (source : String)
    (time : Timestamp τ) (offset : Option Float) (flag : UInt8) :
    ∀ t ∈ burstMarks source p.written time offset,
      p.written ≤ t.index ∧ t.index < p.written + [flag].length / p.width := by
  intro t ht
  rw [index_of_mem_burstMarks ht, hwidth, List.length_singleton, Nat.div_one]
  exact ⟨Nat.le_refl _, Nat.lt_succ_self _⟩

/-- A symbol that was cut out, with its flag and the time on it. -/
structure CutSymbol (α τ : Type) where
  symbol : List α
  flag : UInt8
  time : Option (Timestamp τ)

/-- What the reference says about a segment. -/
def Segment.cut [Rounded τ] (o : CutterOptions τ) (samples : Record α τ) (e : Segment) :
    CutSymbol α τ where
  symbol := e.samples o.fft samples.data
  flag := e.flag
  time := if e.flag = 1 then (burstTime o samples.tags e.last).toOption else none

namespace Session

/-- The number of flags that were put to the outlet. -/
theorem Sound.written_eq {o : CutterOptions τ} {s : Session α τ} {emitted : List Segment}
    (h : s.Sound o emitted) : s.cutter.flags.written = emitted.length := by
  have hflags := h.flags_eq
  rw [flagsOut] at hflags
  rw [h.flags.written_eq, h.flags_width, hflags, List.length_map, Nat.div_one]

/-- Everything emitted so far, taken or not: the tags that say when bursts began. -/
def timesOut (s : Session α τ) : List (Tag τ) :=
  (s.cutter.flags.total s.flags).tags.filter (·.key == Tag.syncTime)

/-- **The invariant of the times** of a session in which `emitted` was emitted. No trigger that is
still to come is among the samples whose tags were noted. -/
structure Timed [Rounded τ] (o : CutterOptions τ) (s : Session α τ) (emitted : List Segment) :
    Prop where
  /-- The tags of all samples used up were noted. -/
  read_le : s.cutter.samples.read ≤ s.cutter.seen
  /-- No more tags were noted than samples and triggers have arrived. -/
  seen_le : s.cutter.seen ≤ s.samples.data.length ∧ s.cutter.seen ≤ s.triggers.data.length
  /-- A trigger still to come is not among the samples whose tags were noted. -/
  unseen : ∀ t ∈ triggersFrom (s.cutter.samples.read + o.fft) s.triggers.data, s.cutter.seen ≤ t
  /-- The anchor is the one that the tags noted so far call for. -/
  anchor : s.cutter.anchor = anchorAt s.samples.tags s.cutter.seen
  /-- Every burst emitted is tagged with its time, counted from the anchor of then. -/
  times : List.Forall₂ (Marked o s.samples.tags) (emitted.zipIdx.filter (·.1.flag == 1)) s.timesOut

variable [Rounded τ] {o : CutterOptions τ} {s : Session α τ} {emitted : List Segment}

/-- A burst that is cut out has the time of the reference. -/
theorem Sound.burstTime_of_timed (h : s.Sound o emitted) {k seen : Nat}
    {anchor : Option (Nat × Timestamp τ)} {offset : Option Float} {time : Timestamp τ}
    (hanchor : anchor = anchorAt s.samples.tags (s.cutter.samples.read + o.fft + k + 1))
    (htimed : ({ s.cutter with anchor, offset, seen } : SymbolCutter α τ).timeAt
      (s.cutter.samples.read + s.cutter.options.fft + k + 1 -
        s.cutter.options.preamble * s.cutter.options.symbol) = .ok time) :
    burstTime o s.samples.tags (s.cutter.samples.read + o.fft + k) = .ok time := by
  have hoptions := h.options
  have hfft : s.cutter.options.fft = o.fft := by rw [hoptions]
  rw [hfft] at htimed
  rw [← htimed]
  exact (timeAt_eq_burstTime (c := { s.cutter with anchor, offset, seen }) hoptions hanchor).symm

namespace Timed

theorem feedSamples (h : s.Timed o emitted) (hsound : s.Sound o emitted) {p : Inlet α τ}
    {r : Record α τ} {e : Inlet.Event α τ}
    (he : s.cutter.samples.meet s.samples e = .ok (p, r)) :
    ({ s with cutter := { s.cutter with samples := p }, samples := r } : Session α τ).Timed o
      emitted := by
  obtain ⟨-, -, hread, hrecord⟩ := hsound.samples.meet he
  rcases hrecord with rfl | ⟨data, tags, -, rfl⟩
  · exact { h with
      read_le := hread ▸ h.read_le
      unseen := hread ▸ h.unseen }
  · have hlength := s.samples.length_le_append s.cutter.samples.width data tags
    have hinside : ∀ e ∈ emitted.zipIdx.filter (·.1.flag == 1), e.1.last < s.samples.data.length :=
      fun e he => (hsound.inside e.1
        (List.fst_mem_of_mem_zipIdx (List.mem_filter.1 he).1)).2
    refine { h with
      read_le := hread ▸ h.read_le
      seen_le := ⟨Nat.le_trans h.seen_le.1 hlength, h.seen_le.2⟩
      unseen := hread ▸ h.unseen
      anchor := ?_
      times := ?_ }
    · rw [hsound.samples_width, anchorAt_append h.seen_le.1]
      exact h.anchor
    · rw [hsound.samples_width]
      refine ((List.forall₂_and_left _ _).2 ⟨hinside, h.times⟩).imp fun e t ht => ?_
      rw [Marked, burstTime_append ht.1]
      exact ht.2

theorem feedTriggers (h : s.Timed o emitted) (hsound : s.Sound o emitted)
    {p : Inlet UInt8 τ} {r : Record UInt8 τ} {e : Inlet.Event UInt8 τ}
    (he : s.cutter.triggers.meet s.triggers e = .ok (p, r)) :
    ({ s with cutter := { s.cutter with triggers := p }, triggers := r } : Session α τ).Timed o
      emitted := by
  obtain ⟨-, -, -, hrecord⟩ := hsound.triggers.meet he
  rcases hrecord with rfl | ⟨data, tags, -, rfl⟩
  · exact { h with }
  · refine { h with seen_le := ⟨h.seen_le.1, ?_⟩, unseen := fun t ht => ?_ }
    · exact Nat.le_trans h.seen_le.2 (s.triggers.length_le_append _ data tags)
    · rcases mem_triggersFrom_append ht with ht | ht
      · exact h.unseen t ht
      · exact Nat.le_trans h.seen_le.2 ht

theorem readFlags (h : s.Timed o emitted) (hsound : s.Sound o emitted) {p : Outlet UInt8 τ}
    {r : Record UInt8 τ} {e : Outlet.Event} (he : s.cutter.flags.meet s.flags e = .ok (p, r)) :
    ({ s with cutter := { s.cutter with flags := p }, flags := r } : Session α τ).Timed o emitted := by
  obtain ⟨-, -, htotal⟩ := hsound.flags.meet he
  refine { h with times := ?_ }
  rw [timesOut, htotal]
  exact h.times

/-- A window without a trigger ends before all that are still to come. -/
theorem unseen_of_none (h : s.Timed o emitted) (hsound : s.Sound o emitted)
    (hready : s.cutter.Ready) (hnone : s.cutter.trigger? = none) (used : Nat)
    (hused : used ≤ o.symbol + 1) :
    ∀ t ∈ triggersFrom (s.cutter.samples.read + used + o.fft) s.triggers.data,
      max s.cutter.seen (s.cutter.samples.read + s.cutter.window) ≤ t := by
  intro t ht
  have hwindow := (hsound.window_le hready.1).2
  have hfound := hsound.trigger?_eq hready.1 []
  rw [hnone, List.append_nil] at hfound
  have hplace : s.cutter.samples.read + used + o.fft = s.cutter.samples.read + o.fft + used := by
    omega
  have hall := triggersFrom_of_none hfound.symm (by omega) (Nat.le_refl (o.symbol + 1))
  rw [hplace, ← triggersFrom_of_none hfound.symm (by omega) hused] at ht
  have hseen := h.unseen t ht
  rw [hall] at ht
  have hbehind := (mem_triggersFrom ht).1
  rw [window, hsound.options]
  omega

/-- A look that finds a trigger was not past it before, and notes the tags up to it. -/
theorem observe_found (h : s.Timed o emitted) (hsound : s.Sound o emitted)
    (hpolicy : o.policy ≠ .drop) (hgiven : TimesGiven s.samples.tags) (hready : s.cutter.Ready)
    {k : Nat} (hfound : s.cutter.trigger? = some k) {d : SymbolCutter α τ}
    (hobserve : s.cutter.observe (s.cutter.samples.read + (s.cutter.options.fft + k + 1)) = .ok d) :
    s.cutter.samples.read + o.fft + k ∈
        triggersFrom (s.cutter.samples.read + o.fft) s.triggers.data ∧
      s.cutter.seen ≤ s.cutter.samples.read + o.fft + k ∧
      d.seen = s.cutter.samples.read + o.fft + k + 1 ∧
      d.anchor = anchorAt s.samples.tags (s.cutter.samples.read + o.fft + k + 1) := by
  have hwindow := (hsound.window_le hready.1).2
  have hfirst := hsound.trigger?_eq hready.1 []
  rw [hfound, List.append_nil] at hfirst
  have hnext : s.cutter.samples.read + o.fft + k ∈
      triggersFrom (s.cutter.samples.read + o.fft) s.triggers.data := by
    rw [triggersFrom_of_some hfirst.symm (by omega)]
    exact List.mem_cons_self
  have hbefore := h.unseen _ hnext
  obtain ⟨hseen, hanchor⟩ := observe_anchorAt hsound.samples hgiven
    (hsound.options.symm ▸ hpolicy) h.read_le h.anchor hobserve
  have hmax : max s.cutter.seen (s.cutter.samples.read + (s.cutter.options.fft + k + 1)) =
      s.cutter.samples.read + o.fft + k + 1 := by
    rw [hsound.options]
    omega
  rw [hmax] at hseen hanchor
  exact ⟨hnext, hbefore, hseen, hanchor⟩

variable [Inhabited α]

omit [Inhabited α] in
/-- A cutter that has noted the tags before `seen`. -/
theorem of_seen {d : SymbolCutter α τ} {seen : Nat} (hseen : d.seen = seen)
    (hanchor : d.anchor = anchorAt s.samples.tags seen) (hread : d.samples.read ≤ seen)
    (hsamples : seen ≤ s.samples.data.length) (htriggers : seen ≤ s.triggers.data.length)
    (hunseen : ∀ t ∈ triggersFrom (d.samples.read + o.fft) s.triggers.data, seen ≤ t)
    (htimes : List.Forall₂ (Marked o s.samples.tags) (emitted.zipIdx.filter (·.1.flag == 1))
      ({ s with cutter := d } : Session α τ).timesOut) :
    ({ s with cutter := d } : Session α τ).Timed o emitted := by
  subst hseen
  exact
    { read_le := hread
      seen_le := ⟨hsamples, htriggers⟩
      unseen := hunseen
      anchor := hanchor
      times := htimes }

/-- **A look keeps the invariant of the times.** -/
theorem look (h : s.Timed o emitted) (hsound : s.Sound o emitted) (hpolicy : o.policy ≠ .drop)
    (htimes : TimesGiven s.samples.tags) {d : SymbolCutter α τ} {source : String} {used : Nat}
    (hready : s.cutter.Ready) (hstep : Step s.cutter source d used) :
    ({ s with cutter := d } : Session α τ).Timed o (emitted ++ s.cutter.cutNext) := by
  have hwindow := hsound.window_le hready.1
  have hoptions := hsound.options
  have hkeeps : s.cutter.options.policy ≠ .drop := hoptions ▸ hpolicy
  have hfft : s.cutter.options.fft = o.fft := by rw [hoptions]
  have hsymbol : s.cutter.options.symbol = o.symbol := by rw [hoptions]
  have hwin : s.cutter.window = o.symbol + o.fft + 1 := by rw [window, hoptions]
  have hread : d.samples.read = s.cutter.samples.read + used :=
    (Inlet.consume_frame hstep.consumed.1).2
  have hseenLe := h.seen_le
  cases hstep with
  | @burst k anchor offset seen time _ _ _ _ found observed _ timed _ flag =>
    obtain ⟨-, hbefore, hseen, hanchor⟩ :=
      h.observe_found hsound hpolicy htimes hready found observed
    have hk := hsound.lt_of_found found
    have htime := hsound.burstTime_of_timed hanchor timed
    have hcut : s.cutter.cutNext = [⟨s.cutter.samples.read + o.fft + k, 1⟩] := by
      rw [cutNext, found, hoptions]
    obtain ⟨-, -, -, htotal⟩ :=
      hsound.flags.emit _ (burstMarks_place hsound.flags_width source time offset 1) flag
    refine of_seen hseen hanchor ?_ ?_ ?_ (fun t ht => ?_) ?_
    · omega
    · omega
    · omega
    · have hbehind := (mem_triggersFrom ht).1
      omega
    · rw [timesOut, htotal, List.filter_append, filter_burstMarks, hcut, List.zipIdx_append,
        List.filter_append, Nat.zero_add, hsound.written_eq]
      exact List.rel_append h.times (.cons ⟨rfl, time, rfl, htime⟩ .nil)
  | @follow n anchor _ seen _ _ _ _ found framed observed _ flag =>
    obtain ⟨hseen, hanchor⟩ :=
      observe_anchorAt hsound.samples htimes hkeeps h.read_le h.anchor observed
    have hunseen := h.unseen_of_none hsound hready found s.cutter.options.symbol (by omega)
    have hcut : s.cutter.cutNext = [⟨s.cutter.samples.read + o.fft + o.symbol - 1, 0⟩] := by
      rw [cutNext, found, framed, hoptions]
    obtain ⟨-, -, -, htotal⟩ := hsound.flags.put flag
    refine of_seen hseen hanchor ?_ ?_ ?_ (hread ▸ hunseen) ?_
    · omega
    · omega
    · omega
    · rw [timesOut, htotal, hcut, List.zipIdx_append, List.filter_append]
      exact (List.append_nil _).symm ▸ h.times
  | @pass anchor _ seen _ _ found searching observed =>
    obtain ⟨hseen, hanchor⟩ :=
      observe_anchorAt hsound.samples htimes hkeeps h.read_le h.anchor observed
    have hunseen := h.unseen_of_none hsound hready found (s.cutter.options.symbol + 1) (by omega)
    have hcut : s.cutter.cutNext = [] := by rw [cutNext, found, searching]
    rw [hcut, List.append_nil]
    refine of_seen hseen hanchor ?_ ?_ ?_ (hread ▸ hunseen) h.times
    · omega
    · omega
    · omega

end Timed

/-! ### The whole session -/

theorem timed_start {c : SymbolCutter α τ} (hbuild : o.build = .ok c) : (start c).Timed o [] := by
  have hfresh := fresh_of_build hbuild
  exact
    { read_le := Nat.le_trans (Nat.le_of_eq hfresh.read) (Nat.zero_le _)
      seen_le := ⟨Nat.le_of_eq hfresh.seen, Nat.le_of_eq hfresh.seen⟩
      unseen := fun t _ => Nat.le_trans (Nat.le_of_eq hfresh.seen) (Nat.zero_le _)
      anchor := hfresh.anchor
      times := by
        have hnone : (start c).timesOut = [] := by
          rw [timesOut, Outlet.total]
          show (([] : List (Tag τ)) ++ c.flags.tags.toList).filter _ = []
          rw [hfresh.flags]
          rfl
        rw [hnone]
        exact .nil }

/-- **Every session is sound and timed**, whatever its events, if its receive times are times. -/
theorem exists_timed [Inhabited α] {c : SymbolCutter α τ} (hbuild : o.build = .ok c)
    (hpolicy : o.policy = .rebase) {events : List (Event α τ)}
    (hrun : (start c).run events = .ok s) (htimes : TimesGiven s.samples.tags) :
    ∃ emitted, s.Sound o emitted ∧ s.Timed o emitted := by
  obtain ⟨hfft, htimeout, hstart⟩ := sound_start hbuild
  have hkeeps : o.policy ≠ .drop := by
    rw [hpolicy]
    decide
  obtain ⟨emitted, hsound, h⟩ : ∃ emitted, s.Sound o emitted ∧
      (TimesGiven s.samples.tags → s.Timed o emitted) := by
    refine run_sound (P := fun s emitted => TimesGiven s.samples.tags → s.Timed o emitted)
      hfft htimeout ?_ ?_ ?_ ?_ ?_ ⟨[], hstart, fun _ => timed_start hbuild⟩ hrun
    · intro s emitted p r e hsound h hmeet hgiven
      have hbefore : TimesGiven s.samples.tags :=
        fun t ht => hgiven t (hsound.samples.tags_subset hmeet ht)
      exact (h hbefore).feedSamples hsound hmeet
    · intro s emitted p r e hsound h hmeet hgiven
      exact (h hgiven).feedTriggers hsound hmeet
    · intro s emitted p r e hsound h hmeet hgiven
      exact { h hgiven with }
    · intro s emitted p r e hsound h hmeet hgiven
      exact (h hgiven).readFlags hsound hmeet
    · intro s emitted source d used _ hsound h hready hstep hgiven
      exact (h hgiven).look hsound hkeeps hgiven hready hstep
  exact ⟨emitted, hsound, h htimes⟩

/-! ### Everything emitted -/

/-- The times of flagged symbols, read off the tags, are those that the reference gives them. -/
theorem map_eq_filterMap_of_forall₂ {β γ δ : Type} {R : β → γ → Prop} {p : β → Bool} {f : γ → δ}
    {g : β → Option δ} {xs : List β} {ys : List γ} (h : List.Forall₂ R (xs.filter p) ys)
    (hyes : ∀ x y, p x = true → R x y → g x = some (f y)) (hno : ∀ x, p x = false → g x = none) :
    ys.map f = xs.filterMap g := by
  induction xs generalizing ys with
  | nil =>
    cases h
    rfl
  | cons x rest ih =>
    cases hx : p x with
    | false =>
      rw [List.filter_cons, hx] at h
      rw [List.filterMap_cons_none (hno x hx)]
      exact ih h
    | true =>
      rw [List.filter_cons, hx] at h
      cases h with
      | cons hxy hrest => rw [List.map_cons, List.filterMap_cons_some (hyes x _ hx hxy), ih hrest]

/-- The symbols were emitted, with their flags, and with tags that say when bursts began. -/
structure Emitted (s : Session α τ) (fft : Nat) (out : List (CutSymbol α τ)) : Prop where
  /-- Every symbol has its full length. -/
  lengths : ∀ x ∈ out, x.symbol.length = fft
  /-- The samples put out are those of the symbols. -/
  symbols : s.symbolsOut = out.flatMap (·.symbol)
  /-- The flags put out are theirs. -/
  flags : s.flagsOut = out.map (·.flag)
  /-- The times put out are theirs, each at the place of its symbol. -/
  times : s.timesOut.map (fun t => (t.index, t.time?)) =
    out.zipIdx.filterMap fun p => p.1.time.map fun time => (p.2, some time)

/-- **Everything that was emitted** is what the reference says about the segments. -/
theorem Timed.emitted_cut (h : s.Timed o emitted) (hsound : s.Sound o emitted) :
    s.Emitted o.fft (emitted.map (Segment.cut o s.samples)) where
  lengths := by
    intro x hx
    obtain ⟨e, he, rfl⟩ := List.mem_map.1 hx
    exact Segment.length_samples (hsound.inside e he)
  symbols := by
    rw [List.flatMap_map]
    exact hsound.symbols_eq
  flags := by
    rw [List.map_map]
    exact hsound.flags_eq
  times := by
    rw [List.zipIdx_map, List.filterMap_map]
    refine map_eq_filterMap_of_forall₂ h.times ?_ ?_
    · rintro ⟨e, i⟩ t hflag ⟨hindex, time, hvalue, htime⟩
      have hone : e.flag = 1 := beq_iff_eq.1 hflag
      simp only [Function.comp_apply, Prod.map_apply, id, Segment.cut, hone, ↓reduceIte, htime,
        Except.toOption, Option.map_some, hindex, Tag.time?, hvalue]
    · rintro ⟨e, i⟩ hflag
      have hone : ¬ e.flag = 1 := beq_eq_false_iff_ne.1 hflag
      simp only [Function.comp_apply, Prod.map_apply, id, Segment.cut, if_neg hone, Option.map_none]

/-! ### A call of work -/

namespace Timed

/-- If every burst of the streams has a time, so has the one that a look finds. -/
theorem punctual (h : s.Timed o emitted) (hsound : s.Sound o emitted) (hpolicy : o.policy ≠ .drop)
    (hgiven : TimesGiven s.samples.tags)
    (htimes : ∀ t ∈ triggersFrom o.fft s.triggers.data,
      ∃ time, burstTime o s.samples.tags t = .ok time)
    (hready : s.cutter.Ready) : s.cutter.Punctual := by
  intro k d hfound hobserve
  obtain ⟨hnext, -, -, hanchor⟩ := h.observe_found hsound hpolicy hgiven hready hfound hobserve
  obtain ⟨hfirst, hlt, hset⟩ := mem_triggersFrom_iff.1 hnext
  obtain ⟨time, htime⟩ := htimes _ (mem_triggersFrom_iff.2 ⟨by omega, hlt, hset⟩)
  have hoptions := hsound.options
  have hfft : s.cutter.options.fft = o.fft := by rw [hoptions]
  have hsame : d.options = s.cutter.options := by rw [observe_frame hobserve]
  refine ⟨time, ?_⟩
  rw [← hsame, timeAt_eq_burstTime (hsame.trans hoptions) (hsame ▸ hfft ▸ hanchor), hsame, hfft]
  exact htime

/-- **A call of work returns** and does not fail, if every burst of the streams has a time. -/
theorem work_returns [Inhabited α] (h : s.Timed o emitted) (hsound : s.Sound o emitted)
    (hfft : 0 < o.fft) (htimeout : o.timeout ≠ 0) (hpolicy : o.policy = .rebase)
    (hgiven : TimesGiven s.samples.tags)
    (htimes : ∀ t ∈ triggersFrom o.fft s.triggers.data,
      ∃ time, burstTime o s.samples.tags t = .ok time)
    (hwindow : o.symbol + o.fft + 1 < wordLimit) (hfits : o.preamble * o.symbol < wordLimit)
    (source : String) (queue : MessageQueue) :
    ∃ turn, s.cutter.work source queue = .ok turn ∧ turn.failure = none := by
  have hkeeps : o.policy ≠ .drop := by
    rw [hpolicy]
    decide
  obtain ⟨turn, hturn, hfail⟩ := hsound.work_returns
    (Q := fun t emitted => t.Timed o emitted ∧ t.samples = s.samples ∧ t.triggers = s.triggers)
    ⟨h, rfl, rfl⟩
    (fun t d used emitted hsound hQ hready hstep =>
      ⟨hQ.1.look hsound hkeeps (hQ.2.1 ▸ hgiven) hready hstep, hQ.2⟩)
    (fun t emitted hsound hQ hready =>
      hQ.1.punctual hsound hkeeps (hQ.2.1 ▸ hgiven) (hQ.2.1 ▸ hQ.2.2 ▸ htimes) hready)
    hfft htimeout hwindow hfits queue
  refine ⟨turn, hturn, ?_⟩
  by_contra hfailed
  have hstrict := hfail hfailed
  rw [hpolicy] at hstrict
  cases hstrict

end Timed

end Session

end SymbolCutter

end OfdmBurst
