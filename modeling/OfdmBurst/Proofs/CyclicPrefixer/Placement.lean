import OfdmBurst.Proofs.CyclicPrefixer.Marks
import OfdmBurst.Proofs.Stream.Comparison

/-!
# The tags on every sample

One call of work attaches the tags of all symbols that it takes, and behind them the marks of all
burst ends among these. So the order in which tags are attached shows where one call ended and the
next began. On a single sample it does not: what is on a sample depends on its symbol alone.
`tagsAt` says what that is, and `Session.Placed` that it is so, sample by sample.

## Burst ends that are known of late

Symbols that were extended before the inlet of burst ends was connected have taken no burst end. The
ends that arrive are those of the symbols behind them, as if each of them had brought a zero. So the
invariant is about `Session.known`, the ends with these zeros in front, and holds of every session.
If the inlet is connected before the first call of work, or never, there are none, which is what
`timely` is for.

## Main definitions

* `tagsAt` — the tags on a sample of the output
* `Session.Placed` — the invariant
* `timely` — no call of work comes before the burst ends, if there will be any

## Main results

* `tagsAt_add` — a call of work adds the tags of its symbols
* `Session.exists_placed` — every session keeps the invariant
* `Session.level_of_timely` — burst ends in time are read together with their symbols
* `Session.run_computes_extensions` — what has been put out, as a function of what was taken in
-/

namespace OfdmBurst

namespace CyclicPrefixer

variable {α τ : Type}

/-- Whether a byte is the end of a burst. -/
def endsBurst (byte : UInt8) : Bool := byte &&& 1 != 0

/-- The mark of a burst that ends with sample `k`. -/
def endMark (source : String) (k : Nat) : Tag τ :=
  { index := k, key := Tag.txEnd, value := .flag, source := some source }

/-- The tags on sample `k`, once the first `n` symbols have become `size` samples each. The tags of
a symbol are on its first sample and the mark of its end is on its last one, which may be the
same. -/
def tagsAt (size : Nat) (source : String) (tags : List (Tag τ)) (ends : List UInt8) (n k : Nat) :
    List (Tag τ) :=
  if k / size < n then
    (if k % size = 0 then (tags.filter (·.index == k / size)).map (Tag.scaled size) else []) ++
      if k % size + 1 = size ∧ ends[k / size]?.any endsBurst then [endMark source k] else []
  else []

section Samples

variable {size : Nat} {source : String} {tags tags' : List (Tag τ)} {ends ends' : List UInt8}

/-- Only the tags and the ends of the symbols that were extended matter. -/
theorem tagsAt_congr {n : Nat}
    (htags : tags.filter (·.index < n) = tags'.filter (·.index < n))
    (hends : ∀ i < n, ends[i]?.any endsBurst = ends'[i]?.any endsBurst) (k : Nat) :
    tagsAt size source tags ends n k = tagsAt size source tags' ends' n k := by
  rw [tagsAt, tagsAt]
  split
  next hk =>
    have honItem : ∀ tags : List (Tag τ), tags.filter (·.index == k / size) =
        (tags.filter (·.index < n)).filter (·.index == k / size) := by
      intro tags
      rw [List.filter_filter]
      refine List.filter_congr fun t _ => ?_
      by_cases ht : t.index = k / size
      · simp [ht, hk]
      · simp [ht]
    rw [honItem tags, honItem tags', htags, hends _ hk]
  next => rfl

/-- Of the tags on the first samples, those on sample `k` are those of its symbol. -/
theorem filter_scaled (hsize : 0 < size) (tags : List (Tag τ)) (k : Nat) :
    (tags.map (Tag.scaled size)).filter (·.index == k) =
      if k % size = 0 then (tags.filter (·.index == k / size)).map (Tag.scaled size) else [] := by
  have hplace : ∀ t : Tag τ, t.index * size = k ↔ k % size = 0 ∧ t.index = k / size := by
    intro t
    constructor
    · rintro rfl
      exact ⟨Nat.mul_mod_left _ _, (Nat.mul_div_cancel _ hsize).symm⟩
    · rintro ⟨hfirst, ht⟩
      rw [ht]
      exact Nat.div_mul_cancel (Nat.dvd_of_mod_eq_zero hfirst)
  rw [List.filter_map]
  split
  next hfirst =>
    congr 1
    refine List.filter_congr fun t _ => ?_
    show (t.index * size == k) = (t.index == k / size)
    rw [Bool.eq_iff_iff, beq_iff_eq, beq_iff_eq, hplace]
    exact and_iff_right hfirst
  next hfirst =>
    rw [List.map_eq_nil_iff]
    refine List.filter_eq_nil_iff.2 fun t _ ht => hfirst ?_
    exact ((hplace t).1 (beq_iff_eq.1 ht)).1

/-- The last sample of a symbol, by its place in the output. -/
theorem last_eq_iff (hsize : 0 < size) (index k : Nat) :
    (index + 1) * size - 1 = k ↔ k % size + 1 = size ∧ index = k / size := by
  have hdiv := Nat.div_add_mod k size
  have hlast : (index + 1) * size = index * size + size := Nat.succ_mul index size
  rw [Nat.mul_comm size] at hdiv
  constructor
  · intro hk
    have hplace : k = (size - 1) + index * size := by omega
    have hmod : k % size = size - 1 := by
      rw [hplace, Nat.add_mul_mod_self_right, Nat.mod_eq_of_lt (by omega)]
    refine ⟨by omega, ?_⟩
    rw [hplace, Nat.add_mul_div_right _ _ hsize, Nat.div_eq_of_lt (by omega), Nat.zero_add]
  · rintro ⟨hmod, rfl⟩
    omega

/-- Of the marks of burst ends, there is one on sample `k` if it is the last one of a symbol that
ends a burst. -/
theorem filter_endMarks (hsize : 0 < size) (index k : Nat) (ends : List UInt8) :
    (endMarks (τ := τ) size source index ends).filter (·.index == k) =
      if k % size + 1 = size ∧ index ≤ k / size ∧ ends[k / size - index]?.any endsBurst then
        [endMark source k] else [] := by
  induction ends generalizing index with
  | nil => simp [endMarks]
  | cons byte rest ih =>
    have hcons : endMarks (τ := τ) size source index (byte :: rest) =
        endMarks size source index [byte] ++ endMarks size source (index + 1) rest :=
      endMarks_append size source index [byte] rest
    have hone : (endMarks (τ := τ) size source index [byte]).filter (·.index == k) =
        if (k % size + 1 = size ∧ index = k / size) ∧ endsBurst byte then
          [endMark source k] else [] := by
      have hset : (byte &&& 1 != 0) = endsBurst byte := rfl
      simp only [← last_eq_iff hsize, endMarks, List.zipIdx_singleton, List.filter_cons, hset]
      by_cases hbyte : endsBurst byte
      · by_cases hk : (index + 1) * size - 1 = k
        · simp [hbyte, hk, endMark]
        · simp [hbyte, hk]
      · simp [hbyte]
    rw [hcons, List.filter_append, ih, hone]
    by_cases hlast : k % size + 1 = size
    · -- the sample belongs to this symbol, to an earlier one or to a later one
      rcases Nat.lt_trichotomy index (k / size) with hlt | heq | hgt
      · have hnext : k / size - index = (k / size - (index + 1)) + 1 := by omega
        simp [hlast, Nat.ne_of_lt hlt, Nat.le_of_lt hlt, Nat.succ_le_of_lt hlt, hnext]
      · subst heq
        have hnext : ¬ k / size + 1 ≤ k / size := Nat.not_succ_le_self _
        simp [hlast, hnext]
      · simp [hlast, Nat.ne_of_gt hgt, Nat.not_le.2 hgt, Nat.not_le.2 (Nat.lt_succ_of_lt hgt)]
    · simp [hlast]

/-- **With every further symbol, its tags and the mark of its end are added** to those on its
samples, and nothing changes on the other samples. -/
theorem tagsAt_add (hsize : 0 < size) (n m k : Nat) :
    tagsAt size source tags ends (n + m) k =
      tagsAt size source tags ends n k ++
        ((tags.filter fun t : Tag τ => t.index < n + m && n ≤ t.index).map (Tag.scaled size) ++
          endMarks size source n ((ends.drop n).take m)).filter (·.index == k) := by
  have honItem : (tags.filter fun t => t.index < n + m && n ≤ t.index).filter
        (·.index == k / size) =
      if n ≤ k / size ∧ k / size < n + m then tags.filter (·.index == k / size) else [] := by
    rw [List.filter_filter]
    split
    next hk =>
      refine List.filter_congr fun t _ => ?_
      by_cases ht : t.index = k / size
      · simp [ht, hk]
      · simp [ht]
    next hk =>
      refine List.filter_eq_nil_iff.2 fun t _ ht => hk ?_
      simp only [Bool.and_eq_true, beq_iff_eq, decide_eq_true_eq] at ht
      omega
  rw [List.filter_append, filter_scaled hsize, honItem, filter_endMarks hsize, tagsAt, tagsAt]
  rcases Nat.lt_or_ge (k / size) n with hold | hnew
  · have hmore : k / size < n + m := Nat.lt_add_right m hold
    simp [hold, hmore, Nat.not_le.2 hold]
  · by_cases hm : k / size < n + m
    · have hplace : ((ends.drop n).take m)[k / size - n]? = ends[k / size]? := by
        rw [List.getElem?_take_of_lt (by omega), List.getElem?_drop, Nat.add_sub_cancel' hnew]
      simp [hm, hnew, Nat.not_lt.2 hnew, hplace]
    · have hnone : ((ends.drop n).take m)[k / size - n]? = none := by
        rw [List.getElem?_eq_none_iff, List.length_take]
        omega
      simp [hm, Nat.not_lt.2 hnew, hnone]

end Samples

/-! ### The invariant -/

namespace Session

/-- The burst ends by symbol: those that have arrived, behind a zero for every symbol that was
extended without one. -/
def known (s : Session α τ) : List UInt8 :=
  List.replicate (s.prefixer.input.read - s.prefixer.ends.read) 0 ++ s.ends.data

/-- **The invariant of the tags.** An inlet of burst ends that is not connected has brought none,
and on every sample of the output are the tags that belong there. -/
structure Placed (made : CyclicPrefixer α τ) (s : Session α τ) : Prop where
  /-- What is not connected has brought nothing. -/
  idle : s.prefixer.ends.connected = false → s.ends.data = []
  /-- The tags on a sample are those of its symbol if it is the first, and the mark if the last. -/
  tags_at : ∀ k, (s.prefixer.output.total s.output).tags.filter (·.index == k) =
    tagsAt made.outputSize s.source s.input.tags s.known s.prefixer.input.read k

variable {made : CyclicPrefixer α τ} {s t : Session α τ}

theorem Sound.ends_read_le (h : s.Sound made) : s.prefixer.ends.read ≤ s.ends.data.length := by
  have hle := h.ends.read_le
  rwa [h.ends_width, Nat.mul_one] at hle

/-- A push to the inlet of burst ends connects it. -/
theorem Sound.connected_meet (h : s.Sound made) {p : Inlet UInt8 τ} {r : Record UInt8 τ}
    {e : Inlet.Event UInt8 τ} (he : s.prefixer.ends.meet s.ends e = .ok (p, r)) :
    (p.connected = s.prefixer.ends.connected ∧ r = s.ends ∧ e = .close) ∨
      (p.connected = true ∧ ∃ data tags, e = .push data tags ∧ r = s.ends.append 1 data tags) := by
  cases e with
  | close =>
    cases he
    exact .inl ⟨rfl, rfl, rfl⟩
  | push data tags =>
    simp only [Inlet.meet] at he
    split at he
    next hp =>
      cases he
      obtain ⟨-, rfl⟩ := Inlet.push_eq_ok hp
      exact .inr ⟨rfl, data, tags, rfl, by rw [h.ends_width]⟩
    next hp =>
      -- single bytes always make up whole items
      have hwhole : data.length % s.prefixer.ends.width = 0 := by rw [h.ends_width, Nat.mod_one]
      rw [Inlet.push, if_neg (not_not_intro hwhole)] at hp
      split at hp <;> cases hp
    · cases he

namespace Placed

theorem feedInput (h : s.Placed made) (hsound : s.Sound made) {p : Inlet α τ} {r : Record α τ}
    {e : Inlet.Event α τ} (he : s.prefixer.input.meet s.input e = .ok (p, r)) :
    ({ s with prefixer := { s.prefixer with input := p }, input := r } : Session α τ).Placed made := by
  obtain ⟨-, -, hread, -⟩ := hsound.input.meet he
  refine ⟨h.idle, fun k => ?_⟩
  simp only [known, hread]
  rw [h.tags_at k, known]
  exact tagsAt_congr (hsound.input.consumed_tags he).symm (fun i _ => rfl) k

theorem feedEnds (h : s.Placed made) (hsound : s.Sound made) (hmarked : s.Marked made)
    {p : Inlet UInt8 τ} {r : Record UInt8 τ} {e : Inlet.Event UInt8 τ}
    (he : s.prefixer.ends.meet s.ends e = .ok (p, r)) :
    ({ s with prefixer := { s.prefixer with ends := p }, ends := r } : Session α τ).Placed made := by
  obtain ⟨-, -, hread, -⟩ := hsound.ends.meet he
  have hbehind := hmarked.behind
  have hle := hsound.ends_read_le
  rcases hsound.connected_meet he with ⟨hsame, rfl, -⟩ | ⟨hyes, data, tags, -, rfl⟩
  · refine ⟨fun hno => h.idle (hsame ▸ hno), fun k => ?_⟩
    simp only [known, hread]
    exact h.tags_at k
  · refine ⟨fun hno => absurd hyes (hno ▸ Bool.false_ne_true), fun k => ?_⟩
    simp only [known, hread, Record.append]
    rw [h.tags_at k, known]
    refine tagsAt_congr rfl (fun i hi => ?_) k
    have hplace : i < (List.replicate (s.prefixer.input.read - s.prefixer.ends.read) (0 : UInt8) ++
        s.ends.data).length := by
      rw [List.length_append, List.length_replicate]
      omega
    rw [← List.append_assoc, List.getElem?_append_left hplace]

theorem readOutput (h : s.Placed made) (hsound : s.Sound made) {p : Outlet α τ} {r : Record α τ}
    {e : Outlet.Event} (he : s.prefixer.output.meet s.output e = .ok (p, r)) :
    ({ s with prefixer := { s.prefixer with output := p }, output := r } : Session α τ).Placed
      made := by
  obtain ⟨-, -, htotal⟩ := hsound.output.meet he
  exact ⟨h.idle, fun k => htotal ▸ h.tags_at k⟩

/-- The ends that a call of work reads are those of the symbols that it takes. If it reads none,
then that is as if none of these symbols ended a burst. -/
theorem ends_of_work (h : s.Placed made) (hsound : s.Sound made) (hmarked : s.Marked made)
    (hfits : made.prefixLength ≤ made.inputSize) {ends : Inlet UInt8 τ}
    (hends : (if s.prefixer.ends.connected then s.prefixer.ends.consume s.prefixer.ready
      else .ok s.prefixer.ends) = .ok ends) :
    ∃ known, known = List.replicate
          (s.prefixer.input.read + s.prefixer.ready - ends.read) 0 ++ s.ends.data ∧
      ends.connected = s.prefixer.ends.connected ∧
      (∀ i < s.prefixer.input.read, known[i]?.any endsBurst = s.known[i]?.any endsBurst) ∧
      s.prefixer.marks s.source s.prefixer.ready = endMarks made.outputSize s.source
        s.prefixer.input.read ((known.drop s.prefixer.input.read).take s.prefixer.ready) := by
  have hbehind := hmarked.behind
  have hwritten := hsound.written_eq hfits
  rw [← hsound.outputSize_eq] at hwritten
  refine ⟨_, rfl, ?_⟩
  split at hends
  next hconnected =>
    have hread := (Inlet.consume_frame hends).2
    have hlate : s.prefixer.input.read + s.prefixer.ready - ends.read =
        s.prefixer.input.read - s.prefixer.ends.read := by omega
    refine ⟨Inlet.connected_consume hends, fun i _ => by rw [known, hlate], ?_⟩
    have hdrop : (List.replicate (s.prefixer.input.read - s.prefixer.ends.read) (0 : UInt8) ++
        s.ends.data).drop s.prefixer.input.read = s.ends.data.drop s.prefixer.ends.read := by
      rw [List.drop_append, List.length_replicate, List.drop_eq_nil_of_le
        (by rw [List.length_replicate]; exact Nat.sub_le _ _), List.nil_append,
        Nat.sub_sub_self hbehind]
    rw [hlate, hdrop, marks, if_pos hconnected, endTags_eq hwritten, hsound.outputSize_eq,
      Inlet.front, hsound.ends.buffer, hsound.ends_width, Nat.mul_one, Nat.mul_one]
  next hconnected =>
    cases hends
    have hnone := h.idle (Bool.eq_false_iff.2 hconnected)
    have hread : s.prefixer.ends.read = 0 := by
      have hle := hsound.ends_read_le
      rwa [hnone, List.length_nil, Nat.le_zero] at hle
    refine ⟨rfl, fun i hi => ?_, ?_⟩
    · rw [known, hnone, hread, List.append_nil, List.append_nil, List.getElem?_replicate_of_lt
        (by omega), List.getElem?_replicate_of_lt (by omega)]
    · rw [hnone, hread, List.append_nil, List.drop_replicate, List.take_replicate,
        endMarks_replicate_zero, marks, if_neg hconnected]

/-- **A call of work places the tags of the symbols it extends.** -/
theorem work [Inhabited α] (h : s.Placed made) (hsound : s.Sound made) (hmarked : s.Marked made)
    (hfits : made.prefixLength ≤ made.inputSize) {d : CyclicPrefixer α τ} {finished : Bool}
    (hwork : s.prefixer.work s.source = .ok (d, finished)) :
    ({ s with prefixer := d } : Session α τ).Placed made := by
  obtain ⟨symbols, samples, output, input, ends, -, -, houtput, hinput, hends, rfl, -⟩ :=
    work_eq_ok_iff.1 hwork
  have hread := (Inlet.consume_frame hinput).2
  obtain ⟨known, hknown, hconnected, hsame, hmarks⟩ := h.ends_of_work hsound hmarked hfits hends
  refine ⟨fun hno => h.idle (hconnected ▸ hno), fun k => ?_⟩
  simp only [Session.known, hread]
  rw [← hknown, Outlet.tags_total_put houtput, List.filter_append, h.tags_at k,
    tagsAt_add made.outputSize_pos, hsound.movedTags_eq hfits, hmarks]
  congr 1
  exact tagsAt_congr rfl (fun i hi => (hsame i hi).symm) k

end Placed

/-- **Every session keeps the invariant of the tags**, whatever its events. -/
theorem exists_placed [Inhabited α] {inputSize outputSize : Nat}
    (h : ofSizes inputSize outputSize = .ok made) (hfits : outputSize ≤ 2 * inputSize)
    {source : String} {events : List (Event α τ)}
    (hrun : (start made source).run events = .ok s) : s.Placed made := by
  have hshort := (exists_sound h hfits hrun).2
  have hstart : (start made source).Placed made := by
    rw [ofSizes] at h
    split at h
    · cases h
      exact ⟨fun _ => rfl, fun k => by simp [start, tagsAt, Outlet.total, Outlet.scalar,
        AppendList.empty, Inlet.scalar]⟩
    · cases h
  refine (run_induct (P := fun s => s.Sound made ∧ s.Marked made ∧ s.Placed made) ?_ ?_ ?_ ?_
    ⟨(sound_start h source).1, marked_start h source, hstart⟩ hrun).2.2
  · rintro s p r e ⟨hsound, hmarked, h⟩ hmeet
    exact ⟨hsound.feedInput hmeet, hmarked.feedInput hsound hmeet, h.feedInput hsound hmeet⟩
  · rintro s p r e ⟨hsound, hmarked, h⟩ hmeet
    exact ⟨hsound.feedEnds hmeet, hmarked.feedEnds hsound hmeet, h.feedEnds hsound hmarked hmeet⟩
  · rintro s p r e ⟨hsound, hmarked, h⟩ hmeet
    exact ⟨hsound.readOutput hmeet, hmarked.readOutput hsound hmeet, h.readOutput hsound hmeet⟩
  · rintro s d finished ⟨hsound, hmarked, h⟩ hwork
    exact ⟨hsound.work hshort hwork, hmarked.work hsound hshort hwork,
      h.work hsound hmarked hshort hwork⟩

/-! ### Burst ends in time -/

end Session

/-- Whether an event connects the inlet of burst ends. -/
def Event.connects : Event α τ → Bool
  | .ends (.push _ _) => true
  | _ => false

/-- Whether an event is a call of work. -/
def Event.isWork : Event α τ → Bool
  | .work => true
  | _ => false

/-- The inlet of burst ends is never connected, or it is before the first call of work. -/
def timely (events : List (Event α τ)) : Bool :=
  !events.any Event.connects || (events.takeWhile fun e => !e.isWork).any Event.connects

namespace Session

section Timely

variable [Inhabited α] {made : CyclicPrefixer α τ} {s t : Session α τ}

theorem Sound.act (h : s.Sound made) (hfits : made.prefixLength ≤ made.inputSize)
    {e : Event α τ} (he : s.act e = .ok t) : t.Sound made := by
  cases e with
  | input e =>
    obtain ⟨⟨p, r⟩, hmeet, rfl⟩ := Fault.exists_of_bind_pure he
    exact h.feedInput hmeet
  | ends e =>
    obtain ⟨⟨p, r⟩, hmeet, rfl⟩ := Fault.exists_of_bind_pure he
    exact h.feedEnds hmeet
  | output e =>
    obtain ⟨⟨p, r⟩, hmeet, rfl⟩ := Fault.exists_of_bind_pure he
    exact h.readOutput hmeet
  | work =>
    obtain ⟨⟨d, finished⟩, hwork, rfl⟩ := Fault.exists_of_bind_pure he
    exact h.work hfits hwork

/-- **An event connects the inlet of burst ends if it pushes to it**, and a call of work is the only
one that reads. With the inlet connected, it reads both inlets equally far. -/
theorem Sound.ends_act (h : s.Sound made) {e : Event α τ} (he : s.act e = .ok t) :
    t.prefixer.ends.connected = (s.prefixer.ends.connected || e.connects) ∧
      ((e.isWork = true → s.prefixer.ends.connected = true) →
        s.prefixer.ends.read = s.prefixer.input.read →
          t.prefixer.ends.read = t.prefixer.input.read) := by
  cases e with
  | input e =>
    obtain ⟨⟨p, r⟩, hmeet, rfl⟩ := Fault.exists_of_bind_pure he
    obtain ⟨-, -, hread, -⟩ := h.input.meet hmeet
    exact ⟨(Bool.or_false _).symm, fun _ hlevel => hlevel.trans hread.symm⟩
  | ends e =>
    obtain ⟨⟨p, r⟩, hmeet, rfl⟩ := Fault.exists_of_bind_pure he
    obtain ⟨-, -, hread, -⟩ := h.ends.meet hmeet
    refine ⟨?_, fun _ hlevel => hread.trans hlevel⟩
    rcases h.connected_meet hmeet with ⟨hsame, -, rfl⟩ | ⟨hyes, data, tags, rfl, -⟩
    · exact hsame.trans (Bool.or_false _).symm
    · exact hyes.trans (Bool.or_true _).symm
  | output e =>
    obtain ⟨⟨p, r⟩, hmeet, rfl⟩ := Fault.exists_of_bind_pure he
    exact ⟨(Bool.or_false _).symm, fun _ hlevel => hlevel⟩
  | work =>
    obtain ⟨⟨d, finished⟩, hwork, rfl⟩ := Fault.exists_of_bind_pure he
    obtain ⟨symbols, samples, output, input, ends, -, -, -, hinput, hends, rfl, -⟩ :=
      work_eq_ok_iff.1 hwork
    constructor
    · split at hends
      · exact (Inlet.connected_consume hends).trans (Bool.or_false _).symm
      · cases hends
        exact (Bool.or_false _).symm
    · intro hconnected hlevel
      rw [if_pos (hconnected rfl)] at hends
      show ends.read = input.read
      rw [(Inlet.consume_frame hends).2, (Inlet.consume_frame hinput).2, hlevel]

/-- The inlet of burst ends is connected in the end if it was, or if anything was pushed to it. -/
theorem Sound.connected_run (h : s.Sound made) (hfits : made.prefixLength ≤ made.inputSize)
    {events : List (Event α τ)} (hrun : s.run events = .ok t) :
    t.prefixer.ends.connected = (s.prefixer.ends.connected || events.any Event.connects) := by
  induction events generalizing s with
  | nil =>
    cases hrun
    exact (Bool.or_false _).symm
  | cons e rest ih =>
    rw [run, List.foldlM_cons, Fault.bind_eq_ok_iff] at hrun
    obtain ⟨u, hu, hrest⟩ := hrun
    rw [ih (h.act hfits hu) hrest, (h.ends_act hu).1, List.any_cons, Bool.or_assoc]

/-- If the inlet of burst ends is connected before the first call of work, both inlets are always
read equally far. -/
theorem Sound.level_run (h : s.Sound made) (hfits : made.prefixLength ≤ made.inputSize)
    {events : List (Event α τ)} (hlevel : s.prefixer.ends.read = s.prefixer.input.read)
    (htimely : s.prefixer.ends.connected = true ∨
      (events.takeWhile fun e => !e.isWork).any Event.connects = true)
    (hrun : s.run events = .ok t) : t.prefixer.ends.read = t.prefixer.input.read := by
  induction events generalizing s with
  | nil =>
    cases hrun
    exact hlevel
  | cons e rest ih =>
    rw [run, List.foldlM_cons, Fault.bind_eq_ok_iff] at hrun
    obtain ⟨u, hu, hrest⟩ := hrun
    obtain ⟨hconnected, hread⟩ := h.ends_act hu
    by_cases hwork : e.isWork = true
    · -- nothing is pushed before a call of work that comes first
      have hyes : s.prefixer.ends.connected = true := by
        rcases htimely with hyes | hnone
        · exact hyes
        · rw [List.takeWhile_cons_of_neg (by rw [hwork]; decide)] at hnone
          cases hnone
      exact ih (h.act hfits hu) (hread (fun _ => hyes) hlevel)
        (.inl (by rw [hconnected, hyes, Bool.true_or])) hrest
    · refine ih (h.act hfits hu) (hread (fun hyes => absurd hyes hwork) hlevel) ?_ hrest
      rw [List.takeWhile_cons_of_pos (by rw [Bool.eq_false_iff.2 hwork]; rfl), List.any_cons,
        Bool.or_eq_true] at htimely
      rw [hconnected, Bool.or_eq_true, or_assoc]
      exact htimely

/-- **Burst ends in time are read together with their symbols**, if there are any. -/
theorem level_of_timely {inputSize outputSize : Nat}
    (h : ofSizes inputSize outputSize = .ok made) (hfits : outputSize ≤ 2 * inputSize)
    {source : String} {events : List (Event α τ)} (htimely : timely events = true)
    (hrun : (start made source).run events = .ok s) :
    s.prefixer.ends.connected = false ∨ s.prefixer.ends.read = s.prefixer.input.read := by
  obtain ⟨hstart, -, -⟩ := sound_start h source
  have hshort := (exists_sound h hfits hrun).2
  have hfresh : made.ends.connected = false ∧ made.ends.read = made.input.read := by
    rw [ofSizes] at h
    split at h
    · cases h
      exact ⟨rfl, rfl⟩
    · cases h
  rw [timely, Bool.or_eq_true, Bool.not_eq_true'] at htimely
  rcases htimely with hnever | hfirst
  · refine .inl ?_
    rw [hstart.connected_run hshort hrun, hnever, Bool.or_false]
    exact hfresh.1
  · exact .inr (hstart.level_run hshort hfresh.2 (.inr hfirst) hrun)

/-- **What a prefixer has put out is a function of what it has taken in**, however it is fed, read
and called, as long as the burst ends come in time. The samples are the extensions of the symbols
taken. On every sample are the tags that belong there, in their order. A call of work returns, and
it is the last one only if no symbol is left and none will come. -/
theorem run_computes_extensions {inputSize outputSize : Nat}
    (h : ofSizes inputSize outputSize = .ok made) (hfits : outputSize ≤ 2 * inputSize)
    {source : String} {events : List (Event α τ)} (htimely : timely events = true)
    (hrun : (start made source).run events = .ok s) :
    (s.prefixer.output.total s.output).data =
        (s.input.firstItems inputSize s.prefixer.input.read).flatMap
          (extension (outputSize - inputSize)) ∧
      (∀ k, (s.prefixer.output.total s.output).tags.filter (·.index == k) =
        tagsAt outputSize source s.input.tags s.ends.data s.prefixer.input.read k) ∧
      ∃ d finished, s.prefixer.work source = .ok (d, finished) ∧
        (finished = true ↔ d.input.closed = true ∧ d.input.items = 0) := by
  obtain ⟨hsound, hshort⟩ := exists_sound h hfits hrun
  obtain ⟨-, hinput, houtput⟩ := sound_start h source
  have hsource : s.source = source := source_run hrun
  have hplaced := exists_placed h hfits hrun
  have hlength : made.prefixLength = outputSize - inputSize := by
    rw [prefixLength, hinput, houtput]
  refine ⟨?_, fun k => ?_, ?_⟩
  · rw [hsound.data_eq, hinput, hlength]
  · rw [hplaced.tags_at k, hsource, houtput]
    refine tagsAt_congr rfl (fun i hi => ?_) k
    rcases level_of_timely h hfits htimely hrun with hno | hlevel
    · -- a symbol without a burst end is not marked
      have hnone := hplaced.idle hno
      rw [known, hnone, List.append_nil, List.getElem?_replicate, List.getElem?_nil]
      split <;> rfl
    · rw [known, hlevel, Nat.sub_self, List.replicate_zero, List.nil_append]
  · obtain ⟨d, finished, hwork, -⟩ := hsound.work_returns hshort
    obtain ⟨symbols, samples, output, input, ends, -, -, -, -, -, rfl, rfl⟩ :=
      work_eq_ok_iff.1 hwork
    rw [hsource] at hwork
    exact ⟨_, _, hwork, by rw [Bool.and_eq_true, beq_iff_eq]⟩

/-- Two symbols with room for one at a time, the first of which ends a burst. -/
def oneByOne : List (Event Nat Nat) :=
  [.ends (.push [1, 0] []), .input (.push [1, 2] []), .output (.reserve 4), .work,
    .input (.push [3, 4] [{ index := 0, key := Tag.txTime, value := .time ⟨3, 0⟩ }]), .work,
    .output .take, .work]

theorem run_computes_extensions_one_by_one :
    ∃ (made : CyclicPrefixer Nat Nat) (s : Session Nat Nat), ofSizes 2 3 = .ok made ∧
      (start made "prefixer").run oneByOne = .ok s ∧
      (s.prefixer.output.total s.output).data = [2, 1, 2, 4, 3, 4] ∧
      (s.prefixer.output.total s.output).tags.filter (·.index == 2) = [endMark "prefixer" 2] ∧
      (s.prefixer.output.total s.output).tags.filter (·.index == 3) =
        [{ index := 3, key := Tag.txTime, value := .time ⟨3, 0⟩ }] := by
  obtain ⟨made, hmade, h⟩ := Fault.exists_ok_of_any (x := ofSizes 2 3)
    (p := fun made : CyclicPrefixer Nat Nat =>
      ((start made "prefixer").run oneByOne).toOption.any fun s : Session Nat Nat => decide
        (s.input = ⟨[1, 2, 3, 4], [{ index := 1, key := Tag.txTime, value := .time ⟨3, 0⟩ }]⟩ ∧
          s.ends.data = [1, 0] ∧ s.prefixer.input.read = 2))
    (by decide +kernel)
  obtain ⟨s, hs, h⟩ := Fault.exists_ok_of_any h
  obtain ⟨hinput, hends, hread⟩ := of_decide_eq_true h
  obtain ⟨hdata, htags, -⟩ := run_computes_extensions hmade (by decide) (by decide) hs
  rw [hinput, hread] at hdata htags
  rw [hends] at htags
  refine ⟨made, s, hmade, hs, hdata, ?_, ?_⟩
  · rw [htags 2]
    decide
  · rw [htags 3]
    decide

end Timely

end Session

end CyclicPrefixer

end OfdmBurst
