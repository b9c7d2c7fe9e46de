import Mathlib.Data.List.Perm.Basic
import OfdmBurst.Proofs.CyclicPrefixer.Emission

/-!
# The marks of burst ends

`Session.Sound` leaves the marks of burst ends out, because they depend on when the inlet of burst
ends was connected. Symbols that are extended before that have none, and from then on the ends that
arrive are those of the next symbols.

An inlet of burst ends that has always been connected has been read as far as the inlet of symbols.
Once it is behind, it stays behind. So it need not be asked when the inlet was connected: if both
have been read equally far in the end, every symbol has been extended with its own burst end, and the
tags on the samples are those of the symbols and the marks of the ends. That is `Session.Marked`.

## Main definitions

* `endMarks` — the marks of some burst ends
* `Session.Marked` — the invariant

## Main results

* `Session.Marked.work` — a call of work keeps the invariant
* `Session.exists_marked` — every session satisfies it
* `Session.Marked.tags_of_drained` — the tags of a session that has consumed everything
-/

namespace OfdmBurst

namespace CyclicPrefixer

variable {α τ : Type}

/-- The marks of burst ends, where the first one is that of symbol `index` and every symbol has
become `size` samples. A mark is on the last of them. -/
def endMarks (size : Nat) (source : String) (index : Nat) (ends : List UInt8) : List (Tag τ) :=
  ((ends.zipIdx index).filter fun p => p.1 &&& 1 != 0).map fun p =>
    { index := (p.2 + 1) * size - 1, key := Tag.txEnd, value := .flag, source := some source }

theorem endMarks_append (size : Nat) (source : String) (index : Nat) (xs ys : List UInt8) :
    endMarks (τ := τ) size source index (xs ++ ys) =
      endMarks size source index xs ++ endMarks size source (index + xs.length) ys := by
  rw [endMarks, List.zipIdx_append, List.filter_append, List.map_append]
  rfl

/-- Symbols that end no burst are not marked. -/
theorem endMarks_replicate_zero (size : Nat) (source : String) (index n : Nat) :
    endMarks (τ := τ) size source index (List.replicate n 0) = [] := by
  rw [endMarks, List.map_eq_nil_iff]
  refine List.filter_eq_nil_iff.2 fun p hp => ?_
  have hzero := List.eq_of_mem_replicate (List.fst_mem_of_mem_zipIdx hp)
  rw [hzero]
  decide

theorem endMarks_singleton_one (size : Nat) (source : String) (index : Nat) :
    endMarks (τ := τ) size source index [1] =
      [{ index := (index + 1) * size - 1, key := Tag.txEnd, value := .flag,
         source := some source }] := by
  have hset : ((1 : UInt8) &&& 1 != 0) = true := by decide
  simp only [endMarks, List.zipIdx_singleton, List.filter_cons, hset, ↓reduceIte, List.filter_nil,
    List.map_singleton]

/-- The marks that a call of work makes. -/
theorem endTags_eq {b : CyclicPrefixer α τ} {read : Nat}
    (hwritten : b.output.written = read * b.outputSize) (source : String) (n : Nat) :
    b.endTags source n = endMarks b.outputSize source read (b.ends.front n) := by
  rw [endTags, endMarks, List.zipIdx_eq_map_add (i := read), List.filter_map, List.map_map]
  refine List.map_congr_left fun p _ => ?_
  have hplace : b.output.written + (p.2 + 1) * b.outputSize = (read + p.2 + 1) * b.outputSize := by
    rw [hwritten, ← Nat.add_mul, Nat.add_assoc]
  simp only [Function.comp_apply, hplace]

namespace Session

/-- **The invariant of the marks.** The burst ends have not been read further than the symbols. If
they have been read as far, the tags on the samples are those of the symbols and the marks. -/
structure Marked (made : CyclicPrefixer α τ) (s : Session α τ) : Prop where
  /-- No burst end is read in front of its symbol. -/
  behind : s.prefixer.ends.read ≤ s.prefixer.input.read
  /-- If all are read, the tags are those of the symbols, and a mark for each end. -/
  tags_perm : s.prefixer.ends.read = s.prefixer.input.read →
    (s.prefixer.output.total s.output).tags.Perm
      ((s.input.tags.filter (·.index < s.prefixer.input.read)).map (Tag.scaled made.outputSize) ++
        endMarks made.outputSize s.source 0 (s.ends.data.take s.prefixer.ends.read))

variable {made : CyclicPrefixer α τ} {s : Session α τ}

namespace Marked

theorem feedInput (h : s.Marked made) (hsound : s.Sound made) {p : Inlet α τ} {r : Record α τ}
    {e : Inlet.Event α τ} (he : s.prefixer.input.meet s.input e = .ok (p, r)) :
    ({ s with prefixer := { s.prefixer with input := p }, input := r } : Session α τ).Marked made := by
  obtain ⟨-, -, hread, -⟩ := hsound.input.meet he
  refine ⟨hread.symm ▸ h.behind, fun heq => ?_⟩
  simp only [hread] at heq ⊢
  rw [hsound.input.consumed_tags he]
  exact h.tags_perm heq

theorem feedEnds (h : s.Marked made) (hsound : s.Sound made) {p : Inlet UInt8 τ}
    {r : Record UInt8 τ} {e : Inlet.Event UInt8 τ}
    (he : s.prefixer.ends.meet s.ends e = .ok (p, r)) :
    ({ s with prefixer := { s.prefixer with ends := p }, ends := r } : Session α τ).Marked made := by
  obtain ⟨-, -, hread, hrecord⟩ := hsound.ends.meet he
  have hold : r.data.take s.prefixer.ends.read = s.ends.data.take s.prefixer.ends.read := by
    rcases hrecord with rfl | ⟨data, tags, -, rfl⟩
    · rfl
    · have hle := hsound.ends.read_le
      rw [hsound.ends_width, Nat.mul_one] at hle
      rw [Record.append, List.take_append_of_le_length hle]
  refine ⟨hread ▸ h.behind, fun heq => ?_⟩
  simp only [hread] at heq ⊢
  rw [hold]
  exact h.tags_perm heq

theorem readOutput (h : s.Marked made) (hsound : s.Sound made) {p : Outlet α τ} {r : Record α τ}
    {e : Outlet.Event} (he : s.prefixer.output.meet s.output e = .ok (p, r)) :
    ({ s with prefixer := { s.prefixer with output := p }, output := r } : Session α τ).Marked
      made := by
  obtain ⟨-, -, htotal⟩ := hsound.output.meet he
  exact ⟨h.behind, fun heq => htotal ▸ h.tags_perm heq⟩

/-- Tags before an item, and then up to a later one, are those before the later one. -/
theorem filter_lt_perm (tags : List (Tag τ)) (n k : Nat) :
    (tags.filter (·.index < n) ++ tags.filter fun t => t.index < n + k && n ≤ t.index).Perm
      (tags.filter (·.index < n + k)) := by
  have hfirst : tags.filter (·.index < n) = (tags.filter (·.index < n + k)).filter (·.index < n) := by
    rw [List.filter_filter]
    refine List.filter_congr fun t _ => ?_
    by_cases ht : t.index < n
    · simp [ht, Nat.lt_add_right k ht]
    · simp [ht]
  have hlater : (tags.filter fun t => t.index < n + k && n ≤ t.index) =
      (tags.filter (·.index < n + k)).filter fun t => !decide (t.index < n) := by
    rw [List.filter_filter]
    refine List.filter_congr fun t _ => ?_
    rw [Bool.and_comm, ← decide_not, decide_eq_decide.2 Nat.not_lt]
  rw [hfirst, hlater]
  exact List.filter_append_perm _ _

/-- A call of work marks the burst ends that it reads. If the inlet is not connected, it reads none
and makes no marks. -/
theorem ends_of_work (hsound : s.Sound made) (hfits : made.prefixLength ≤ made.inputSize)
    {ends : Inlet UInt8 τ} (h : (if s.prefixer.ends.connected then
      s.prefixer.ends.consume s.prefixer.ready else .ok s.prefixer.ends) = .ok ends) :
    ends.read ≤ s.prefixer.ends.read + s.prefixer.ready ∧
      (ends.read = s.prefixer.ends.read + s.prefixer.ready →
        s.prefixer.marks s.source s.prefixer.ready =
          endMarks made.outputSize s.source s.prefixer.input.read
            ((s.ends.data.drop s.prefixer.ends.read).take s.prefixer.ready)) := by
  split at h
  next hconnected =>
    refine ⟨Nat.le_of_eq (Inlet.consume_frame h).2, fun _ => ?_⟩
    have hwritten := hsound.written_eq hfits
    rw [← hsound.outputSize_eq] at hwritten
    rw [marks, if_pos hconnected, endTags_eq hwritten, hsound.outputSize_eq, Inlet.front,
      hsound.ends.buffer, hsound.ends_width, Nat.mul_one, Nat.mul_one]
  next hconnected =>
    cases h
    refine ⟨Nat.le_add_right _ _, fun hnone => ?_⟩
    have hready : s.prefixer.ready = 0 := by omega
    rw [marks, if_neg hconnected, hready, List.take_zero]
    rfl

/-- **A call of work marks the ends of the symbols it extends.** -/
theorem work [Inhabited α] (h : s.Marked made) (hsound : s.Sound made)
    (hfits : made.prefixLength ≤ made.inputSize) {d : CyclicPrefixer α τ} {finished : Bool}
    (hwork : s.prefixer.work s.source = .ok (d, finished)) :
    ({ s with prefixer := d } : Session α τ).Marked made := by
  obtain ⟨symbols, samples, output, input, ends, -, -, houtput, hinput, hends, rfl, -⟩ :=
    work_eq_ok_iff.1 hwork
  have hbehind := h.behind
  have hread := (Inlet.consume_frame hinput).2
  obtain ⟨hendsRead, hmarks⟩ := ends_of_work hsound hfits hends
  refine ⟨by simp only [hread]; omega, fun heq => ?_⟩
  simp only [hread] at heq ⊢
  have hsame : s.prefixer.ends.read = s.prefixer.input.read := by omega
  have hall : ends.read = s.prefixer.ends.read + s.prefixer.ready := by omega
  have hlength : (s.ends.data.take s.prefixer.ends.read).length = s.prefixer.input.read := by
    have hle := hsound.ends.read_le
    rw [hsound.ends_width, Nat.mul_one] at hle
    rw [List.length_take, Nat.min_eq_left hle, hsame]
  have hmoved := (filter_lt_perm s.input.tags s.prefixer.input.read s.prefixer.ready).map
    (Tag.scaled made.outputSize)
  rw [List.map_append] at hmoved
  rw [Outlet.tags_total_put houtput, hsound.movedTags_eq hfits, hmarks hall, hall, List.take_add,
    endMarks_append, Nat.zero_add, hlength]
  -- the tags of the symbols before and now, and behind them the marks before and now
  refine ((h.tags_perm hsame).append_right _).trans ?_
  rw [List.append_assoc]
  refine ((List.perm_append_comm_assoc _ _ _).append_left _).trans ?_
  rw [← List.append_assoc]
  exact hmoved.append_right _

/-- **The tags of a session that has consumed everything.** -/
theorem tags_of_drained (h : s.Marked made) (hsound : s.Sound made)
    (hinput : s.prefixer.input.items = 0) (hends : s.prefixer.ends.items = 0)
    (hcount : s.ends.data.length = s.input.data.length / made.inputSize)
    (htags : ∀ t ∈ s.input.tags, t.index < s.input.data.length / made.inputSize) :
    (s.prefixer.output.total s.output).tags.Perm
      (s.input.tags.map (Tag.scaled made.outputSize) ++
        endMarks made.outputSize s.source 0 s.ends.data) := by
  have hread := hsound.read_of_drained hinput
  have hendsRead : s.prefixer.ends.read = s.ends.data.length := by
    have hitems := hsound.ends.items_eq
    have hle := hsound.ends.read_le_items
    rw [hsound.ends_width, Nat.div_one] at hitems hle
    omega
  have hperm := h.tags_perm (by omega)
  have hall : s.input.tags.filter (·.index < s.prefixer.input.read) = s.input.tags :=
    List.filter_eq_self.2 fun t ht => decide_eq_true (hread ▸ htags t ht)
  rwa [hall, hendsRead, List.take_length] at hperm

end Marked

/-! ### The whole session -/

theorem marked_start {inputSize outputSize : Nat} (h : ofSizes inputSize outputSize = .ok made)
    (source : String) : (start made source).Marked made := by
  rw [ofSizes] at h
  split at h
  · cases h
    exact ⟨Nat.le_refl _, fun _ => List.Perm.refl _⟩
  · cases h

/-- **Every session keeps the invariant**, whatever its events. -/
theorem exists_marked [Inhabited α] {inputSize outputSize : Nat}
    (h : ofSizes inputSize outputSize = .ok made) (hfits : outputSize ≤ 2 * inputSize)
    {source : String} {events : List (Event α τ)}
    (hrun : (start made source).run events = .ok s) : s.Marked made := by
  have hshort := (exists_sound h hfits hrun).2
  refine (run_induct (P := fun s => s.Sound made ∧ s.Marked made) ?_ ?_ ?_ ?_
    ⟨(sound_start h source).1, marked_start h source⟩ hrun).2
  · exact fun s p r e ⟨hsound, h⟩ hmeet => ⟨hsound.feedInput hmeet, h.feedInput hsound hmeet⟩
  · exact fun s p r e ⟨hsound, h⟩ hmeet => ⟨hsound.feedEnds hmeet, h.feedEnds hsound hmeet⟩
  · exact fun s p r e ⟨hsound, h⟩ hmeet => ⟨hsound.readOutput hmeet, h.readOutput hsound hmeet⟩
  · exact fun s d finished ⟨hsound, h⟩ hwork =>
      ⟨hsound.work hshort hwork, h.work hsound hshort hwork⟩

end Session

end CyclicPrefixer

end OfdmBurst
