import Mathlib.Data.Nat.ModEq
import OfdmBurst.Proofs.Stream.Record

/-!
# From an outlet to an inlet

An outlet counts the items that it produced and those that were taken from it, and an inlet those
that were consumed. Tags keep their index of the stream on either side. In between they travel with
a piece, counted from its first item, so that each is counted down when the piece is taken and up
again when it is pushed, against counters that have moved on in the meantime.

A `Wire` is an outlet, an inlet, and the pieces between them. Pieces arrive in the order in which
they were taken, and nothing is said about when. Blocks may attach a tag to an item long before they
produce it, or even before there is room for it, as long as it is not produced already.

## Scope

`Outlet.Gave` describes the outlets of blocks that attach tags only to what they produce in the same
breath. Here tags can lie ahead of the data, so that some stay behind when a reader takes. The two
descriptions share nothing but the records.

## Main definitions

* `Outlet.Passed` — an outlet between all that was made and all that has left
* `Wire`, `Wire.Event`, `Wire.act`, `Wire.run` — an outlet and an inlet at work
* `Wire.Sound` — what holds at any time

## Main results

* `Wire.Sound.act` — every event preserves it
* `Wire.arrives_unchanged` — nothing is lost, doubled or moved
-/

namespace OfdmBurst

variable {α τ : Type}

/-! ### Records in pieces -/

namespace Record

/-- One piece after the other. -/
def appendAll (r : Record α τ) (width : Nat) (pieces : List (List α × List (Tag τ))) :
    Record α τ :=
  pieces.foldl (fun r piece => r.append width piece.1 piece.2) r

variable {r : Record α τ} {width : Nat}

@[simp] theorem appendAll_nil : r.appendAll width [] = r := rfl

@[simp] theorem appendAll_cons (piece : List α × List (Tag τ)) (pieces) :
    r.appendAll width (piece :: pieces) =
      (r.append width piece.1 piece.2).appendAll width pieces := rfl

theorem appendAll_concat (pieces) (piece : List α × List (Tag τ)) :
    r.appendAll width (pieces ++ [piece]) =
      (r.appendAll width pieces).append width piece.1 piece.2 := by
  rw [appendAll, List.foldl_append]
  rfl

theorem data_appendAll (pieces : List (List α × List (Tag τ))) :
    (r.appendAll width pieces).data = r.data ++ pieces.flatMap (·.1) := by
  induction pieces generalizing r with
  | nil => rw [appendAll_nil, List.flatMap_nil, List.append_nil]
  | cons piece rest ih => rw [appendAll_cons, ih, append, List.flatMap_cons, List.append_assoc]

/-- More pieces leave the tags of an item alone that was there before. -/
theorem filter_appendAll {i : Nat} (hi : i < r.data.length / width)
    (pieces : List (List α × List (Tag τ))) :
    (r.appendAll width pieces).tags.filter (·.index == i) = r.tags.filter (·.index == i) := by
  induction pieces generalizing r with
  | nil => rfl
  | cons piece rest ih =>
    have hgrown : i < (r.append width piece.1 piece.2).data.length / width := by
      exact Nat.lt_of_lt_of_le hi (Nat.div_le_div_right (r.length_le_append width _ _))
    rw [appendAll_cons, ih hgrown, filter_tags_append]
    intro t ht
    exact beq_iff_eq.1 ht ▸ hi

theorem items_append (h : width ∣ r.data.length) (data : List α) (tags : List (Tag τ)) :
    (r.append width data tags).data.length / width =
      r.data.length / width + data.length / width := by
  rw [append, List.length_append, Nat.add_div_of_dvd_right h]

end Record

/-! ### The outlet -/

namespace Outlet

/-- An outlet between all that was made and all that has left it. Items leave in order, and a tag
leaves with its item. -/
structure Passed (p : Outlet α τ) (made left : Record α τ) : Prop where
  /-- What was produced and not taken is made of whole items. -/
  whole : p.width ∣ p.produced.size
  /-- What has left is what was taken. -/
  taken : left.data.length = p.taken * p.width
  /-- All that was made has left, or it waits in the outlet. -/
  data : made.data = left.data ++ p.produced.toList
  /-- The tags in the outlet are those of the items that wait. -/
  kept : p.tags.toList = made.tags.filter (p.taken ≤ ·.index)
  /-- The tags that have left are those of the items that have left. -/
  gone : ∀ i, left.tags.filter (·.index == i) =
    if i < p.taken then made.tags.filter (·.index == i) else []

variable {p q : Outlet α τ} {made left : Record α τ}

/-- An outlet that nobody has used yet. -/
theorem passed_fresh (hp : p.produced.toList = []) (ht : p.tags.toList = []) (hn : p.taken = 0) :
    p.Passed {} {} := by
  refine ⟨?_, ?_, ?_, ?_, ?_⟩
  · rw [p.produced.size_eq_length, hp]
    exact Nat.dvd_zero _
  · simp [hn]
  · simp [hp]
  · simp [ht]
  · simp

theorem width_of_produce [Inhabited α] {n : Nat} (h : p.produce n = .ok q) :
    q.width = p.width := by
  simp only [produce] at h
  split at h
  · cases h; rfl
  · split at h
    · cases h; rfl
    · cases h

namespace Passed

theorem written_eq (h : p.Passed made left) :
    p.written * p.width = left.data.length + p.produced.toList.length := by
  rw [written, Nat.add_mul, Nat.div_mul_cancel h.whole, h.taken, p.produced.size_eq_length]

/-- What is done to the room, and to nothing else, makes nothing and moves nothing. -/
theorem of_room (h : p.Passed made left) (hwidth : q.width = p.width)
    (hproduced : q.produced = p.produced) (htags : q.tags = p.tags) (htaken : q.taken = p.taken) :
    q.Passed made left := by
  refine ⟨?_, ?_, ?_, ?_, ?_⟩
  · rw [hwidth, hproduced]; exact h.whole
  · rw [hwidth, htaken]; exact h.taken
  · rw [hproduced]; exact h.data
  · rw [htags, htaken]; exact h.kept
  · rw [htaken]; exact h.gone

/-- Items that are produced are made, with what the room holds at the time. -/
theorem produce [Inhabited α] (h : p.Passed made left) {n : Nat} (hq : p.produce n = .ok q) :
    q.Passed { made with data := made.data ++ p.free.take (n * p.width) } left := by
  simp only [Outlet.produce] at hq
  split at hq
  next hn =>
    cases hq
    subst hn
    have hnone : p.free.take (0 * p.width) = [] :=
      List.eq_nil_of_length_eq_zero (by
        have := p.free.length_take_le (0 * p.width)
        omega)
    rw [hnone, List.append_nil]
    exact h
  next hn =>
    split at hq
    next hroom =>
      cases hq
      have hlength : (p.free.take (n * p.width)).length = n * p.width := by
        rw [Space.take_eq, List.length_take, Space.length_toList]
        exact Nat.min_eq_left ((Nat.le_div_iff_mul_le p.width_pos).1 hroom)
      refine ⟨?_, h.taken, ?_, h.kept, h.gone⟩
      · show p.width ∣ p.produced.size + (p.free.take (n * p.width)).length
        rw [hlength]
        exact Nat.dvd_add h.whole (Nat.dvd_mul_left _ _)
      · show made.data ++ _ = left.data ++ (p.produced.append _).toList
        rw [h.data, AppendList.toList_append, List.append_assoc]
    · cases hq

/-- A tag on an item that is not produced yet has not left. -/
theorem attach (h : p.Passed made left) {t : Tag τ} (ht : p.written ≤ t.index) :
    (p.attach t).Passed { made with tags := made.tags ++ [t] } left := by
  have hkept : p.taken ≤ t.index := Nat.le_trans (Nat.le_add_right _ _) ht
  refine ⟨h.whole, h.taken, h.data, ?_, fun i => ?_⟩
  · show (p.tags.push t).toList = (made.tags ++ [t]).filter (p.taken ≤ ·.index)
    rw [AppendList.toList_push, h.kept, List.filter_append]
    simp [hkept]
  · show left.tags.filter (·.index == i) =
      if i < p.taken then (made.tags ++ [t]).filter (·.index == i) else []
    rw [h.gone i, List.filter_append]
    split
    next hi =>
      have hne : t.index ≠ i := by omega
      simp [hne]
    next hi => rfl

/-- A reader can always take. -/
theorem exists_take (h : p.Passed made left) : ∃ leaving q, p.take = .ok (leaving, q) := by
  have hall : (p.tags.toList.filter fun t => decide (t.index < p.written)).all
      (fun t => decide (p.taken ≤ t.index)) = true := by
    refine List.all_eq_true.2 fun t ht => ?_
    have hmem := (List.mem_filter.1 ht).1
    rw [h.kept] at hmem
    exact (List.mem_filter.1 hmem).2
  simp only [take, peek, hall, ↓reduceIte]
  exact ⟨_, _, rfl⟩

/-- **What a reader takes has left, and what is ahead of it stays.** A tag is counted from the first
item of the piece, and the record counts it back to its place. -/
theorem take (h : p.Passed made left) {data : List α} {tags : List (Tag τ)}
    (hq : p.take = .ok ((data, tags), q)) :
    q.Passed made (left.append p.width data tags) ∧ q.width = p.width ∧
      p.width ∣ data.length ∧ ∀ t ∈ tags, t.index < data.length / p.width := by
  simp only [Outlet.take, peek, Fault.bind_eq_ok_iff, Fault.pure_eq_ok_iff] at hq
  obtain ⟨leaving, hleaving, hq⟩ := hq
  split at hleaving
  next hall =>
    cases hleaving
    cases hq
    have hkept : ∀ t ∈ p.tags.toList.filter (fun t => decide (t.index < p.written)),
        p.taken ≤ t.index ∧ t.index < p.written := fun t ht =>
      ⟨of_decide_eq_true (List.all_eq_true.1 hall t ht),
        of_decide_eq_true (List.mem_filter.1 ht).2⟩
    have hback : ((p.tags.toList.filter fun t => decide (t.index < p.written)).map fun t =>
        { t with index := t.index - p.taken }).map (·.later (left.data.length / p.width)) =
          p.tags.toList.filter fun t => decide (t.index < p.written) := by
      rw [List.map_map, h.taken, Nat.mul_div_cancel _ p.width_pos]
      refine (List.map_congr_left fun t ht => ?_).trans (List.map_id _)
      simp only [Function.comp, Tag.later, id, Nat.sub_add_cancel (hkept t ht).1]
    have hcount : p.written = p.taken + p.produced.toList.length / p.width := by
      rw [written, p.produced.size_eq_length]
    refine ⟨⟨?_, ?_, ?_, ?_, fun i => ?_⟩, rfl, ?_, fun t ht => ?_⟩
    · exact Nat.dvd_zero _
    · show (left.data ++ p.produced.toList).length = p.written * p.width
      rw [h.written_eq, List.length_append]
    · show made.data = (left.data ++ p.produced.toList) ++ []
      rw [h.data, List.append_nil]
    · show (AppendList.ofList (Tag.since p.written p.tags.toList)).toList =
        made.tags.filter (p.written ≤ ·.index)
      rw [AppendList.toList_ofList, Tag.since_eq_filter, h.kept, List.filter_filter]
      refine List.filter_congr fun t _ => ?_
      by_cases ht : p.written ≤ t.index
      · have : p.taken ≤ t.index := Nat.le_trans (Nat.le_add_right _ _) ht
        simp [ht, this]
      · simp [ht]
    · -- an item had left before, or leaves now, or is not produced yet
      show (left.tags ++ _).filter (·.index == i) =
        if i < p.written then made.tags.filter (·.index == i) else []
      have hle : p.taken ≤ p.written := Nat.le_add_right _ _
      rw [hback, List.filter_append, h.gone i, h.kept, Tag.filter_window]
      by_cases hold : i < p.taken
      · rw [if_pos hold, if_neg (by omega), if_pos (by omega), List.append_nil]
      · by_cases hnew : i < p.written
        · rw [if_neg hold, if_pos (by omega), if_pos hnew, List.nil_append]
        · rw [if_neg hold, if_neg (by omega), if_neg hnew, List.nil_append]
    · rw [← p.produced.size_eq_length]
      exact h.whole
    · obtain ⟨u, hu, rfl⟩ := List.mem_map.1 ht
      have := hkept u hu
      show u.index - p.taken < _
      omega
  · cases hleaving

end Passed

end Outlet

/-! ### The wire -/

/-- An outlet and an inlet, the pieces that were taken and not pushed yet, all that the outlet's
block made, and all that was pushed. -/
structure Wire (α τ : Type) where
  outlet : Outlet α τ
  inlet : Inlet α τ
  flight : List (List α × List (Tag τ)) := []
  made : Record α τ := {}
  moved : Record α τ := {}

namespace Wire

/-- What can happen to a wire. A tag is attached some places behind the last produced item. -/
inductive Event (α τ : Type) where
  | reserve (n : Nat)
  | write (data : List α)
  | writeItem (place : Nat) (data : List α)
  | produce (n : Nat)
  | attach (t : Tag τ)
  | take
  | push
  | consume (n : Nat)

/-- A wire of items of some width that nobody has used yet. -/
def ofWidth (producer consumer : String) (width : Nat) : Except Fault (Wire α τ) := do
  let outlet ← Outlet.ofWidth producer width
  let inlet ← Inlet.ofWidth consumer width
  return { outlet, inlet }

section Run

variable [Inhabited α]

/-- A wire after an event. What is produced is made, with what was written to the room. -/
def act (s : Wire α τ) : Event α τ → Except Fault (Wire α τ)
  | .reserve n => do return { s with outlet := ← s.outlet.reserve n }
  | .write data => do return { s with outlet := ← s.outlet.overwrite data }
  | .writeItem place data => do return { s with outlet := ← s.outlet.overwriteItem place data }
  | .produce n => do
    let outlet ← s.outlet.produce n
    let data := s.outlet.free.take (n * s.outlet.width)
    return { s with outlet, made := { s.made with data := s.made.data ++ data } }
  | .attach t =>
    let t := t.later s.outlet.written
    .ok { s with
      outlet := s.outlet.attach t, made := { s.made with tags := s.made.tags ++ [t] } }
  | .take => do
    let (piece, outlet) ← s.outlet.take
    return { s with outlet, flight := s.flight ++ [piece] }
  | .push =>
    match s.flight with
    | [] => .ok s
    | (data, tags) :: flight => do
      let inlet ← s.inlet.push data tags
      return { s with inlet, flight, moved := s.moved.append s.inlet.width data tags }
  | .consume n => do return { s with inlet := ← s.inlet.consume n }

/-- A wire after some events. -/
def run (s : Wire α τ) (events : List (Event α τ)) : Except Fault (Wire α τ) := events.foldlM act s

end Run

/-- All that has left the outlet: what has arrived, and what is on its way. -/
def left (s : Wire α τ) (width : Nat) : Record α τ := s.moved.appendAll width s.flight

/-- What holds of a wire at any time. -/
structure Sound (width : Nat) (s : Wire α τ) : Prop where
  /-- The outlet keeps its width. -/
  outletWidth : s.outlet.width = width
  /-- So does the inlet. -/
  inletWidth : s.inlet.width = width
  /-- What was pushed and what is in flight has left the outlet. -/
  passed : s.outlet.Passed s.made (s.left width)
  /-- The inlet holds what is left of what was pushed. -/
  holds : s.inlet.Holds s.moved
  /-- A tag that was pushed sits on an item that was pushed. -/
  settled : ∀ t ∈ s.moved.tags, t.index < s.moved.data.length / width
  /-- A piece in flight is made of whole items, and has its tags on them. -/
  pieces : ∀ piece ∈ s.flight, width ∣ piece.1.length ∧
    ∀ t ∈ piece.2, t.index < piece.1.length / width

theorem sound_ofWidth {producer consumer : String} {width : Nat} {s : Wire α τ}
    (h : ofWidth producer consumer width = .ok s) : s.Sound width := by
  simp only [ofWidth, Outlet.ofWidth, Inlet.ofWidth, Fault.bind_eq_ok_iff,
    Fault.pure_eq_ok_iff] at h
  obtain ⟨outlet, houtlet, inlet, hinlet, rfl⟩ := h
  split at houtlet
  next hw =>
    rw [dif_pos hw] at hinlet
    cases houtlet
    cases hinlet
    refine ⟨rfl, rfl, Outlet.passed_fresh ?_ ?_ rfl, Inlet.holds_fresh rfl rfl rfl, ?_, ?_⟩
    · exact AppendList.toList_ofList []
    · exact AppendList.toList_ofList []
    · simp
    · simp
  · cases houtlet

namespace Sound

variable {width : Nat} {s t : Wire α τ}

theorem whole (h : s.Sound width) : width ∣ s.moved.data.length := h.inletWidth ▸ h.holds.whole

/-- Pushed items go behind all that has arrived. -/
theorem offset_eq (h : s.Sound width) :
    s.inlet.read + s.inlet.items = s.moved.data.length / width := by
  rw [h.holds.items_eq, ← h.inletWidth]
  exact Nat.add_sub_cancel' h.holds.read_le_items

/-- A change to the outlet that lets nothing leave. -/
theorem of_outlet (h : s.Sound width) {outlet : Outlet α τ} {made : Record α τ}
    (hwidth : outlet.width = s.outlet.width) (hpassed : outlet.Passed made (s.left width)) :
    Sound width { s with outlet, made } :=
  ⟨hwidth.trans h.outletWidth, h.inletWidth, hpassed, h.holds, h.settled, h.pieces⟩

theorem take (h : s.Sound width) {piece : List α × List (Tag τ)} {outlet : Outlet α τ}
    (hq : s.outlet.take = .ok (piece, outlet)) :
    Sound width { s with outlet, flight := s.flight ++ [piece] } := by
  obtain ⟨hpassed, hwidth, hwhole, htags⟩ := h.passed.take hq
  rw [h.outletWidth] at hpassed hwidth hwhole htags
  refine ⟨hwidth, h.inletWidth, ?_, h.holds, h.settled, fun other hmem => ?_⟩
  · rw [left, Record.appendAll_concat]
    exact hpassed
  · obtain hmem | hmem := List.mem_append.1 hmem
    · exact h.pieces other hmem
    · obtain rfl := List.mem_singleton.1 hmem
      exact ⟨hwhole, htags⟩

/-- The piece that was taken first goes behind all that arrived before. -/
theorem push (h : s.Sound width) {data : List α} {tags : List (Tag τ)}
    {flight : List (List α × List (Tag τ))} (hflight : s.flight = (data, tags) :: flight)
    {inlet : Inlet α τ} (hq : s.inlet.push data tags = .ok inlet) :
    Sound width { s with inlet, flight, moved := s.moved.append width data tags } := by
  have hholds := h.holds.push hq
  rw [h.inletWidth] at hholds
  obtain ⟨-, rfl⟩ := Inlet.push_eq_ok hq
  obtain ⟨-, htags⟩ := h.pieces (data, tags) (hflight ▸ List.mem_cons_self)
  refine ⟨h.outletWidth, h.inletWidth, ?_, hholds, fun t ht => ?_, fun other hmem => ?_⟩
  · have hleft := h.passed
    rw [left, hflight, Record.appendAll_cons] at hleft
    exact hleft
  · show t.index < (s.moved.append width data tags).data.length / width
    rw [Record.items_append h.whole]
    obtain hold | hnew := List.mem_append.1 ht
    · exact Nat.lt_add_right _ (h.settled t hold)
    · obtain ⟨u, hu, rfl⟩ := List.mem_map.1 hnew
      rw [Nat.add_comm]
      exact Nat.add_lt_add_right (htags u hu) _
  · exact h.pieces other (hflight ▸ List.mem_cons_of_mem _ hmem)

theorem consume (h : s.Sound width) {n : Nat} {inlet : Inlet α τ}
    (hq : s.inlet.consume n = .ok inlet) : Sound width { s with inlet } :=
  ⟨h.outletWidth, (Inlet.consume_frame hq).1.trans h.inletWidth, h.passed, h.holds.consume hq,
    h.settled, h.pieces⟩

/-- **Every event preserves what holds of a wire.** -/
theorem act [Inhabited α] (h : s.Sound width) {e : Event α τ} (ht : s.act e = .ok t) :
    t.Sound width := by
  cases e with
  | reserve n =>
    obtain ⟨outlet, hq, rfl⟩ := Fault.exists_of_bind_pure ht
    obtain ⟨_, -, rfl⟩ := Fault.exists_of_bind_pure hq
    exact h.of_outlet rfl (h.passed.of_room rfl rfl rfl rfl)
  | write data =>
    obtain ⟨outlet, hq, rfl⟩ := Fault.exists_of_bind_pure ht
    simp only [Outlet.overwrite] at hq
    split at hq
    · cases hq
      exact h.of_outlet rfl (h.passed.of_room rfl rfl rfl rfl)
    · cases hq
  | writeItem place data =>
    obtain ⟨outlet, hq, rfl⟩ := Fault.exists_of_bind_pure ht
    simp only [Outlet.overwriteItem] at hq
    split at hq
    · cases hq
      exact h.of_outlet rfl (h.passed.of_room rfl rfl rfl rfl)
    · cases hq
  | produce n =>
    obtain ⟨outlet, hq, rfl⟩ := Fault.exists_of_bind_pure ht
    exact h.of_outlet (Outlet.width_of_produce hq) (h.passed.produce hq)
  | attach tag =>
    cases ht
    exact h.of_outlet rfl (h.passed.attach (Nat.le_add_left _ _))
  | take =>
    obtain ⟨⟨piece, outlet⟩, hq, rfl⟩ := Fault.exists_of_bind_pure ht
    exact h.take hq
  | push =>
    simp only [Wire.act] at ht
    split at ht
    · cases ht
      exact h
    next data tags flight hflight =>
      obtain ⟨inlet, hq, rfl⟩ := Fault.exists_of_bind_pure ht
      rw [h.inletWidth]
      exact h.push hflight hq
  | consume n =>
    obtain ⟨inlet, hq, rfl⟩ := Fault.exists_of_bind_pure ht
    exact h.consume hq

theorem run [Inhabited α] (h : s.Sound width) {events : List (Event α τ)}
    (ht : s.run events = .ok t) : t.Sound width :=
  Fault.foldlM_induct (fun _ _ _ h hact => Sound.act h hact) h ht

/-- All that was made has arrived, is on its way, or lies in the outlet. -/
theorem made_eq (h : s.Sound width) :
    s.made.data = s.moved.data ++ s.flight.flatMap (·.1) ++ s.outlet.produced.toList := by
  rw [h.passed.data, left, Record.data_appendAll]

theorem taken_eq (h : s.Sound width) :
    s.outlet.taken * width = (s.moved.data ++ s.flight.flatMap (·.1)).length := by
  rw [← Record.data_appendAll, ← left, h.passed.taken, h.outletWidth]

/-- What has arrived has left. -/
theorem moved_le_taken (h : s.Sound width) : s.moved.data.length / width ≤ s.outlet.taken := by
  refine Nat.div_le_of_le_mul ?_
  rw [Nat.mul_comm, h.taken_eq, List.length_append]
  exact Nat.le_add_right _ _

/-- The tags of an item that has arrived are those that were made. -/
theorem moved_tags (h : s.Sound width) {i : Nat} (hi : i < s.moved.data.length / width) :
    s.moved.tags.filter (·.index == i) = s.made.tags.filter (·.index == i) := by
  have hgone := h.passed.gone i
  rw [if_pos (Nat.lt_of_lt_of_le hi h.moved_le_taken), left, Record.filter_appendAll hi] at hgone
  exact hgone

/-- **The tags of an item at hand are those that were made for it, and no other item has any.** -/
theorem tagsOn_eq (h : s.Sound width) (i : Nat) :
    s.inlet.tagsOn i =
      if s.inlet.read ≤ i ∧ i < s.moved.data.length / width then
        s.made.tags.filter (·.index == i) else [] := by
  split
  next hi => rw [h.holds.tagsOn_eq hi.1, h.moved_tags hi.2]
  next hi =>
    rw [Inlet.tagsOn, h.holds.tags, List.filter_filter]
    refine List.filter_eq_nil_iff.2 fun t ht => ?_
    have := h.settled t ht
    simp only [Bool.and_eq_true, beq_iff_eq, decide_eq_true_eq, not_and]
    omega

theorem exists_take [Inhabited α] (h : s.Sound width) : ∃ t, s.act .take = .ok t := by
  obtain ⟨piece, outlet, hq⟩ := h.passed.exists_take
  exact ⟨_, Fault.bind_eq_ok_iff.2 ⟨_, hq, rfl⟩⟩

/-- The tags of a piece on its way were made for the items of the stream that it brings. -/
theorem later_mem_made (h : s.Sound width) {data : List α} {tags : List (Tag τ)}
    {flight : List (List α × List (Tag τ))} (hflight : s.flight = (data, tags) :: flight)
    {tag : Tag τ} (htag : tag ∈ tags) :
    tag.later (s.moved.data.length / width) ∈ s.made.tags := by
  obtain ⟨-, htags⟩ := h.pieces (data, tags) (hflight ▸ List.mem_cons_self)
  have hbelow : (tag.later (s.moved.data.length / width)).index <
      (s.moved.append width data tags).data.length / width := by
    rw [Record.items_append h.whole, Nat.add_comm]
    exact Nat.add_lt_add_right (htags tag htag) _
  have hleft : tag.later (s.moved.data.length / width) ∈ (s.left width).tags.filter
      (·.index == (tag.later (s.moved.data.length / width)).index) := by
    rw [left, hflight, Record.appendAll_cons, Record.filter_appendAll hbelow]
    refine List.mem_filter.2 ⟨List.mem_append_right _ (List.mem_map_of_mem htag), ?_⟩
    exact beq_self_eq_true _
  rw [h.passed.gone] at hleft
  split at hleft
  · exact (List.mem_filter.1 hleft).1
  · cases hleft

/-- The next piece can be pushed, as long as indices stay within a machine word. -/
theorem exists_push [Inhabited α] (h : s.Sound width)
    (hword : ∀ t ∈ s.made.tags, t.index < wordLimit) : ∃ t, s.act .push = .ok t := by
  simp only [Wire.act]
  split
  · exact ⟨s, rfl⟩
  next data tags flight hflight =>
    obtain ⟨hwhole, -⟩ := h.pieces (data, tags) (hflight ▸ List.mem_cons_self)
    have hfits : tags.all (fun t => decide
        (t.index + (s.inlet.read + s.inlet.items) < wordLimit)) = true := by
      refine List.all_eq_true.2 fun t ht => decide_eq_true ?_
      rw [h.offset_eq]
      exact hword _ (h.later_mem_made hflight ht)
    simp only [Inlet.push, h.inletWidth, Nat.mod_eq_zero_of_dvd hwhole, ne_eq, not_true_eq_false,
      ↓reduceIte, hfits]
    exact ⟨_, rfl⟩

end Sound

/-- What was written to the front of the room is what is made by producing it. -/
theorem made_write_produce [Inhabited α] {s t : Wire α τ} {data : List α} {n : Nat}
    (hlength : data.length = n * s.outlet.width)
    (h : s.run [.write data, .produce n] = .ok t) :
    t.made = { s.made with data := s.made.data ++ data } := by
  simp only [run, List.foldlM_cons, List.foldlM_nil, Fault.bind_eq_ok_iff,
    Fault.pure_eq_ok_iff] at h
  obtain ⟨u, hu, _, hproduce, rfl⟩ := h
  obtain ⟨outlet, hwrite, rfl⟩ := Fault.exists_of_bind_pure hu
  obtain ⟨-, -, rfl⟩ := Fault.exists_of_bind_pure hproduce
  simp only [Outlet.overwrite] at hwrite
  split at hwrite
  next hroom =>
    cases hwrite
    simp only [← hlength, Space.take_overwrite]
  · cases hwrite

section Transport

variable [Inhabited α] {producer consumer : String} {width : Nat} {events : List (Event α τ)}
  {s t : Wire α τ}

/-- **What the outlet's block makes arrives unchanged, whatever happens when.** The inlet holds what
was pushed without what was consumed. An item at hand carries the tags that were made for it, at
their index and in their order, and there are no other tags. A tag stays in the outlet until its
item is taken, and taking and pushing never fail. -/
theorem arrives_unchanged (hs : ofWidth producer consumer width = .ok s)
    (ht : s.run events = .ok t) :
    t.inlet.buffer.toList = t.moved.data.drop (t.inlet.read * width) ∧
    t.inlet.read * width ≤ t.moved.data.length ∧
    t.made.data = t.moved.data ++ t.flight.flatMap (·.1) ++ t.outlet.produced.toList ∧
    (∀ i, t.inlet.tagsOn i =
      if t.inlet.read ≤ i ∧ i < t.moved.data.length / width then
        t.made.tags.filter (·.index == i) else []) ∧
    t.outlet.taken * width = (t.moved.data ++ t.flight.flatMap (·.1)).length ∧
    t.outlet.tags.toList = t.made.tags.filter (t.outlet.taken ≤ ·.index) ∧
    (∃ u, t.act .take = .ok u) ∧
    ((∀ tag ∈ t.made.tags, tag.index < wordLimit) → ∃ u, t.act .push = .ok u) := by
  have hsound := (sound_ofWidth hs).run ht
  have hbuffer := hsound.holds.buffer
  have hread := hsound.holds.read_le
  rw [hsound.inletWidth] at hbuffer hread
  exact ⟨hbuffer, hread, hsound.made_eq, hsound.tagsOn_eq, hsound.taken_eq, hsound.passed.kept,
    hsound.exists_take, hsound.exists_push⟩

end Transport

/-- Three tags on items that are produced later, two of them taken with their items. The second
piece is taken before the first one arrives. -/
def twoPieces : List (Event Nat Nat) :=
  [.reserve 3, .attach { index := 0, key := "a", value := .flag },
    .attach { index := 2, key := "b", value := .flag, source := some "x" },
    .attach { index := 4, key := "c", value := .flag },
    .write [1, 2, 3, 4], .produce 2, .take, .writeItem 0 [5, 6], .produce 1, .take, .push,
    .consume 1, .push]

theorem arrives_unchanged_two_pieces :
    ∃ s t, ofWidth "from" "to" 2 = .ok s ∧ s.run twoPieces = .ok t ∧
      t.inlet.buffer.toList = [3, 4, 5, 6] ∧
      t.inlet.tagsOn 2 = [{ index := 2, key := "b", value := .flag, source := some "x" }] ∧
      t.outlet.tags.toList = [{ index := 4, key := "c", value := .flag }] := by
  obtain ⟨hbuffer, -, -, htags, -, hkept, -⟩ :=
    @arrives_unchanged Nat Nat _ "from" "to" 2 twoPieces _ _ rfl rfl
  exact ⟨_, _, rfl, rfl, hbuffer, htags 2, hkept⟩

end Wire

end OfdmBurst
