import Mathlib.Data.List.Induction
import OfdmBurst.Proofs.Fault
import OfdmBurst.Stream.Inlet
import OfdmBurst.Stream.Outlet

/-!
# What has passed a terminal

Statements about a block that runs for a while compare what went in with what came out, over all
calls and all pieces. A terminal itself forgets: an inlet drops what was consumed, and an outlet
what was taken. So whoever runs a block keeps a `Record` of every terminal beside it, with tags at
their index of the stream.

A record is not state of the terminal. `Inlet.Holds` and `Outlet.Gave` say how the two hang
together, once for each operation, and no statement about a block unfolds a terminal again.

## The two directions

An inlet's record is everything that was pushed. What the inlet still holds is the record without
the consumed items.

An outlet's record is everything that was taken. What the block has produced is the record followed
by what lies in the outlet, `Outlet.total`. Blocks attach tags to items that they produce in the
same breath, which is what `Gave.emit` says, so no tag stays behind when a reader takes.

## Main definitions

* `Record`, `Record.append` — what has passed, and one more piece of it
* `Inlet.Event`, `Inlet.meet`, `Outlet.Event`, `Outlet.meet` — what the outside does to a terminal
* `Inlet.Holds`, `Outlet.Gave`, `Outlet.total` — terminal and record

## Main results

* `Inlet.Holds.meet`, `Inlet.Holds.consume`, `Inlet.Holds.items_eq`
* `Outlet.Gave.meet` — a reader changes nothing about what was produced
* `Outlet.Gave.emit`, `Outlet.put_attachAll_eq_ok_iff` — what a block puts to an outlet
-/

namespace OfdmBurst

/-- Everything that has passed a terminal since the start of its stream. -/
@[ext]
structure Record (α τ : Type) where
  data : List α := []
  tags : List (Tag τ) := []

variable {α τ : Type}

/-- A stretch of a stream stays as it is when the stream goes on. -/
theorem take_drop_append {xs : List α} {i n : Nat} (h : i + n ≤ xs.length) (ys : List α) :
    ((xs ++ ys).drop i).take n = (xs.drop i).take n := by
  rw [List.drop_append_of_le_length (by omega), List.take_append_of_le_length]
  rw [List.length_drop]
  omega

namespace Record

/-- One more piece. Its tags count from its first item. -/
def append (r : Record α τ) (width : Nat) (data : List α) (tags : List (Tag τ)) : Record α τ where
  data := r.data ++ data
  tags := r.tags ++ tags.map (·.later (r.data.length / width))

theorem length_le_append (r : Record α τ) (width : Nat) (data : List α) (tags : List (Tag τ)) :
    r.data.length ≤ (r.append width data tags).data.length := by
  rw [append, List.length_append]
  exact Nat.le_add_right _ _

/-- What looks only at the items that are there does not see the tags of a later piece. -/
theorem filter_tags_append {r : Record α τ} {width : Nat} {p : Tag τ → Bool}
    (h : ∀ t, p t = true → t.index < r.data.length / width) (data : List α) (tags : List (Tag τ)) :
    (r.append width data tags).tags.filter p = r.tags.filter p := by
  have hnone : (tags.map (·.later (r.data.length / width))).filter p = [] := by
    refine List.filter_eq_nil_iff.2 fun t ht hp => ?_
    obtain ⟨u, -, rfl⟩ := List.mem_map.1 ht
    exact Nat.not_lt.2 (Nat.le_add_left _ u.index) (h _ hp)
  rw [append, List.filter_append, hnone, List.append_nil]

end Record

/-! ### Tags -/

/-- A tag without the name of the block that made it. -/
def Tag.unsourced (t : Tag τ) : Tag τ := { t with source := none }

/-- The most recent tag of a list is in the list. -/
theorem Tag.latest?_mem {tags : List (Tag τ)} {t : Tag τ} (h : latest? tags = some t) :
    t ∈ tags := by
  induction tags using List.reverseRecOn generalizing t with
  | nil => cases h
  | append_singleton tags u ih =>
    simp only [latest?_concat, newer] at h
    split at h
    next best hbest =>
      split at h
      · cases h
        exact List.mem_append_left _ (ih hbest)
      · cases h
        exact List.mem_append_right _ (List.mem_singleton_self _)
    · cases h
      exact List.mem_append_right _ (List.mem_singleton_self _)

/-- A tag from some item on is more recent than all before it. -/
theorem Tag.latest?_eq_or (first : Nat) (tags : List (Tag τ)) :
    latest? tags = (latest? (tags.filter (first ≤ ·.index))).or
      (latest? (tags.filter (·.index < first))) := by
  induction tags using List.reverseRecOn with
  | nil => rfl
  | append_singleton tags t ih =>
    rw [latest?_concat, ih, List.filter_append, List.filter_append]
    by_cases ht : first ≤ t.index
    · have hbehind : ¬ t.index < first := Nat.not_lt.2 ht
      simp only [List.filter_cons, List.filter_nil, ht, hbehind, decide_true, decide_false,
        Bool.false_eq_true, ↓reduceIte, List.append_nil, latest?_concat]
      cases hnew : latest? (tags.filter (first ≤ ·.index)) with
      | some b => simp only [Option.some_or, newer]; split <;> rfl
      | none =>
        cases hold : latest? (tags.filter (·.index < first)) with
        | none => rfl
        | some b =>
          have hb := (List.mem_filter.1 (latest?_mem hold)).2
          rw [decide_eq_true_iff] at hb
          rw [Option.none_or, newer, if_neg (by omega)]
          rfl
    · have hbefore : t.index < first := Nat.lt_of_not_le ht
      simp only [List.filter_cons, List.filter_nil, ht, hbefore, decide_true, decide_false,
        Bool.false_eq_true, ↓reduceIte, List.append_nil, latest?_concat]
      cases hnew : latest? (tags.filter (first ≤ ·.index)) with
      | some b =>
        have hb := (List.mem_filter.1 (latest?_mem hnew)).2
        rw [decide_eq_true_iff] at hb
        rw [Option.some_or, Option.some_or, newer, if_pos (by omega)]
      | none => rw [Option.none_or, Option.none_or]

/-- What the most recent tag says is what the most recent of the later ones says, if there are
any. -/
theorem Tag.bind_latest?_eq_or {β : Type} {f : Tag τ → Option β} {tags : List (Tag τ)}
    (hgiven : ∀ t ∈ tags, ∃ x, f t = some x) (first : Nat) :
    (latest? tags).bind f = ((latest? (tags.filter (first ≤ ·.index))).bind f).or
      ((latest? (tags.filter (·.index < first))).bind f) := by
  rw [latest?_eq_or first]
  cases hlatest : latest? (tags.filter (first ≤ ·.index)) with
  | none => rfl
  | some t =>
    obtain ⟨x, hx⟩ := hgiven t (List.mem_filter.1 (latest?_mem hlatest)).1
    rw [Option.some_or, Option.bind_some, hx, Option.some_or]

theorem Tag.latest?_eq_none {tags : List (Tag τ)} (h : latest? tags = none) : tags = [] := by
  cases tags using List.reverseRecOn with
  | nil => rfl
  | append_singleton tags t =>
    rw [latest?_concat] at h
    cases hbest : latest? tags with
    | none =>
      rw [hbest] at h
      cases h
    | some b =>
      rw [hbest, newer] at h
      split at h <;> cases h

/-- No tag is more recent than the most recent one. -/
theorem Tag.index_le_of_latest? {tags : List (Tag τ)} {t u : Tag τ} (h : latest? tags = some t)
    (hu : u ∈ tags) : u.index ≤ t.index := by
  rw [latest?_eq_or u.index] at h
  cases hnew : latest? (tags.filter (u.index ≤ ·.index)) with
  | some b =>
    rw [hnew] at h
    cases h
    exact of_decide_eq_true (List.mem_filter.1 (latest?_mem hnew)).2
  | none =>
    have hmem : u ∈ tags.filter (u.index ≤ ·.index) :=
      List.mem_filter.2 ⟨hu, decide_eq_true (Nat.le_refl _)⟩
    rw [latest?_eq_none hnew] at hmem
    cases hmem

/-- Of tags on one item the last one is the most recent. -/
theorem Tag.latest?_eq_getLast? {tags : List (Tag τ)} {i : Nat} (h : ∀ t ∈ tags, t.index = i) :
    latest? tags = tags.getLast? := by
  cases tags using List.reverseRecOn with
  | nil => rfl
  | append_singleton tags t =>
    rw [latest?_concat, List.getLast?_concat]
    cases hbest : latest? tags with
    | none => rfl
    | some b =>
      have hb : b.index = i := h b (List.mem_append_left _ (latest?_mem hbest))
      have ht : t.index = i := h t (List.mem_append_right _ (List.mem_singleton_self _))
      rw [newer, if_neg (by omega)]

/-- The tags on one item, among those on a range of items. -/
theorem Tag.filter_window (tags : List (Tag τ)) (first last i : Nat) :
    ((tags.filter (first ≤ ·.index)).filter (·.index < last)).filter (·.index == i) =
      if first ≤ i ∧ i < last then tags.filter (·.index == i) else [] := by
  rw [List.filter_filter, List.filter_filter]
  split
  next hi =>
    refine List.filter_congr fun t _ => ?_
    by_cases ht : t.index = i
    · simp [ht, hi]
    · rw [beq_false_of_ne ht, Bool.false_and, Bool.false_and]
  next hi =>
    refine List.filter_eq_nil_iff.2 fun t _ => ?_
    simp only [Bool.and_eq_true, beq_iff_eq, decide_eq_true_eq]
    omega

/-! ### Inlets -/

namespace Inlet

/-- What the outside does to an inlet. -/
inductive Event (α τ : Type) where
  | push (data : List α) (tags : List (Tag τ))
  | close

/-- An inlet and its record after an event. A piece that is not made of whole items is refused, and
that is not the end of the run. -/
def meet (p : Inlet α τ) (r : Record α τ) : Event α τ → Except Fault (Inlet α τ × Record α τ)
  | .push data tags =>
    match p.push data tags with
    | .ok q => .ok (q, r.append p.width data tags)
    | .error (.terminal _) => .ok (p, r)
    | .error fault => .error fault
  | .close => .ok (p.close, r)

/-- The inlet holds what is left of its record. -/
structure Holds (p : Inlet α τ) (r : Record α τ) : Prop where
  /-- The record is made of whole items. -/
  whole : p.width ∣ r.data.length
  /-- No more was consumed than was pushed. -/
  read_le : p.read * p.width ≤ r.data.length
  /-- The items at hand are those behind the consumed ones. -/
  buffer : p.buffer.toList = r.data.drop (p.read * p.width)
  /-- The tags at hand are those of these items, at their place in the stream. -/
  tags : p.tags = r.tags.filter (p.read ≤ ·.index)

variable {p q : Inlet α τ} {r : Record α τ}

/-- An inlet that nobody has used yet. -/
theorem holds_fresh (hb : p.buffer.toList = []) (ht : p.tags = []) (hr : p.read = 0) :
    p.Holds {} := by
  refine ⟨by simp, by simp [hr], by simp [hb], by simp [ht]⟩

/-- A push that succeeds, with the tags at their place behind everything pushed before. -/
theorem push_eq_ok {data : List α} {tags : List (Tag τ)} (h : p.push data tags = .ok q) :
    p.width ∣ data.length ∧
      q = { p with
        buffer := p.buffer.append data
        tags := p.tags ++ tags.map (·.later (p.read + p.items))
        connected := true } := by
  simp only [push] at h
  split at h
  · cases h
  next hw =>
    split at h
    · cases h
      exact ⟨Nat.dvd_of_mod_eq_zero (by simpa using hw), rfl⟩
    · cases h

namespace Holds

theorem size_eq (h : p.Holds r) : p.buffer.size = r.data.length - p.read * p.width := by
  rw [p.buffer.size_eq, h.buffer, List.length_drop]

/-- The items at hand are those of the record that were not consumed. -/
theorem items_eq (h : p.Holds r) : p.items = r.data.length / p.width - p.read := by
  rw [items, h.size_eq, Nat.mul_comm, Nat.sub_mul_div]

theorem read_le_items (h : p.Holds r) : p.read ≤ r.data.length / p.width :=
  (Nat.le_div_iff_mul_le p.width_pos).2 h.read_le

/-- The tags of an item that was not consumed are those of the record. -/
theorem tagsOn_eq (h : p.Holds r) {index : Nat} (hi : p.read ≤ index) :
    p.tagsOn index = r.tags.filter (·.index == index) := by
  rw [tagsOn, h.tags, List.filter_filter]
  refine List.filter_congr fun t _ => ?_
  by_cases ht : t.index = index
  · simp [ht, hi]
  · simp [ht]

/-- The tags behind the consumed items are those of the record. -/
theorem tagsBetween_eq (h : p.Holds r) {first last : Nat} (hf : p.read ≤ first) (key : String) :
    p.tagsBetween first last key =
      r.tags.filter fun t => first ≤ t.index && t.index < last && t.key == key := by
  rw [tagsBetween, h.tags, List.filter_filter]
  refine List.filter_congr fun t _ => ?_
  by_cases ht : first ≤ t.index
  · simp [ht, Nat.le_trans hf ht]
  · simp [ht]

/-- Pushed tags stand behind all items that were pushed before, so none of them is consumed. -/
theorem filter_later (h : p.Holds r) (tags : List (Tag τ)) :
    (tags.map (·.later (r.data.length / p.width))).filter (p.read ≤ ·.index) =
      tags.map (·.later (r.data.length / p.width)) := by
  refine List.filter_eq_self.2 fun t ht => ?_
  obtain ⟨s, -, rfl⟩ := List.mem_map.1 ht
  have hle : p.read ≤ s.index + r.data.length / p.width :=
    Nat.le_trans h.read_le_items (Nat.le_add_left _ _)
  exact decide_eq_true hle

theorem push (h : p.Holds r) {data : List α} {tags : List (Tag τ)}
    (hq : p.push data tags = .ok q) : q.Holds (r.append p.width data tags) := by
  have hoff : p.read + p.items = r.data.length / p.width := by
    rw [h.items_eq]
    exact Nat.add_sub_cancel' h.read_le_items
  obtain ⟨hw, rfl⟩ := push_eq_ok hq
  rw [hoff]
  refine ⟨?_, ?_, ?_, ?_⟩
  · simp only [Record.append, List.length_append]
    exact Nat.dvd_add h.whole hw
  · simp only [Record.append, List.length_append]
    exact Nat.le_trans h.read_le (Nat.le_add_right _ _)
  · simp only [SizedList.toList_append, Record.append, h.buffer]
    rw [List.drop_append_of_le_length h.read_le]
  · simp only [Record.append, List.filter_append, h.filter_later, h.tags]

theorem close (h : p.Holds r) : p.close.Holds r := ⟨h.whole, h.read_le, h.buffer, h.tags⟩

/-- Consuming moves the reader, and the record stays. -/
theorem consume (h : p.Holds r) {n : Nat} (hq : p.consume n = .ok q) : q.Holds r := by
  unfold Inlet.consume at hq
  split at hq
  · cases hq; exact h
  · split at hq
    next hn =>
      cases hq
      have hle : p.read + n ≤ r.data.length / p.width := by
        have := h.read_le_items
        have := h.items_eq
        omega
      refine ⟨h.whole, (Nat.le_div_iff_mul_le p.width_pos).1 hle, ?_, ?_⟩
      · simp only [SizedList.toList_drop, h.buffer, List.drop_drop]
        rw [Nat.add_mul]
      · simp only [Tag.since_eq_filter, h.tags, List.filter_filter]
        refine List.filter_congr fun t _ => ?_
        by_cases ht : p.read + n ≤ t.index
        · simp [ht, show p.read ≤ t.index by omega]
        · simp [ht]
    · cases hq

end Holds

theorem consume_frame {n : Nat} (h : p.consume n = .ok q) :
    q.width = p.width ∧ q.read = p.read + n := by
  unfold consume at h
  split at h
  next hn => cases h; exact ⟨rfl, by omega⟩
  · split at h
    · cases h; exact ⟨rfl, rfl⟩
    · cases h

/-- What consuming leaves in the buffer. -/
theorem buffer_consume {n : Nat} (h : p.consume n = .ok q) :
    q.buffer.toList = p.buffer.toList.drop (n * p.width) := by
  unfold consume at h
  split at h
  next hn => cases h; rw [hn, Nat.zero_mul, List.drop_zero]
  · split at h
    · cases h; rfl
    · cases h

/-- What consuming does to the counters. -/
theorem counts_consume {n : Nat} (hn : n ≤ p.items) (h : p.consume n = .ok q) :
    q.read = p.read + n ∧ q.items + n = p.items := by
  refine ⟨(consume_frame h).2, ?_⟩
  rw [items_consume h, Nat.sub_add_cancel hn]

theorem connected_consume {n : Nat} (h : p.consume n = .ok q) : q.connected = p.connected := by
  unfold consume at h
  split at h
  · cases h; rfl
  · split at h
    · cases h; rfl
    · cases h

theorem closed_consume {n : Nat} (h : p.consume n = .ok q) : q.closed = p.closed := by
  unfold consume at h
  split at h
  · cases h; rfl
  · split at h
    · cases h; rfl
    · cases h

theorem exists_consume {n : Nat} (h : n ≤ p.items) : ∃ q, p.consume n = .ok q := by
  by_cases hn : n = 0
  · exact ⟨p, if_pos hn⟩
  · exact ⟨_, consume_ok hn h⟩

/-- What an event does to an inlet: the record may grow, and the reader stays where it is. -/
theorem Holds.meet (h : p.Holds r) {e : Event α τ} {s : Record α τ}
    (hq : p.meet r e = .ok (q, s)) :
    q.Holds s ∧ q.width = p.width ∧ q.read = p.read ∧
      (s = r ∨ ∃ data tags, e = .push data tags ∧ s = r.append p.width data tags) := by
  cases e with
  | close =>
    cases hq
    exact ⟨h.close, rfl, rfl, .inl rfl⟩
  | push data tags =>
    simp only [Inlet.meet] at hq
    split at hq
    next hp =>
      cases hq
      have hHolds := h.push hp
      obtain ⟨-, rfl⟩ := push_eq_ok hp
      exact ⟨hHolds, rfl, rfl, .inr ⟨data, tags, rfl, rfl⟩⟩
    · cases hq; exact ⟨h, rfl, rfl, .inl rfl⟩
    · cases hq

/-- The tags that have arrived by an event are still there after it. -/
theorem Holds.tags_subset (h : p.Holds r) {e : Event α τ} {s : Record α τ}
    (hq : p.meet r e = .ok (q, s)) : r.tags ⊆ s.tags := by
  obtain ⟨-, -, -, rfl | ⟨data, tags, -, rfl⟩⟩ := h.meet hq
  · exact List.Subset.refl _
  · exact List.subset_append_left _ _

/-- What arrives is behind the consumed items, and leaves their tags as they are. -/
theorem Holds.consumed_tags (h : p.Holds r) {e : Event α τ} {s : Record α τ}
    (hq : p.meet r e = .ok (q, s)) :
    s.tags.filter (·.index < p.read) = r.tags.filter (·.index < p.read) := by
  obtain ⟨-, -, -, rfl | ⟨data, tags, -, rfl⟩⟩ := h.meet hq
  · rfl
  · refine Record.filter_tags_append (fun t ht => ?_) data tags
    exact Nat.lt_of_lt_of_le (of_decide_eq_true ht) h.read_le_items

/-- No event takes items away. -/
theorem Holds.items_le_meet (h : p.Holds r) {e : Event α τ} {s : Record α τ}
    (hq : p.meet r e = .ok (q, s)) : p.items ≤ q.items := by
  obtain ⟨hholds, hwidth, hread, hrecord⟩ := h.meet hq
  rw [h.items_eq, hholds.items_eq, hwidth, hread]
  refine Nat.sub_le_sub_right (Nat.div_le_div_right ?_) _
  rcases hrecord with rfl | ⟨data, tags, -, rfl⟩
  · exact Nat.le_refl _
  · exact r.length_le_append p.width data tags

/-- The most recent tag on items that are at hand stays the most recent. -/
theorem Holds.latest?_meet (h : p.Holds r) {e : Event α τ} {s : Record α τ}
    (hq : p.meet r e = .ok (q, s)) {first last : Nat} (hfirst : p.read ≤ first)
    (hlast : last ≤ p.read + p.items) (key : String) :
    q.latest? first last key = p.latest? first last key := by
  obtain ⟨hholds, -, hread, hrecord⟩ := h.meet hq
  rw [latest?, hholds.tagsBetween_eq (hread ▸ hfirst), latest?, h.tagsBetween_eq hfirst]
  rcases hrecord with rfl | ⟨data, tags, -, rfl⟩
  · rfl
  · rw [Record.filter_tags_append]
    intro t ht
    simp only [Bool.and_eq_true, decide_eq_true_eq] at ht
    have hitems := h.items_eq
    have hread := h.read_le_items
    omega

end Inlet

/-! ### Outlets -/

namespace Outlet

/-- What the outside does to an outlet. -/
inductive Event where
  | reserve (n : Nat)
  | take

/-- An outlet and the record of what was taken, after an event. -/
def meet (p : Outlet α τ) (r : Record α τ) : Event → Except Fault (Outlet α τ × Record α τ)
  | .reserve n => do return (← p.reserve n, r)
  | .take => do
    let ((data, tags), q) ← p.take
    return (q, r.append p.width data tags)

/-- Everything that was produced: what was taken, and what lies in the outlet. -/
def total (p : Outlet α τ) (r : Record α τ) : Record α τ where
  data := r.data ++ p.produced.toList
  tags := r.tags ++ p.tags.toList

/-- The record is what was taken from the outlet, and every tag sits on a produced item. -/
structure Gave (p : Outlet α τ) (r : Record α τ) : Prop where
  /-- The record has the items that were taken. -/
  taken : r.data.length = p.taken * p.width
  /-- What was produced and not taken is made of whole items. -/
  whole : p.width ∣ p.produced.size
  /-- A tag that was not taken sits on an item that was produced and not taken. -/
  settled : ∀ t ∈ p.tags.toList, p.taken ≤ t.index ∧ t.index < p.written

variable {p q : Outlet α τ} {r : Record α τ}

/-- An outlet that nobody has used yet. -/
theorem gave_fresh (hp : p.produced.toList = []) (ht : p.tags.toList = []) (hn : p.taken = 0) :
    p.Gave {} := by
  refine ⟨by simp [hn], by simp [p.produced.size_eq_length, hp], by simp [ht]⟩

/-- Producing what was just written to the front of the room. -/
theorem produce_written [Inhabited α] {tags : AppendList (Tag τ)} {data : List α}
    (hw : p.width ∣ data.length) (hf : data.length ≤ p.free.size) :
    ({ p with free := p.free.overwrite data hf, tags } : Outlet α τ).produce
        (data.length / p.width) =
      .ok { p with produced := p.produced.append data, free := p.free.drop data.length, tags } := by
  have hback : data.length / p.width * p.width = data.length := Nat.div_mul_cancel hw
  by_cases hn : data.length / p.width = 0
  · obtain rfl : data = [] := List.eq_nil_of_length_eq_zero (by rw [← hback, hn, Nat.zero_mul])
    simp [produce, Space.overwrite, Space.drop, AppendList.append]
  · have hroom : data.length / p.width ≤ (p.free.overwrite data hf).size / p.width :=
      Nat.div_le_div_right hf
    simp only [produce, hn, ↓reduceIte, room, hroom, hback, Space.take_overwrite,
      Space.drop_overwrite]

/-- Tags and whole items can be put exactly if there is room, and go behind what is there. -/
theorem put_attachAll_eq_ok_iff [Inhabited α] {tags : List (Tag τ)} {data : List α} :
    (p.attachAll tags).put data = .ok q ↔
      p.width ∣ data.length ∧ data.length ≤ p.free.size ∧
        q = { p with
          produced := p.produced.append data
          free := p.free.drop data.length
          tags := p.tags.append tags } := by
  constructor
  · intro h
    have hw : p.width ∣ data.length := by
      by_contra hw
      have : data.length % p.width ≠ 0 := fun h0 => hw (Nat.dvd_of_mod_eq_zero h0)
      simp [put, attachAll, this] at h
    have hf : data.length ≤ p.free.size := by
      by_contra hf
      simp [put, attachAll, overwrite, hf, bind, Except.bind] at h
    simp only [put, attachAll, Nat.mod_eq_zero_of_dvd hw, ↓reduceIte, overwrite, hf, ↓reduceDIte,
      bind, Except.bind] at h
    rw [produce_written hw hf] at h
    cases h
    exact ⟨hw, hf, rfl⟩
  · rintro ⟨hw, hf, rfl⟩
    have hroom : data.length ≤ (p.attachAll tags).free.size := hf
    simp only [put, attachAll, Nat.mod_eq_zero_of_dvd hw, ↓reduceIte, overwrite, hf, ↓reduceDIte,
      bind, Except.bind]
    exact produce_written hw hf

theorem exists_put [Inhabited α] {data : List α} (hlen : data.length = p.width)
    (hroom : p.room ≠ 0) : ∃ q, p.put data = .ok q := by
  refine ⟨_, put_ok (n := 1) Nat.one_ne_zero (by rw [hlen, Nat.one_mul]) ?_⟩
  exact Nat.one_le_iff_ne_zero.2 hroom

/-- Whole items that there is room for can be put, with any tags. -/
theorem exists_put_items [Inhabited α] (tags : List (Tag τ)) (data : List α)
    (hw : p.width ∣ data.length) (hroom : data.length / p.width ≤ p.room) :
    ∃ q, (p.attachAll tags).put data = .ok q := by
  refine ⟨_, put_attachAll_eq_ok_iff.2 ⟨hw, ?_, rfl⟩⟩
  rw [← Nat.div_mul_cancel hw]
  exact (Nat.le_div_iff_mul_le p.width_pos).1 hroom

/-- Tags that are put go behind those that are there. -/
theorem tags_total_put [Inhabited α] {tags : List (Tag τ)} {data : List α}
    (h : (p.attachAll tags).put data = .ok q) :
    (q.total r).tags = (p.total r).tags ++ tags := by
  obtain ⟨-, -, rfl⟩ := put_attachAll_eq_ok_iff.1 h
  simp [total]

/-- What is put takes up room. -/
theorem room_put [Inhabited α] (tags : List (Tag τ)) {data : List α}
    (h : (p.attachAll tags).put data = .ok q) : q.room = p.room - data.length / p.width := by
  obtain ⟨⟨n, hn⟩, -, rfl⟩ := put_attachAll_eq_ok_iff.1 h
  show (p.free.size - data.length) / p.width = p.free.size / p.width - data.length / p.width
  rw [hn, Nat.mul_div_cancel_left _ p.width_pos, Nat.sub_mul_div]

/-- What is put counts as written. -/
theorem written_put [Inhabited α] (tags : List (Tag τ)) {data : List α}
    (h : (p.attachAll tags).put data = .ok q) :
    q.written = p.written + data.length / p.width := by
  obtain ⟨⟨n, hn⟩, -, rfl⟩ := put_attachAll_eq_ok_iff.1 h
  show p.taken + (p.produced.size + data.length) / p.width =
    p.taken + p.produced.size / p.width + data.length / p.width
  rw [hn, Nat.mul_div_cancel_left _ p.width_pos, Nat.add_mul_div_left _ _ p.width_pos,
    Nat.add_assoc]

/-- What putting one item does to the counters. -/
theorem counts_put [Inhabited α] {data : List α} (hdata : data.length = p.width)
    (h : p.put data = .ok q) :
    q.width = p.width ∧ q.written = p.written + 1 ∧ q.room + 1 = p.room := by
  have hcount : data.length / p.width = 1 := by rw [hdata, Nat.div_self p.width_pos]
  have hput : (p.attachAll []).put data = .ok q := h
  have hwritten := written_put [] hput
  have hleft := room_put [] hput
  obtain ⟨-, hfits, rfl⟩ := put_attachAll_eq_ok_iff.1 hput
  have hroom : 1 ≤ p.room := hcount ▸ Nat.div_le_div_right hfits
  rw [hcount] at hwritten hleft
  exact ⟨rfl, hwritten, by rw [hleft, Nat.sub_add_cancel hroom]⟩

/-- Whole items that there is room for can be put, and this is what it does to the counters. -/
theorem exists_put_counts [Inhabited α] (tags : List (Tag τ)) {data : List α} {n : Nat}
    (hdata : data.length = n * p.width) (hroom : n ≤ p.room) :
    ∃ q, (p.attachAll tags).put data = .ok q ∧ q.written = p.written + n ∧ q.room + n = p.room := by
  have hcount : data.length / p.width = n := by
    rw [hdata, Nat.mul_div_cancel _ p.width_pos]
  obtain ⟨q, hq⟩ := exists_put_items tags data (hdata ▸ Nat.dvd_mul_left _ _) (hcount ▸ hroom)
  refine ⟨q, hq, hcount ▸ written_put tags hq, ?_⟩
  rw [room_put tags hq, hcount, Nat.sub_add_cancel hroom]

namespace Gave

theorem written_eq (h : p.Gave r) : p.written = (p.total r).data.length / p.width := by
  obtain ⟨n, hn⟩ := h.whole
  simp only [written, total, List.length_append, h.taken, ← p.produced.size_eq_length, hn]
  rw [Nat.mul_div_cancel_left _ p.width_pos, Nat.mul_comm p.taken, ← Nat.mul_add,
    Nat.mul_div_cancel_left _ p.width_pos]

/-- Items and tags on them that are put to the outlet are added to everything produced. -/
theorem emit [Inhabited α] (h : p.Gave r) (tags : List (Tag τ)) {data : List α}
    (ht : ∀ t ∈ tags, p.written ≤ t.index ∧ t.index < p.written + data.length / p.width)
    (hq : (p.attachAll tags).put data = .ok q) :
    q.Gave r ∧ q.width = p.width ∧ q.written = p.written + data.length / p.width ∧
      q.total r = ⟨(p.total r).data ++ data, (p.total r).tags ++ tags⟩ := by
  have hwritten := written_put tags hq
  obtain ⟨hw, -, rfl⟩ := put_attachAll_eq_ok_iff.1 hq
  refine ⟨⟨h.taken, Nat.dvd_add h.whole hw, fun t hmem => ?_⟩, rfl, hwritten, ?_⟩
  · have hplace : p.taken ≤ t.index ∧ t.index < p.written + data.length / p.width := by
      rcases List.mem_append.1 (by simpa using hmem) with hold | hnew
      · have hplace := h.settled t hold
        exact ⟨hplace.1, Nat.lt_add_right _ hplace.2⟩
      · have hplace := ht t hnew
        exact ⟨Nat.le_trans (Nat.le_add_right _ _) hplace.1, hplace.2⟩
    exact ⟨hplace.1, Nat.lt_of_lt_of_eq hplace.2 hwritten.symm⟩
  · simp [total]

theorem put [Inhabited α] (h : p.Gave r) {data : List α} (hq : p.put data = .ok q) :
    q.Gave r ∧ q.width = p.width ∧ q.written = p.written + data.length / p.width ∧
      q.total r = ⟨(p.total r).data ++ data, (p.total r).tags⟩ := by
  have htotal := h.emit [] (by simp) hq
  rwa [List.append_nil] at htotal

/-- A reader changes nothing about what was produced. -/
theorem meet (h : p.Gave r) {e : Event} {s : Record α τ} (hq : p.meet r e = .ok (q, s)) :
    q.Gave s ∧ q.width = p.width ∧ q.total s = p.total r := by
  cases e with
  | reserve n =>
    simp only [Outlet.meet, Outlet.reserve, Fault.bind_eq_ok_iff, Fault.pure_eq_ok_iff] at hq
    obtain ⟨_, ⟨_, -, rfl⟩, hq⟩ := hq
    cases hq
    exact ⟨⟨h.taken, h.whole, h.settled⟩, rfl, rfl⟩
  | take =>
    have hall : p.tags.toList.filter (fun t => decide (t.index < p.written)) = p.tags.toList :=
      List.filter_eq_self.2 fun t ht => decide_eq_true (h.settled t ht).2
    have hnone : p.tags.toList.filter (fun t => decide (p.written ≤ t.index)) = [] :=
      List.filter_eq_nil_iff.2 fun t ht => by
        have := (h.settled t ht).2
        simp only [decide_eq_true_eq]; omega
    have hbase : p.tags.toList.all (fun t => decide (p.taken ≤ t.index)) = true :=
      List.all_eq_true.2 fun t ht => decide_eq_true (h.settled t ht).1
    simp only [Outlet.meet, Outlet.take, Outlet.peek, bind, Except.bind, pure, Except.pure,
      hall, hbase, ↓reduceIte, Tag.since_eq_filter, hnone] at hq
    cases hq
    obtain ⟨n, hn⟩ := h.whole
    have hw : p.written = p.taken + n := by
      rw [written, hn, Nat.mul_div_cancel_left _ p.width_pos]
    refine ⟨⟨?_, ?_, ?_⟩, rfl, ?_⟩
    · simp only [Record.append, List.length_append, h.taken, ← p.produced.size_eq_length, hn, hw]
      rw [Nat.add_mul, Nat.mul_comm p.width n]
    · simp [AppendList.empty, AppendList.ofList]
    · simp
    · -- a taken tag is counted from the first taken item, and the record counts it back
      have hback : (p.tags.toList.map fun t => { t with index := t.index - p.taken }).map
          (·.later (r.data.length / p.width)) = p.tags.toList := by
        rw [List.map_map, h.taken, Nat.mul_div_cancel _ p.width_pos]
        refine (List.map_congr_left fun t ht => ?_).trans (List.map_id _)
        have := (h.settled t ht).1
        simp only [Function.comp, Tag.later, id, Nat.sub_add_cancel this]
      simp only [total, Record.append, hback, AppendList.toList_ofList, AppendList.empty,
        List.append_nil]

end Gave

/-- Whoever asks for room listens. -/
theorem connected_reserve {n : Nat} {s : Record α τ} (hq : p.meet r (.reserve n) = .ok (q, s)) :
    q.connected = true := by
  obtain ⟨_, hreserve, h⟩ := Fault.exists_of_bind_pure hq
  cases h
  obtain ⟨_, -, rfl⟩ := Fault.exists_of_bind_pure hreserve
  rfl

/-- Whoever listens goes on listening. -/
theorem connected_meet {e : Event} {s : Record α τ} (hq : p.meet r e = .ok (q, s))
    (h : p.connected = true) : q.connected = true := by
  cases e with
  | reserve n => exact connected_reserve hq
  | take =>
    obtain ⟨_, htake, heq⟩ := Fault.exists_of_bind_pure hq
    cases heq
    obtain ⟨_, -, heq⟩ := Fault.exists_of_bind_pure htake
    cases heq
    exact h

end Outlet

end OfdmBurst
