import OfdmBurst.Proofs.Stream.Transport

/-!
# The tags of a stream over its whole history

An inlet stores tags by their index of the stream and answers two questions about them: which tags
with a key lie on a stretch of items, and which of these is the most recent. Both answers are read
off a list that was cut and extended many times. Here they are stated against the history alone.

A history lists what was done to an inlet from both of its sides. What was accepted of it makes a
`Record`, and what was consumed of it a number, and nothing else of the history matters: not when an
item was consumed, not in which pieces it arrived, and not what was refused in between.

## What is not assumed

A tag may lie beyond the data it came with, and the tags of a piece need not be in the order of
their indices. They are kept in the order in which they were pushed, and that order decides between
tags on one item.

## Main definitions

* `Tag.IsLatest` — the last of the tags with the highest index
* `Inlet.Use`, `Inlet.run` — what is done to an inlet, and a history of it
* `Inlet.passed`, `Inlet.consumed` — what a history amounts to
* `Inlet.Orderly` — no more is consumed than has arrived, and indices stay machine words

## Main results

* `Tag.latest?_eq_some_iff` — the most recent tag of a list
* `Inlet.Holds.use`, `Inlet.Holds.exists_use_iff` — one step of a history
* `Inlet.push_append`, `Inlet.push_pieces` — a push in pieces
* `Inlet.answers_from_history` — what is stored, and what is answered
-/

namespace OfdmBurst

variable {α τ : Type}

/-! ### The most recent tag -/

namespace Tag

theorem later_later (t : Tag τ) (n k : Nat) : (t.later n).later k = t.later (n + k) := by
  simp [later, Nat.add_assoc]

/-- The tag is the last of those with the highest index. -/
def IsLatest (tags : List (Tag τ)) (t : Tag τ) : Prop :=
  ∃ before after, tags = before ++ t :: after ∧
    (∀ u ∈ before, u.index ≤ t.index) ∧ ∀ u ∈ after, u.index < t.index

variable {tags : List (Tag τ)} {t : Tag τ}

theorem newer_of_le {best : Option (Tag τ)} (h : ∀ u ∈ best, u.index ≤ t.index) :
    newer best t = some t := by
  cases best with
  | none => rfl
  | some u => simp [newer, h u rfl]

theorem foldl_newer_of_lt {after : List (Tag τ)} (h : ∀ u ∈ after, u.index < t.index) :
    after.foldl newer (some t) = some t := by
  induction after with
  | nil => rfl
  | cons u rest ih =>
    have hu : newer (some t) u = some t := by simp [newer, h u List.mem_cons_self]
    rw [List.foldl_cons, hu]
    exact ih fun v hv => h v (List.mem_cons_of_mem _ hv)

theorem isLatest_of_latest? (h : latest? tags = some t) : IsLatest tags t := by
  induction tags using List.reverseRecOn with
  | nil => cases h
  | append_singleton tags u ih =>
    rw [latest?_concat] at h
    by_cases hu : newer (latest? tags) u = some u
    · -- the last tag is the most recent
      obtain rfl : u = t := by simpa [hu] using h
      refine ⟨tags, [], rfl, fun v hv => ?_, by simp⟩
      cases hbest : latest? tags with
      | none => simp [latest?_eq_none hbest] at hv
      | some b =>
        have hle : v.index ≤ b.index := index_le_of_latest? hbest hv
        have hb : ¬ u.index < b.index := by
          intro hlt
          simp only [hbest, newer, hlt, ↓reduceIte, Option.some.injEq] at hu
          subst hu
          exact Nat.lt_irrefl _ hlt
        omega
    · -- an earlier one stays the most recent
      cases hbest : latest? tags with
      | none => simp [hbest, newer] at hu
      | some b =>
        rw [hbest] at h hu
        have hlt : u.index < b.index := by
          by_contra hle
          simp [newer, hle] at hu
        obtain rfl : b = t := by simpa [newer, hlt] using h
        obtain ⟨before, after, rfl, hbefore, hafter⟩ := ih hbest
        refine ⟨before, after ++ [u], by simp, hbefore, ?_⟩
        simpa [or_imp, forall_and] using ⟨hafter, hlt⟩

/-- **The most recent tag of a list** is the last of those with the highest index. -/
theorem latest?_eq_some_iff : latest? tags = some t ↔ IsLatest tags t := by
  constructor
  · exact isLatest_of_latest?
  · rintro ⟨before, after, rfl, hbefore, hafter⟩
    have hfirst : newer (latest? before) t = some t :=
      newer_of_le fun u hu => hbefore u (latest?_mem hu)
    calc latest? (before ++ t :: after)
        = after.foldl newer (newer (latest? before) t) := by simp [latest?]
      _ = some t := by rw [hfirst, foldl_newer_of_lt hafter]

theorem latest?_eq_none_iff : latest? tags = none ↔ tags = [] := by
  constructor
  · exact latest?_eq_none
  · rintro rfl
    rfl

end Tag

/-! ### Records in pieces -/

namespace Record

theorem dvd_length_append {r : Record α τ} {width : Nat} {data : List α}
    (hr : width ∣ r.data.length) (hdata : width ∣ data.length) (tags : List (Tag τ)) :
    width ∣ (r.append width data tags).data.length := by
  rw [append, List.length_append]
  exact Nat.dvd_add hr hdata

theorem dvd_length_appendAll {width : Nat} {pieces : List (List α × List (Tag τ))}
    (h : ∀ piece ∈ pieces, width ∣ piece.1.length) :
    width ∣ (({} : Record α τ).appendAll width pieces).data.length := by
  induction pieces using List.reverseRecOn with
  | nil => exact Nat.dvd_zero _
  | append_singleton pieces piece ih =>
    obtain ⟨hpieces, hpiece⟩ := List.forall_mem_append.1 h
    rw [appendAll_concat]
    exact dvd_length_append (ih hpieces) (hpiece piece (List.mem_singleton_self _)) _

end Record

/-! ### Histories -/

namespace Inlet

/-- What is done to an inlet. -/
inductive Use (α τ : Type) where
  | push (data : List α) (tags : List (Tag τ))
  | consume (n : Nat)

/-- What is accepted of a use: a piece that is made of whole items. -/
def Use.piece (width : Nat) : Use α τ → Option (List α × List (Tag τ))
  | .push data tags => if width ∣ data.length then some (data, tags) else none
  | .consume _ => none

/-- How many items a use consumes. -/
def Use.amount : Use α τ → Nat
  | .push _ _ => 0
  | .consume n => n

/-- Everything that was accepted in a history, with every tag at its index of the stream: the number
of items accepted before it was pushed, and its index in its piece. -/
def passed (width : Nat) (uses : List (Use α τ)) : Record α τ :=
  ({} : Record α τ).appendAll width (uses.filterMap (Use.piece width))

/-- How many items were consumed in a history. -/
def consumed (uses : List (Use α τ)) : Nat := (uses.map Use.amount).sum

/-- What an inlet answers after `arrived` items were accepted and `read` of them consumed. Items can
only be consumed if they are there, and an accepted tag has an index that is a machine word. -/
def Use.Fits (width arrived read : Nat) : Use α τ → Prop
  | .push data tags => width ∣ data.length → ∀ t ∈ tags, t.index + arrived < wordLimit
  | .consume n => read + n ≤ arrived

/-- A history in which every use fits what was done before it. -/
def Orderly (width : Nat) (uses : List (Use α τ)) : Prop :=
  ∀ before u after, uses = before ++ u :: after →
    u.Fits width ((passed width before).data.length / width) (consumed before)

/-- An inlet after a use. Data that do not make up whole items are refused, and that is not the end
of the history. -/
def use (p : Inlet α τ) : Use α τ → Except Fault (Inlet α τ)
  | .push data tags =>
    match p.push data tags with
    | .error (.terminal _) => .ok p
    | answer => answer
  | .consume n => p.consume n

/-- An inlet after a history. -/
def run (p : Inlet α τ) (uses : List (Use α τ)) : Except Fault (Inlet α τ) := uses.foldlM use p

variable {width : Nat} {uses : List (Use α τ)} {u : Use α τ}

theorem passed_concat (width : Nat) (uses : List (Use α τ)) (u : Use α τ) :
    passed width (uses ++ [u]) = match u.piece width with
      | some piece => (passed width uses).append width piece.1 piece.2
      | none => passed width uses := by
  cases h : u.piece width with
  | none => simp [passed, h]
  | some piece => simp [passed, h, Record.appendAll_concat]

theorem consumed_concat (uses : List (Use α τ)) (u : Use α τ) :
    consumed (uses ++ [u]) = consumed uses + u.amount := by
  simp [consumed]

theorem orderly_nil : Orderly width ([] : List (Use α τ)) := by
  intro before u after h
  simp at h

theorem orderly_concat : Orderly width (uses ++ [u]) ↔ Orderly width uses ∧
    u.Fits width ((passed width uses).data.length / width) (consumed uses) := by
  constructor
  · intro h
    refine ⟨fun before v after hsplit => ?_, h uses u [] rfl⟩
    exact h before v (after ++ [u]) (by simp [hsplit])
  · rintro ⟨huses, hu⟩ before v after hsplit
    cases after using List.reverseRecOn with
    | nil =>
      obtain ⟨rfl, rfl⟩ := List.append_singleton_inj.1 hsplit
      exact hu
    | append_singleton after w =>
      rw [← List.cons_append, ← List.append_assoc] at hsplit
      exact huses before v after (List.append_singleton_inj.1 hsplit).1

/-! ### One use -/

variable {p q : Inlet α τ} {r : Record α τ}

/-- Data that do not make up whole items are refused. -/
theorem push_refused {data : List α} (h : ¬ p.width ∣ data.length) (tags : List (Tag τ)) :
    p.push data tags = .error (.terminal (.partialItem data.length p.width)) := by
  have hrest : data.length % p.width ≠ 0 := fun h0 => h (Nat.dvd_of_mod_eq_zero h0)
  simp [push, hrest]

/-- An inlet with more items behind those it has. -/
def accept (p : Inlet α τ) (data : List α) (tags : List (Tag τ)) : Inlet α τ :=
  { p with
    buffer := p.buffer.append data
    tags := p.tags ++ tags.map (·.later (p.read + p.items))
    connected := true }

/-- The indices of the tags, once they are at their place in the stream, are machine words. -/
def Indexes (p : Inlet α τ) (tags : List (Tag τ)) : Prop :=
  ∀ t ∈ tags, t.index + (p.read + p.items) < wordLimit

theorem push_accepted {data : List α} {tags : List (Tag τ)} (h : p.width ∣ data.length)
    (htags : p.Indexes tags) : p.push data tags = .ok (p.accept data tags) := by
  have hall : ∀ t ∈ tags, t.index + (p.read + p.items) < wordLimit := htags
  simpa [push, accept, Nat.mod_eq_zero_of_dvd h] using hall

theorem push_overflows {data : List α} {tags : List (Tag τ)} (h : p.width ∣ data.length)
    (htags : ¬ p.Indexes tags) : p.push data tags = .error .overflow := by
  have hall : ¬ ∀ t ∈ tags, t.index + (p.read + p.items) < wordLimit := htags
  simpa [push, Nat.mod_eq_zero_of_dvd h] using hall

theorem use_refused {data : List α} (h : ¬ p.width ∣ data.length) (tags : List (Tag τ)) :
    p.use (.push data tags) = .ok p := by
  simp [use, push_refused h]

theorem use_whole {data : List α} (h : p.width ∣ data.length) (tags : List (Tag τ)) :
    p.use (.push data tags) = p.push data tags := by
  by_cases htags : p.Indexes tags
  · simp [use, push_accepted h htags]
  · simp [use, push_overflows h htags]

/-- Exactly the uses that fit are answered. -/
theorem Holds.exists_use_iff (h : p.Holds r) :
    (∃ q, p.use u = .ok q) ↔ u.Fits p.width (r.data.length / p.width) p.read := by
  have hoffset : p.read + p.items = r.data.length / p.width := by
    rw [h.items_eq]
    exact Nat.add_sub_cancel' h.read_le_items
  cases u with
  | consume n =>
    rw [Use.Fits, ← hoffset, Nat.add_le_add_iff_left]
    constructor
    · rintro ⟨q, hq⟩
      by_contra hn
      have hne : n ≠ 0 := by omega
      simp [Inlet.use, Inlet.consume, hn, hne] at hq
    · exact exists_consume
  | push data tags =>
    by_cases hwhole : p.width ∣ data.length
    · rw [use_whole hwhole, Use.Fits, imp_iff_right hwhole, ← hoffset]
      constructor
      · rintro ⟨q, hq⟩
        by_contra htags
        rw [push_overflows hwhole htags] at hq
        cases hq
      · exact fun htags => ⟨_, push_accepted hwhole htags⟩
    · simp [use_refused hwhole, Use.Fits, hwhole]

/-- **One use**: what is accepted goes behind the record, and the reader moves. -/
theorem Holds.use (h : p.Holds r) (hq : p.use u = .ok q) :
    q.Holds (match u.piece p.width with
      | some piece => r.append p.width piece.1 piece.2
      | none => r) ∧ q.width = p.width ∧ q.read = p.read + u.amount := by
  cases u with
  | consume n => exact ⟨h.consume hq, (consume_frame hq).1, (consume_frame hq).2⟩
  | push data tags =>
    by_cases hwhole : p.width ∣ data.length
    · rw [use_whole hwhole] at hq
      have hholds := h.push hq
      obtain ⟨-, rfl⟩ := push_eq_ok hq
      simpa [Use.piece, hwhole, Use.amount] using hholds
    · rw [use_refused hwhole] at hq
      cases hq
      simpa [Use.piece, hwhole, Use.amount] using h

/-! ### A push in pieces -/

variable {data data' : List α}

/-- The next item of the stream, after more has been accepted. -/
theorem next_accept (h : p.width ∣ data.length) (tags : List (Tag τ)) :
    (p.accept data tags).read + (p.accept data tags).items =
      data.length / p.width + (p.read + p.items) := by
  have hitems : (p.accept data tags).items = p.items + data.length / p.width :=
    Nat.add_div_of_dvd_left h
  have hread : (p.accept data tags).read = p.read := rfl
  omega

theorem accept_accept (h : p.width ∣ data.length) (tags tags' : List (Tag τ)) :
    (p.accept data tags).accept data' tags' =
      p.accept (data ++ data') (tags ++ tags'.map (·.later (data.length / p.width))) := by
  have hbuffer : (p.buffer.append data).append data' = p.buffer.append (data ++ data') :=
    SizedList.eq_of_toList (by simp)
  have htags : p.tags ++ tags.map (·.later (p.read + p.items)) ++
      tags'.map (·.later (data.length / p.width + (p.read + p.items))) = p.tags ++
        (tags ++ tags'.map (·.later (data.length / p.width))).map
          (·.later (p.read + p.items)) := by
    simp [Function.comp_def, Tag.later_later]
  rw [accept, next_accept h]
  simp only [accept, hbuffer, htags]

/-- Two pieces, the tags of the second counted from its own first item. -/
theorem push_append (h : p.width ∣ data.length) (h' : p.width ∣ data'.length)
    (tags tags' : List (Tag τ)) :
    p.push (data ++ data') (tags ++ tags'.map (·.later (data.length / p.width))) =
      p.push data tags >>= fun q => q.push data' tags' := by
  have hboth : p.width ∣ (data ++ data').length := by
    rw [List.length_append]
    exact Nat.dvd_add h h'
  have hwidth : (p.accept data tags).width ∣ data'.length := h'
  have hsecond : p.Indexes (tags'.map (·.later (data.length / p.width))) ↔
      (p.accept data tags).Indexes tags' := by
    simp only [Indexes, next_accept h, List.forall_mem_map, Tag.later, Nat.add_assoc]
  have hall : p.Indexes (tags ++ tags'.map (·.later (data.length / p.width))) ↔
      p.Indexes tags ∧ (p.accept data tags).Indexes tags' := by
    rw [← hsecond]
    exact List.forall_mem_append
  by_cases hfirst : p.Indexes tags
  · rw [push_accepted h hfirst]
    show _ = (p.accept data tags).push data' tags'
    by_cases hrest : (p.accept data tags).Indexes tags'
    · rw [push_accepted hboth (hall.2 ⟨hfirst, hrest⟩), push_accepted hwidth hrest,
        accept_accept h]
    · rw [push_overflows hboth fun hboth => hrest (hall.1 hboth).2, push_overflows hwidth hrest]
  · -- the first piece overflows, and so does the whole
    rw [push_overflows hboth fun hboth => hfirst (hall.1 hboth).1, push_overflows h hfirst]
    rfl

/-- **A push in pieces does what the whole push does**, if every piece is made of whole items and
its tags are counted from its own first item. -/
theorem push_pieces {pieces : List (List α × List (Tag τ))} (hne : pieces ≠ [])
    (hwhole : ∀ piece ∈ pieces, p.width ∣ piece.1.length) :
    pieces.foldlM (fun q piece => q.push piece.1 piece.2) p =
      p.push (({} : Record α τ).appendAll p.width pieces).data
        (({} : Record α τ).appendAll p.width pieces).tags := by
  -- from the end, because that is where a record grows
  induction pieces using List.reverseRecOn with
  | nil => exact absurd rfl hne
  | append_singleton pieces piece ih =>
    obtain ⟨hpieces, hpiece⟩ := List.forall_mem_append.1 hwhole
    rw [Record.appendAll_concat, List.foldlM_append]
    by_cases hfirst : pieces = []
    · subst hfirst
      simp [Record.appendAll_nil, Record.append, Tag.later]
    · rw [ih hfirst hpieces]
      have hboth := push_append (Record.dvd_length_appendAll hpieces)
        (hpiece piece (List.mem_singleton_self _))
        (({} : Record α τ).appendAll p.width pieces).tags piece.2
      simpa [Record.append] using hboth.symm

/-! ### The answers -/

section Answers

variable {name : String} {start : Inlet α τ}

theorem holds_ofWidth (h : ofWidth name width = .ok start) :
    start.Holds {} ∧ start.width = width ∧ start.read = 0 := by
  simp only [ofWidth] at h
  split at h
  · cases h
    exact ⟨holds_fresh rfl rfl rfl, rfl, rfl⟩
  · cases h

/-- **What a history leaves behind.** -/
theorem holds_run (hstart : ofWidth name width = .ok start) (h : start.run uses = .ok p) :
    p.Holds (passed width uses) ∧ p.width = width ∧ p.read = consumed uses := by
  induction uses using List.reverseRecOn generalizing p with
  | nil =>
    cases h
    exact holds_ofWidth hstart
  | append_singleton uses u ih =>
    obtain ⟨q, hq, hu⟩ := Fault.foldlM_concat_eq_ok_iff.1 h
    obtain ⟨hholds, rfl, hread⟩ := ih hq
    obtain ⟨hholds', hwidth, hread'⟩ := hholds.use hu
    rw [passed_concat, consumed_concat, ← hread]
    exact ⟨hholds', hwidth, hread'⟩

/-- **The orderly histories are those that an inlet answers.** -/
theorem exists_run_iff (hstart : ofWidth name width = .ok start) :
    (∃ p, start.run uses = .ok p) ↔ Orderly width uses := by
  induction uses using List.reverseRecOn with
  | nil => exact iff_of_true ⟨start, rfl⟩ orderly_nil
  | append_singleton uses u ih =>
    rw [orderly_concat, ← ih]
    constructor
    · rintro ⟨q, hq⟩
      obtain ⟨p, hp, hu⟩ := Fault.foldlM_concat_eq_ok_iff.1 hq
      obtain ⟨hholds, rfl, hread⟩ := holds_run hstart hp
      rw [← hread]
      exact ⟨⟨p, hp⟩, hholds.exists_use_iff.1 ⟨q, hu⟩⟩
    · rintro ⟨⟨p, hp⟩, hfits⟩
      obtain ⟨hholds, rfl, hread⟩ := holds_run hstart hp
      rw [← hread] at hfits
      obtain ⟨q, hq⟩ := hholds.exists_use_iff.2 hfits
      exact ⟨q, Fault.foldlM_concat hp hq⟩

/-- The tags on a stretch of the stream that are not consumed yet. -/
theorem Holds.tagsBetween_eq_max (h : p.Holds r) (first last : Nat) (key : String) :
    p.tagsBetween first last key = r.tags.filter fun t =>
      max first p.read ≤ t.index && t.index < last && t.key == key := by
  rw [tagsBetween, h.tags, List.filter_filter]
  refine List.filter_congr fun t _ => ?_
  by_cases hfirst : first ≤ t.index <;> by_cases hread : p.read ≤ t.index <;>
    simp [hfirst, hread]

/-- **What is stored and what is answered follow from the history.** The orderly histories are those
that are answered. Data that do not make up whole items are refused at any time and change nothing.
The buffer is what was accepted without what was consumed, and no tag of a consumed item is stored.

A question for tags is answered from all tags that were ever accepted, in the order in which they
were pushed, without those of consumed items. The most recent of them is the last of those with the
highest index, and it is missing only if there are none. A push that is split into several, with the
tags of each piece counted from its own first item, leads to the same inlet, and so to the same
answers now and later. -/
theorem answers_from_history (hstart : ofWidth name width = .ok start) :
    ((∃ p, start.run uses = .ok p) ↔ Orderly width uses) ∧
    ∀ p, start.run uses = .ok p →
      (∀ data tags, ¬ width ∣ data.length →
        p.push data tags = .error (.terminal (.partialItem data.length width)) ∧
          p.use (.push data tags) = .ok p) ∧
      p.read = consumed uses ∧
      p.buffer.toList = (passed width uses).data.drop (p.read * width) ∧
      (∀ t ∈ p.tags, p.read ≤ t.index) ∧
      (∀ first last key,
        p.tagsBetween first last key = (passed width uses).tags.filter (fun t =>
          max first p.read ≤ t.index && t.index < last && t.key == key) ∧
        (∀ t, p.latest? first last key = some t ↔
          Tag.IsLatest (p.tagsBetween first last key) t) ∧
        (p.latest? first last key = none ↔ p.tagsBetween first last key = [])) ∧
      ∀ pieces data tags, pieces ≠ [] → (∀ piece ∈ pieces, width ∣ piece.1.length) →
        ({} : Record α τ).appendAll width pieces = ⟨data, tags⟩ →
        pieces.foldlM (fun q piece => q.push piece.1 piece.2) p = p.push data tags := by
  refine ⟨exists_run_iff hstart, fun p hrun => ?_⟩
  obtain ⟨hholds, rfl, hread⟩ := holds_run hstart hrun
  refine ⟨fun data tags hpart => ⟨push_refused hpart tags, use_refused hpart tags⟩, hread,
    hholds.buffer, fun t ht => ?_, fun first last key => ⟨?_, fun t => ?_, ?_⟩, ?_⟩
  · rw [hholds.tags] at ht
    exact of_decide_eq_true (List.mem_filter.1 ht).2
  · exact hholds.tagsBetween_eq_max first last key
  · exact Tag.latest?_eq_some_iff
  · exact Tag.latest?_eq_none_iff
  · intro pieces data tags hne hwhole htogether
    rw [push_pieces hne hwhole, htogether]

end Answers

/-- A tag that says nothing but where it was made. -/
def mark (index : Nat) (source : String) : Tag Nat :=
  { index, key := "x", value := .flag, source := some source }

/-- Items of two scalars. The first piece has a tag beyond its items, the second is refused, and the
third has tags out of order, one of them on the item of the first piece's. -/
def overlapping : List (Use Nat Nat) :=
  [.push [1, 2, 3, 4] [mark 1 "a", mark 3 "b"], .push [5, 6, 7] [mark 0 "c"], .consume 1,
    .push [8, 9, 10, 11] [mark 1 "d", mark 0 "e"], .consume 1]

theorem answers_from_history_overlapping :
    ∃ start p, ofWidth "in" 2 = .ok start ∧ start.run overlapping = .ok p ∧
      p.push [5, 6, 7] [] = .error (.terminal (.partialItem 3 2)) ∧
      p.buffer.toList = [8, 9, 10, 11] ∧
      p.tagsBetween 0 9 "x" = [mark 3 "b", mark 3 "d", mark 2 "e"] ∧
      p.latest? 0 9 "x" = some (mark 3 "d") ∧
      [([12, 13], [mark 0 "f"]), ([14, 15], [mark 0 "g"])].foldlM
          (fun q piece => q.push piece.1 piece.2) p =
        p.push [12, 13, 14, 15] [mark 0 "f", mark 1 "g"] := by
  obtain ⟨-, hrun⟩ :=
    @answers_from_history Nat Nat 2 overlapping "in" _ rfl
  obtain ⟨hrefused, -, hbuffer, -, htags, hpieces⟩ := hrun _ rfl
  obtain ⟨hbetween, hlatest, -⟩ := htags 0 9 "x"
  refine ⟨_, _, rfl, rfl, (hrefused [5, 6, 7] [] (by decide)).1, hbuffer, hbetween,
    (hlatest _).2 ⟨[mark 3 "b"], [mark 2 "e"], hbetween, ?_, ?_⟩,
    hpieces _ _ _ (by simp) (by simp) rfl⟩
  · simp [mark]
  · simp [mark]

end Inlet

end OfdmBurst
