import OfdmBurst.Proofs.PreambleInserter.Emission

/-!
# Why a call of an inserter ends

A walk is a loop with two counters, the symbols it has used and the emissions it has made, and it
goes on while both are below their limits. Three of its moves touch neither counter. They follow the
circle of phases: from waiting for a burst to the preamble, and from the end of the preamble to the
symbol that started the burst, which is still there. The circle closes only through the first
payload, which counts on both sides. So the symbols that are left and the room that is left, each
counted threefold, and the rank of the phase decrease together at every move.

This holds from any phase, also from one that no inserter gets into, such as a place behind the end
of the preamble, and for any filling of the terminals.

## Main definitions

* `Course`, `Stand` — what a walk goes along, and how far it has come
* `Course.move`, `Course.after` — one move, and several
* `Course.measure` — what decreases
* `AnyState` — an inserter in any phase, with anything in its terminals

## Main results

* `Course.move_cases` — what a move does
* `Course.after_measure`, `Course.exists_end` — every walk ends
* `Course.finish_eq` — where it ends is where `advance` ends
* `work_ends` — a call of work ends, at one of the two limits
-/

namespace OfdmBurst

namespace PreambleInserter

variable {α τ : Type}

/-- What a walk goes along: symbols, and room for what is emitted. -/
structure Course (α τ : Type) where
  preamble : List (List α)
  source : String
  slots : List (Slot α τ)
  room : Nat

/-- How far a walk has come. -/
structure Stand (α τ : Type) where
  phase : Phase
  used : Nat := 0
  emitted : List (Emission α τ) := []

namespace Course

variable {c : Course α τ} {s t : Stand α τ}

/-- One move of the loop, which ends without symbols or without room. -/
def move (c : Course α τ) (s : Stand α τ) : Option (Stand α τ) :=
  match c.slots[s.used]? with
  | none => none
  | some slot =>
    if s.emitted.length < c.room then
      match s.phase with
      | .idle =>
        if slot.starts then some { s with phase := .preamble 0 }
        else some { s with used := s.used + 1 }
      | .preamble n =>
        match c.preamble[n]? with
        | none => some { s with phase := .firstPayload }
        | some symbol =>
          some { s with
            phase := .preamble (n + 1)
            emitted := s.emitted ++ [announced c.source slot n symbol] }
      | .firstPayload =>
        some { phase := .payload, used := s.used + 1, emitted := s.emitted ++ [passed slot] }
      | .payload =>
        if slot.starts then some { s with phase := .preamble 0 }
        else some { s with used := s.used + 1, emitted := s.emitted ++ [passed slot] }
    else none

/-- Where `n` moves lead, if the loop makes so many. -/
def after (c : Course α τ) : Nat → Stand α τ → Option (Stand α τ)
  | 0, s => some s
  | n + 1, s => (c.move s).bind (c.after n)

/-- Neither counter is beyond its limit. -/
structure Within (c : Course α τ) (s : Stand α τ) : Prop where
  used_le : s.used ≤ c.slots.length
  emitted_le : s.emitted.length ≤ c.room

/-- What is left to use and to fill, three for each, and the rank of the phase. -/
def measure (c : Course α τ) (s : Stand α τ) : Nat :=
  3 * (c.slots.length - s.used + (c.room - s.emitted.length)) + s.phase.rank

/-- Everything that a move in front of the symbol `slot` can do. -/
inductive Moved (c : Course α τ) (s : Stand α τ) (slot : Slot α τ) : Stand α τ → Prop
  /-- A burst starts with the symbol, which stays. -/
  | opens (waits : s.phase = .idle ∨ s.phase = .payload) (starts : slot.starts = true) :
      Moved c s slot { s with phase := .preamble 0 }
  /-- A symbol before the first burst is dropped. -/
  | drops (idle : s.phase = .idle) (starts : slot.starts = false) :
      Moved c s slot { s with used := s.used + 1 }
  /-- A symbol of the preamble goes out. -/
  | announces {n : Nat} {symbol : List α} (opened : s.phase = .preamble n)
      (found : c.preamble[n]? = some symbol) :
      Moved c s slot { s with
        phase := .preamble (n + 1)
        emitted := s.emitted ++ [announced c.source slot n symbol] }
  /-- The preamble is over. -/
  | closes {n : Nat} (opened : s.phase = .preamble n) (found : c.preamble[n]? = none) :
      Moved c s slot { s with phase := .firstPayload }
  /-- The symbol goes out. -/
  | passes (sends : s.phase = .firstPayload ∨ s.phase = .payload ∧ slot.starts = false) :
      Moved c s slot
        { phase := .payload, used := s.used + 1, emitted := s.emitted ++ [passed slot] }

/-- **What a move does.** -/
theorem move_cases (h : c.move s = some t) :
    ∃ slot, c.slots[s.used]? = some slot ∧ s.emitted.length < c.room ∧ Moved c s slot t := by
  rw [move] at h
  split at h
  · cases h
  next slot hslot =>
    split at h
    next hroom =>
      refine ⟨slot, hslot, hroom, ?_⟩
      split at h
      next hidle =>
        split at h
        next hstarts => cases h; exact .opens (.inl hidle) hstarts
        next hstarts => cases h; exact .drops hidle (eq_false_of_ne_true hstarts)
      next n hopened =>
        split at h
        next hfound => cases h; exact .closes hopened hfound
        next symbol hfound => cases h; exact .announces hopened hfound
      next hfirst => cases h; exact .passes (.inl hfirst)
      next hpayload =>
        split at h
        next hstarts => cases h; exact .opens (.inr hpayload) hstarts
        next hstarts =>
          cases h
          rw [hpayload]
          exact .passes (.inr ⟨hpayload, eq_false_of_ne_true hstarts⟩)
    · cases h

/-- The loop ends at one of its limits. -/
theorem move_eq_none_iff (h : c.Within s) :
    c.move s = none ↔ s.used = c.slots.length ∨ s.emitted.length = c.room := by
  have hused := h.used_le
  have hemitted := h.emitted_le
  rw [move]
  split
  next hslot =>
    have hlast := List.getElem?_eq_none_iff.1 hslot
    exact ⟨fun _ => .inl (by omega), fun _ => rfl⟩
  next slot hslot =>
    obtain ⟨hlt, -⟩ := List.getElem?_eq_some_iff.1 hslot
    split
    next hroom =>
      refine ⟨fun hnone => ?_, fun hlimit => by omega⟩
      grind
    next hroom => exact ⟨fun _ => .inr (by omega), fun _ => rfl⟩

/-- **Every move decreases the measure** and stays within the limits. -/
theorem move_measure (h : c.move s = some t) (hs : c.Within s) :
    c.Within t ∧ c.measure t < c.measure s := by
  obtain ⟨slot, hslot, hroom, hmoved⟩ := move_cases h
  obtain ⟨hlt, -⟩ := List.getElem?_eq_some_iff.1 hslot
  obtain ⟨hused, hemitted⟩ := hs
  rw [measure, measure]
  cases hmoved with
  | opens waits starts =>
    refine ⟨⟨hused, hemitted⟩, ?_⟩
    rcases waits with hphase | hphase
    · simp only [hphase, Phase.rank]; omega
    · simp only [hphase, Phase.rank]; omega
  | drops idle starts =>
    refine ⟨⟨hlt, hemitted⟩, ?_⟩
    show 3 * (c.slots.length - (s.used + 1) + (c.room - s.emitted.length)) + s.phase.rank < _
    omega
  | announces opened found =>
    refine ⟨⟨hused, ?_⟩, ?_⟩
    · simp only [List.length_append, List.length_singleton]; omega
    · simp only [opened, Phase.rank, List.length_append, List.length_singleton]; omega
  | closes opened found =>
    refine ⟨⟨hused, hemitted⟩, ?_⟩
    simp only [opened, Phase.rank]; omega
  | passes sends =>
    refine ⟨⟨hlt, ?_⟩, ?_⟩
    · simp only [List.length_append, List.length_singleton]; omega
    · simp only [Phase.rank, List.length_append, List.length_singleton]; omega

/-- So no walk has more moves than its measure. -/
theorem after_measure {n : Nat} (h : c.after n s = some t) (hs : c.Within s) :
    c.Within t ∧ n + c.measure t ≤ c.measure s := by
  induction n generalizing s with
  | zero =>
    cases h
    exact ⟨hs, by omega⟩
  | succ n ih =>
    obtain ⟨next, hmove, hafter⟩ := Option.bind_eq_some_iff.1 h
    obtain ⟨hnext, hless⟩ := move_measure hmove hs
    obtain ⟨ht, hle⟩ := ih hafter hnext
    exact ⟨ht, by omega⟩

/-- **Every walk ends.** -/
theorem exists_end (hs : c.Within s) : ∃ n t, c.after n s = some t ∧ c.move t = none := by
  induction hn : c.measure s using Nat.strongRecOn generalizing s with
  | ind n ih =>
    cases hmove : c.move s with
    | none => exact ⟨0, s, rfl, hmove⟩
    | some next =>
      obtain ⟨hnext, hless⟩ := move_measure hmove hs
      obtain ⟨k, t, hafter, hend⟩ := ih _ (hn ▸ hless) hnext rfl
      exact ⟨k + 1, t, Option.bind_eq_some_iff.2 ⟨next, hmove, hafter⟩, hend⟩

/-! ### The walk as a whole -/

/-- How far `advance` comes from a place. -/
def finish (c : Course α τ) (s : Stand α τ) : Stand α τ :=
  let walk := advance c.preamble c.source s.phase (c.slots.drop s.used) (c.room - s.emitted.length)
  { phase := walk.phase
    used := c.slots.length - walk.rest.length
    emitted := s.emitted ++ walk.emitted }

/-- A move does not change where the walk ends. -/
theorem finish_of_move (h : c.move s = some t) : c.finish t = c.finish s := by
  obtain ⟨slot, hslot, hroom, hmoved⟩ := move_cases h
  obtain ⟨hlt, hget⟩ := List.getElem?_eq_some_iff.1 hslot
  have hdrop : c.slots.drop s.used = slot :: c.slots.drop (s.used + 1) := by
    rw [List.drop_eq_getElem_cons hlt, hget]
  obtain ⟨room, hleft⟩ : ∃ room, c.room - s.emitted.length = room + 1 :=
    ⟨c.room - s.emitted.length - 1, by omega⟩
  have hless : ∀ e : Emission α τ, c.room - (s.emitted ++ [e]).length = room := fun e => by
    rw [List.length_append, List.length_singleton]
    omega
  simp only [finish, hdrop, hleft]
  cases hmoved with
  | opens waits starts =>
    simp only [hdrop, hleft]
    rcases waits with hphase | hphase
    · rw [hphase, advance.eq_def c.preamble c.source .idle]
      simp only [starts, ↓reduceIte]
    · rw [hphase, advance.eq_def c.preamble c.source .payload]
      simp only [starts, ↓reduceIte]
  | drops idle starts =>
    simp only [hleft]
    rw [idle, advance.eq_def c.preamble c.source .idle (slot :: _)]
    simp only [starts, Bool.false_eq_true, ↓reduceIte]
  | announces opened found =>
    simp only [hdrop, hless]
    rw [opened, advance.eq_def c.preamble c.source (.preamble _) (slot :: _) (room + 1)]
    simp only [found, Walk.after, List.append_assoc, List.singleton_append]
  | closes opened found =>
    simp only [hdrop, hleft]
    rw [opened, advance.eq_def c.preamble c.source (.preamble _) (slot :: _) (room + 1)]
    simp only [found]
  | passes sends =>
    simp only [hless]
    rcases sends with hphase | ⟨hphase, starts⟩
    · rw [hphase, advance.eq_def c.preamble c.source .firstPayload]
      simp only [Walk.after, List.append_assoc, List.singleton_append]
    · rw [hphase, advance.eq_def c.preamble c.source .payload (slot :: _)]
      simp only [starts, Bool.false_eq_true, ↓reduceIte, Walk.after, List.append_assoc,
        List.singleton_append]

/-- At the end nothing is left to do. -/
theorem finish_of_end (hs : c.Within s) (h : c.move s = none) : c.finish s = s := by
  have hused := hs.used_le
  have hwalk : advance c.preamble c.source s.phase (c.slots.drop s.used)
      (c.room - s.emitted.length) = { phase := s.phase, rest := c.slots.drop s.used } := by
    rcases (move_eq_none_iff hs).1 h with hlimit | hlimit
    · rw [hlimit, List.drop_length, advance]
    · rw [hlimit, Nat.sub_self]
      cases c.slots.drop s.used with
      | nil => rw [advance]
      | cons slot rest => rw [advance]
  rw [finish, hwalk, List.length_drop, List.append_nil, Nat.sub_sub_self hused]

/-- **Where the moves end, `advance` ends.** -/
theorem finish_eq {n : Nat} (hs : c.Within s) (h : c.after n s = some t) (hend : c.move t = none) :
    c.finish s = t := by
  induction n generalizing s with
  | zero =>
    cases h
    exact finish_of_end hs hend
  | succ n ih =>
    obtain ⟨next, hmove, hafter⟩ := Option.bind_eq_some_iff.1 h
    rw [← finish_of_move hmove]
    exact ih (move_measure hmove hs).1 hafter

end Course

/-! ### A call of work -/

/-- An inserter like `made`, in any phase and with anything in its terminals. -/
structure AnyState (made b : PreambleInserter α τ) : Prop where
  preamble_eq : b.preamble = made.preamble
  length_eq : b.length = made.length
  input_width : b.input.width = made.input.width
  starts_width : b.starts.width = made.starts.width
  auxIn_width : b.auxIn.width = made.auxIn.width
  output_width : b.output.width = made.output.width
  flags_width : b.flags.width = made.flags.width
  auxOut_width : b.auxOut.width = made.auxOut.width

/-- The symbols that a call of work looks at, whatever lies in the terminals. -/
theorem exists_slots {b : PreambleInserter α τ} (hstarts : b.starts.width = 1)
    (hauxIn : b.auxIn.width = 1) :
    ∃ slots, b.slots = .ok slots ∧ slots.length = b.ready ∧
      ∀ x ∈ slots, x.symbol.length = b.input.width := by
  obtain ⟨symbols, hsymbols, hcount, hlengths⟩ :=
    Inlet.exists_items (p := b.input) (n := b.ready) (Nat.min_le_left _ _)
  have hbytes : b.ready ≤ b.starts.buffer.toList.length ∧
      b.ready ≤ b.auxIn.buffer.toList.length := by
    rw [ready, Inlet.items, Inlet.items, Inlet.items, hstarts, hauxIn, Nat.div_one, Nat.div_one,
      b.starts.buffer.size_eq, b.auxIn.buffer.size_eq]
    omega
  refine ⟨_, by rw [slots, hsymbols]; rfl, ?_, fun x hx => ?_⟩
  · rw [List.length_map, List.length_zip, List.length_zip, List.length_zip, hcount,
      Array.length_toList, Inlet.firstTags, Tag.size_byItem]
    omega
  · obtain ⟨⟨symbol, _⟩, hmem, rfl⟩ := List.mem_map.1 hx
    exact hlengths _ (List.of_mem_zip hmem).1

/-- What a call of work goes along. -/
def course (b : PreambleInserter α τ) (source : String) (slots : List (Slot α τ)) : Course α τ where
  preamble := b.preamble
  source := source
  slots := slots
  room := b.room

/-- Where a call of work begins. -/
def outset (b : PreambleInserter α τ) : Stand α τ := { phase := b.phase }

section Call

variable {made b : PreambleInserter α τ} {source : String} {slots : List (Slot α τ)}

theorem within_outset : (b.course source slots).Within b.outset := ⟨Nat.zero_le _, Nat.zero_le _⟩

theorem measure_outset :
    (b.course source slots).measure b.outset ≤ 3 * (slots.length + b.room) + 2 := by
  have hrank : b.phase.rank ≤ 2 := by cases b.phase <;> simp [Phase.rank]
  exact Nat.add_le_add_left hrank _

theorem finish_outset : (b.course source slots).finish b.outset =
    { phase := (advance b.preamble source b.phase slots b.room).phase
      used := slots.length - (advance b.preamble source b.phase slots b.room).rest.length
      emitted := (advance b.preamble source b.phase slots b.room).emitted } := rfl

/-- **A call of work ends**, from every phase and with anything in the terminals. Its loop goes
along the symbols at hand and makes at most three moves for every symbol and every place, and two
more. It never uses more symbols than there are nor fills more places than there are, and it stops
with one of the two used up. As many items as it has used are then consumed from every inlet, and as
many as it has emitted are produced on every outlet. -/
theorem work_ends [Inhabited α] {length : Nat} {preamble : List (List α)}
    (h : ofPreamble length preamble = .ok made) (hstate : AnyState made b) (source : String) :
    ∃ slots, b.slots = .ok slots ∧ slots.length = b.ready ∧
      (∀ n t, (b.course source slots).after n b.outset = some t →
        t.used ≤ b.ready ∧ t.emitted.length ≤ b.room ∧ n ≤ 3 * (b.ready + b.room) + 2) ∧
      ∃ n t, (b.course source slots).after n b.outset = some t ∧
        (b.course source slots).move t = none ∧
        (t.emitted.length = b.room ∨ t.used = b.ready) ∧
        ∃ d finished, b.work source = .ok (d, finished) ∧ d.phase = t.phase ∧
          Advanced b d t.used t.emitted.length := by
  obtain ⟨hmade, -, -⟩ := Session.sound_start h source
  obtain ⟨slots, hslots, hcount, hlengths⟩ := exists_slots
    (hstate.starts_width.trans hmade.starts_width) (hstate.auxIn_width.trans hmade.auxIn_width)
  rw [hstate.input_width.trans (hmade.input_width.trans hstate.length_eq.symm)] at hlengths
  obtain ⟨d, finished, hwork, hphase, hprogress⟩ := exists_work hslots hcount hlengths
    (hstate.output_width.trans (hmade.output_width.trans hstate.length_eq.symm))
    (hstate.flags_width.trans hmade.flags_width) (hstate.auxOut_width.trans hmade.auxOut_width)
    source
  have hwithin : (b.course source slots).Within b.outset := within_outset
  have hmeasure : (b.course source slots).measure b.outset ≤ 3 * (b.ready + b.room) + 2 :=
    hcount ▸ measure_outset
  refine ⟨slots, hslots, hcount, fun n t hafter => ?_, ?_⟩
  · obtain ⟨⟨hused, hemitted⟩, hle⟩ := Course.after_measure hafter hwithin
    exact ⟨hcount ▸ hused, hemitted, by omega⟩
  · obtain ⟨n, t, hafter, hend⟩ := Course.exists_end hwithin
    have hlimit := (Course.move_eq_none_iff (Course.after_measure hafter hwithin).1).1 hend
    refine ⟨n, t, hafter, hend, ?_, d, finished, hwork, ?_⟩
    · exact hlimit.symm.imp id fun hused => hused.trans hcount
    · rw [← Course.finish_eq hwithin hafter hend, finish_outset, hcount]
      exact ⟨hphase, hprogress⟩

/-- An inserter in a phase that none gets into, with two symbols, of which the second starts a
burst, and room for three. -/
def overrun (b : PreambleInserter Nat Nat) : PreambleInserter Nat Nat :=
  { b with
    phase := .preamble 5
    input := { b.input with buffer := .ofList [1, 2] }
    starts := { b.starts with buffer := .ofList [0, 1] }
    auxIn := { b.auxIn with buffer := .ofList [0, 0] }
    output := { b.output with free := Space.empty.resize 3 }
    flags := { b.flags with free := Space.empty.resize 3 }
    auxOut := { b.auxOut with free := Space.empty.resize 3 } }

theorem work_ends_behind_preamble :
    ∃ made : PreambleInserter Nat Nat, ofPreamble 1 [[7], [8]] = .ok made ∧
      AnyState made (overrun made) ∧ (overrun made).ready = 2 ∧ (overrun made).room = 3 ∧
      ∃ d finished, (overrun made).work "inserter" = .ok (d, finished) ∧
        (d.ready = 0 ∨ d.room = 0) := by
  obtain ⟨made, hmade, hfilled⟩ := Fault.exists_ok_of_any (x := ofPreamble 1 [[7], [8]])
    (p := fun made : PreambleInserter Nat Nat =>
      decide ((overrun made).ready = 2 ∧ (overrun made).room = 3))
    (by decide +kernel)
  obtain ⟨hready, hroom⟩ := of_decide_eq_true hfilled
  have hstate : AnyState made (overrun made) := ⟨rfl, rfl, rfl, rfl, rfl, rfl, rfl, rfl⟩
  obtain ⟨-, -, -, -, n, t, -, -, hlimit, d, finished, hwork, -, hadvanced⟩ :=
    work_ends hmade hstate "inserter"
  refine ⟨made, hmade, hstate, hready, hroom, d, finished, hwork, ?_⟩
  have hleft := hadvanced.ready_add
  have hplaces := hadvanced.room_add
  rcases hlimit with hlimit | hlimit
  · exact .inr (by omega)
  · exact .inl (by omega)

end Call

end PreambleInserter

end OfdmBurst
