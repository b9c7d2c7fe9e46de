import OfdmBurst.Proofs.FourierBlock.Run

/-!
# What a Fourier block emits

A Fourier block is a map over the symbols of its stream. A session has emitted one symbol for every
symbol it consumed, made of that symbol alone, and the tags of a symbol are on it as they came. How
the symbols were cut into pieces, and how many of them a call of work took at once, makes no
difference.

## Main definitions

* `Session.Sound` — the invariant

## Main results

* `Session.exists_sound` — every session of a block with any plan is sound
* `Session.Sound.work_returns` — a call of work returns, and goes as far as it can
-/

namespace OfdmBurst

namespace FourierBlock

/-- What building a block checks, and what is built. -/
theorem withPlan_eq_ok_iff {length : Nat} {domain : Domain} {shifted : Bool}
    {gain : Option Float32} {plan : Plan length} {b : FourierBlock} :
    withPlan length domain shifted gain plan = .ok b ↔
      ∃ hpos : 0 < length, b =
        { input := { name := "in", width := length, width_pos := hpos }
          output := { name := "out", width := length, width_pos := hpos }
          length, domain, shifted, gain, plan } := by
  rw [withPlan, Inlet.ofWidth, Outlet.ofWidth]
  by_cases hpos : 0 < length
  · rw [dif_pos hpos, dif_pos hpos]
    constructor
    · intro h
      cases h
      exact ⟨hpos, rfl⟩
    · rintro ⟨-, rfl⟩
      rfl
  · rw [dif_neg hpos]
    exact ⟨fun h => (nomatch h), fun ⟨h, _⟩ => absurd h hpos⟩

theorem length_of_withPlan {length : Nat} {domain : Domain} {shifted : Bool} {gain : Option Float32}
    {plan : Plan length} {b : FourierBlock}
    (h : withPlan length domain shifted gain plan = .ok b) : b.length = length := by
  obtain ⟨-, rfl⟩ := withPlan_eq_ok_iff.1 h
  rfl

/-- A block turns a symbol into one of the same length. -/
theorem length_symbol (b : FourierBlock) {xs : List Sample} (h : xs.length = b.length) :
    (b.symbol xs).length = b.length := by
  have hrotated : ∀ {p : Prop} [Decidable p] (ys : List Sample),
      (if p then Fourier.rotated ys else ys).length = ys.length := fun ys => by
    split
    · exact Fourier.length_rotated ys
    · rfl
  rw [symbol]
  split
  · rw [List.length_map, hrotated, b.plan.length_apply _ ((hrotated xs).trans h)]
  · rw [hrotated, b.plan.length_apply _ ((hrotated xs).trans h)]

namespace Session

/-- **The invariant of a session** of a block like `made`. -/
structure Sound (made : FourierBlock) (s : Session) : Prop where
  /-- Only the terminals have changed. -/
  frame : s.block = { made with input := s.block.input, output := s.block.output }
  /-- Symbols are consumed whole. -/
  input_width : s.block.input.width = made.length
  /-- Symbols are put out whole. -/
  output_width : s.block.output.width = made.length
  /-- The inlet holds what is left of its record. -/
  input : s.block.input.Holds s.input
  /-- The record of the outlet is what was taken of it. -/
  output : s.block.output.Gave s.output
  /-- The samples put out are the symbols consumed, each transformed. -/
  data_eq : s.emitted.data =
    (s.input.firstItems made.length s.block.input.read).flatMap made.symbol
  /-- A symbol that was put out has the tags of the symbol it was made of. -/
  tags_on : ∀ i, s.emitted.tags.filter (·.index == i) =
    if i < s.block.input.read then s.input.tags.filter (·.index == i) else []

/-- The next call of work returns. -/
def Works (s : Session) : Prop := ∃ d finished, s.block.work = .ok (d, finished)

variable {made : FourierBlock} {s : Session}

namespace Sound

theorem feedInput (h : s.Sound made) {p : Inlet Sample Float} {r : Record Sample Float}
    {e : Inlet.Event Sample Float} (he : s.block.input.meet s.input e = .ok (p, r)) :
    ({ s with block := { s.block with input := p }, input := r } : Session).Sound made := by
  obtain ⟨hp, hwidth, hread, hrecord⟩ := h.input.meet he
  have hle : s.block.input.read * made.length ≤ s.input.data.length :=
    h.input_width ▸ h.input.read_le
  refine
    { frame := congrArg (fun b : FourierBlock => { b with input := p }) h.frame
      input_width := hwidth.trans h.input_width
      output_width := h.output_width
      input := hp
      output := h.output
      data_eq := ?_
      tags_on := fun i => ?_ }
  · refine h.data_eq.trans ?_
    rw [hread]
    rcases hrecord with rfl | ⟨data, tags, -, rfl⟩
    · rfl
    · rw [h.input_width, Record.firstItems_append hle]
  · refine (h.tags_on i).trans ?_
    rw [hread]
    split
    next hi =>
      have hold := Nat.lt_of_lt_of_le hi h.input.read_le_items
      rcases hrecord with rfl | ⟨data, tags, -, rfl⟩
      · rfl
      · exact (Record.filter_tags_append (fun t ht => beq_iff_eq.1 ht ▸ hold) data tags).symm
    · rfl

theorem readOutput (h : s.Sound made) {p : Outlet Sample Float} {r : Record Sample Float}
    {e : Outlet.Event} (he : s.block.output.meet s.output e = .ok (p, r)) :
    ({ s with block := { s.block with output := p }, output := r } : Session).Sound made := by
  obtain ⟨hp, hwidth, htotal⟩ := h.output.meet he
  exact
    { frame := congrArg (fun b : FourierBlock => { b with output := p }) h.frame
      input_width := h.input_width
      output_width := hwidth.trans h.output_width
      input := h.input
      output := hp
      data_eq := (congrArg Record.data htotal).trans h.data_eq
      tags_on := fun i => by rw [← h.tags_on i, emitted, emitted, htotal] }

/-! ### A call of work -/

theorem length_pos (h : s.Sound made) : 0 < made.length := h.input_width ▸ s.block.input.width_pos

theorem symbol_eq (h : s.Sound made) : s.block.symbol = made.symbol := by
  rw [h.frame]
  rfl

/-- A symbol has been emitted for every symbol that was consumed. -/
theorem length_emitted (h : s.Sound made) :
    s.emitted.data.length = s.block.input.read * made.length := by
  have hle : s.block.input.read * made.length ≤ s.input.data.length :=
    h.input_width ▸ h.input.read_le
  rw [h.data_eq, length_flatMap_of_length
    fun x hx => made.length_symbol (Record.length_of_mem_firstItems hle x hx),
    Record.length_firstItems]

/-- The symbols that were consumed of a stream are those that went out, transformed. -/
theorem emitted_of_stream (h : s.Sound made) {xs : List (List Sample)}
    (hxs : ∀ x ∈ xs, x.length = made.length) (hdata : s.input.data <+: xs.flatten) :
    s.emitted.data = (xs.take s.block.input.read).flatMap made.symbol := by
  rw [h.data_eq, Record.firstItems_of_stream h.length_pos hxs hdata
    (h.input_width ▸ h.input.read_le)]

theorem written_eq (h : s.Sound made) : s.block.output.written = s.block.input.read := by
  rw [h.output.written_eq, h.output_width]
  exact h.length_emitted ▸ Nat.mul_div_cancel _ h.length_pos

/-- The symbols that a call of work takes are the next ones. -/
theorem firstItems_eq (h : s.Sound made) :
    ∃ symbols, s.block.input.firstItems s.block.ready = .ok symbols ∧
      (symbols.flatMap made.symbol).length = s.block.ready * made.length ∧
      s.input.firstItems made.length (s.block.input.read + s.block.ready) =
        s.input.firstItems made.length s.block.input.read ++ symbols := by
  obtain ⟨symbols, hsymbols, hcount, hlengths, hitems⟩ :=
    h.input.exists_firstItems (Nat.min_le_left _ s.block.output.room)
  rw [h.input_width] at hlengths hitems
  refine ⟨symbols, hsymbols, ?_, hitems⟩
  rw [length_flatMap_of_length fun x hx => made.length_symbol (hlengths x hx), hcount]
  rfl

/-- The tags of the symbols that a call of work takes stay at their place. -/
theorem movedTags_eq (h : s.Sound made) :
    s.block.movedTags s.block.ready = (s.input.tags.filter (s.block.input.read ≤ ·.index)).filter
      (·.index < s.block.input.read + s.block.ready) := by
  rw [movedTags, h.input.tags, h.written_eq]
  refine (List.map_congr_left fun t ht => ?_).trans (List.map_id _)
  have hread := (List.mem_filter.1 (List.mem_filter.1 ht).1).2
  rw [Nat.add_sub_cancel' (of_decide_eq_true hread)]
  rfl

/-- They are put to the outlet together with what the symbols have become. -/
theorem place_of_mem (h : s.Sound made) {t : Tag Float}
    (ht : t ∈ s.block.movedTags s.block.ready) :
    s.block.output.written ≤ t.index ∧ t.index < s.block.output.written + s.block.ready := by
  rw [h.movedTags_eq, List.mem_filter, List.mem_filter, decide_eq_true_iff,
    decide_eq_true_iff] at ht
  rw [h.written_eq]
  exact ⟨ht.1.2, ht.2⟩

/-- **A call of work transforms the next symbols.** -/
theorem work (h : s.Sound made) {d : FourierBlock} {finished : Bool}
    (hwork : s.block.work = .ok (d, finished)) : ({ s with block := d } : Session).Sound made := by
  obtain ⟨symbols, output, input, hsymbols, houtput, hinput, rfl, -⟩ := work_eq_ok_iff.1 hwork
  obtain ⟨symbols', hsymbols', hlength, hitems⟩ := h.firstItems_eq
  obtain rfl : symbols' = symbols := Except.ok.inj (hsymbols'.symm.trans hsymbols)
  rw [h.symbol_eq] at houtput
  have hcount : (symbols'.flatMap made.symbol).length / s.block.output.width = s.block.ready := by
    rw [hlength, h.output_width, Nat.mul_div_cancel _ h.length_pos]
  obtain ⟨hgave, hwidth, -, htotal⟩ := h.output.emit _
    (fun t ht => hcount.symm ▸ h.place_of_mem ht) houtput
  obtain ⟨hinputWidth, hread⟩ := Inlet.consume_frame hinput
  refine
    { frame := congrArg (fun b : FourierBlock => { b with input, output }) h.frame
      input_width := hinputWidth.trans h.input_width
      output_width := hwidth.trans h.output_width
      input := h.input.consume hinput
      output := hgave
      data_eq := ?_
      tags_on := fun i => ?_ }
  · refine (congrArg Record.data htotal).trans ?_
    rw [hread, hitems, List.flatMap_append, ← h.data_eq]
    rfl
  · refine (congrArg (fun r : Record Sample Float => r.tags.filter (·.index == i)) htotal).trans ?_
    show (s.emitted.tags ++ s.block.movedTags s.block.ready).filter (·.index == i) = _
    rw [List.filter_append, h.tags_on i, h.movedTags_eq, Tag.filter_window, hread]
    by_cases hold : i < s.block.input.read
    · rw [if_pos hold, if_neg (by omega), if_pos (by omega), List.append_nil]
    · by_cases hnew : i < s.block.input.read + s.block.ready
      · rw [if_neg hold, if_pos (by omega), if_pos hnew, List.nil_append]
      · rw [if_neg hold, if_neg (by omega), if_neg hnew, List.nil_append]

/-- **A call of work returns**, and then no symbol is left or there is no room for one. -/
theorem work_returns (h : s.Sound made) :
    ∃ d finished, s.block.work = .ok (d, finished) ∧ (d.input.items = 0 ∨ d.output.room = 0) := by
  obtain ⟨symbols, hsymbols, hlength, -⟩ := h.firstItems_eq
  have hcount : (symbols.flatMap made.symbol).length / s.block.output.width = s.block.ready := by
    rw [hlength, h.output_width, Nat.mul_div_cancel _ h.length_pos]
  have hinputLe : s.block.ready ≤ s.block.input.items := Nat.min_le_left _ _
  have hroomLe : s.block.ready ≤ s.block.output.room := Nat.min_le_right _ _
  obtain ⟨output, houtput⟩ := Outlet.exists_put_items (s.block.movedTags s.block.ready)
    (symbols.flatMap made.symbol) (by rw [h.output_width, hlength]; exact Nat.dvd_mul_left _ _)
    (hcount.symm ▸ hroomLe)
  obtain ⟨input, hinput⟩ := Inlet.exists_consume hinputLe
  refine ⟨_, _, work_eq_ok_iff.2 ⟨symbols, output, input, hsymbols, h.symbol_eq ▸ houtput, hinput,
    rfl, rfl⟩, ?_⟩
  show input.items = 0 ∨ output.room = 0
  rw [Inlet.items_consume hinput, Outlet.room_put _ houtput, hcount, ready]
  omega

/-- So it is never a fault. -/
theorem works (h : s.Sound made) : s.Works := by
  obtain ⟨d, finished, hwork, -⟩ := h.work_returns
  exact ⟨d, finished, hwork⟩

end Sound

/-! ### The whole session -/

theorem sound_start {length : Nat} {domain : Domain} {shifted : Bool} {gain : Option Float32}
    {plan : Plan length} (h : withPlan length domain shifted gain plan = .ok made) :
    (start made).Sound made := by
  obtain ⟨hpos, rfl⟩ := withPlan_eq_ok_iff.1 h
  exact
    { frame := rfl
      input_width := rfl
      output_width := rfl
      input := Inlet.holds_fresh rfl rfl rfl
      output := Outlet.gave_fresh rfl rfl rfl
      data_eq := rfl
      tags_on := fun i => rfl }

/-- **Every session is sound**, whatever its events. -/
theorem exists_sound {length : Nat} {domain : Domain} {shifted : Bool} {gain : Option Float32}
    {plan : Plan length} (h : withPlan length domain shifted gain plan = .ok made)
    {events : List Event} (hrun : (start made).run events = .ok s) : s.Sound made := by
  refine run_induct (P := fun s => s.Sound made) ?_ ?_ ?_ (sound_start h) hrun
  · exact fun s p r e h hmeet => h.feedInput hmeet
  · exact fun s p r e h hmeet => h.readOutput hmeet
  · exact fun s d finished h hwork => h.work hwork

end Session

end FourierBlock

end OfdmBurst
