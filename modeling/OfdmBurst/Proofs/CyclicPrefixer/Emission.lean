import OfdmBurst.Proofs.CyclicPrefixer.Run

/-!
# What a prefixer emits

A prefixer emits, for every symbol it consumed, a copy of the end of the symbol and then the symbol.
It does so symbol by symbol, so a session has emitted the extensions of the symbols consumed,
however they came in.

A tag of a symbol moves to the first sample of its extension. What else is on the samples are the
marks of burst ends, which have a key of their own.

The prefixes are assumed to be no longer than the symbols. A prefixer of longer prefixes can be
built, but its work does not return once there is a symbol to do.

## Main definitions

* `extension` — a symbol behind a copy of its end
* `Session.Sound` — the invariant

## Main results

* `exists_work` — a call of work returns, and what it does to the counters
* `Session.exists_sound` — every session is sound
* `Session.Sound.work_returns` — a call of work returns, and goes as far as it can
-/

namespace OfdmBurst

/-- A tag on the first of the `size` items that its item has become. -/
def Tag.scaled {τ : Type} (size : Nat) (t : Tag τ) : Tag τ := { t with index := t.index * size }

namespace CyclicPrefixer

variable {α τ : Type}

/-- A symbol behind a copy of its last `length` samples. -/
def extension (length : Nat) (symbol : List α) : List α :=
  symbol.drop (symbol.length - length) ++ symbol

theorem length_extension {length : Nat} {symbol : List α} (h : length ≤ symbol.length) :
    (extension length symbol).length = length + symbol.length := by
  rw [extension, List.length_append, List.length_drop]
  omega

/-- Symbols no shorter than the prefix can all be extended. -/
theorem mapM_extended {length : Nat} {symbols : List (List α)}
    (h : ∀ x ∈ symbols, length ≤ x.length) :
    symbols.mapM (extended length) = .ok (symbols.map (extension length)) := by
  induction symbols with
  | nil => rfl
  | cons x rest ih =>
    have hx : extended length x = .ok (extension length x) := if_pos (h x List.mem_cons_self)
    exact Fault.mapM_cons_eq_ok_iff.2
      ⟨_, _, hx, ih fun y hy => h y (List.mem_cons_of_mem _ hy), rfl⟩

theorem outputSize_pos (b : CyclicPrefixer α τ) : 0 < b.outputSize :=
  Nat.lt_of_lt_of_le b.input_pos b.input_le

/-- The marks are on the last samples of symbols, and have a key of their own. -/
theorem mem_marks {b : CyclicPrefixer α τ} {source : String} {n : Nat} {t : Tag τ}
    (hwidth : b.ends.width = 1) (h : t ∈ b.marks source n) :
    t.key = Tag.txEnd ∧ b.output.written ≤ t.index ∧
      t.index < b.output.written + n * b.outputSize := by
  have hpos := b.outputSize_pos
  rw [marks] at h
  split at h
  · obtain ⟨⟨byte, i⟩, hmem, rfl⟩ := List.mem_map.1 h
    have hi := (List.mem_zipIdx' (List.mem_filter.1 hmem).1).1
    rw [Inlet.front, List.length_take, hwidth, Nat.mul_one] at hi
    have hle : (i + 1) * b.outputSize ≤ n * b.outputSize := Nat.mul_le_mul_right _ (by omega)
    rw [Nat.succ_mul] at hle
    refine ⟨rfl, ?_, ?_⟩
    · simp only [Nat.succ_mul]
      omega
    · simp only [Nat.succ_mul]
      omega
  · cases h

/-- An extension has the length that the prefixer was built for. -/
theorem length_of_extension {b : CyclicPrefixer α τ} (hfits : b.prefixLength ≤ b.inputSize)
    {x : List α} (hx : x.length = b.inputSize) :
    (extension b.prefixLength x).length = b.outputSize := by
  have hle := b.input_le
  rw [length_extension (hx ▸ hfits), hx, prefixLength]
  omega

/-- Whole symbols are extended one by one. -/
theorem extended_eq {b : CyclicPrefixer α τ} (hfits : b.prefixLength ≤ b.inputSize)
    {symbols : List (List α)} (hlengths : ∀ x ∈ symbols, x.length = b.inputSize) :
    symbols.mapM (extended b.prefixLength) = .ok (symbols.map (extension b.prefixLength)) ∧
      (symbols.map (extension b.prefixLength)).flatten.length = symbols.length * b.outputSize := by
  refine ⟨mapM_extended fun x hx => (hlengths x hx).symm ▸ hfits, ?_⟩
  rw [← List.flatMap_def]
  exact length_flatMap_of_length fun x hx => length_of_extension hfits (hlengths x hx)

theorem ready_le (b : CyclicPrefixer α τ) :
    b.ready ≤ b.input.items ∧ b.ready ≤ b.output.room / b.outputSize ∧
      (b.ends.connected = true → b.ready ≤ b.ends.items) := by
  rw [ready]
  split
  next hends => exact ⟨by omega, by omega, fun _ => by omega⟩
  next hends => exact ⟨by omega, by omega, fun hyes => absurd hyes hends⟩

/-- What keeps a prefixer from taking more symbols. -/
theorem ready_stops (b : CyclicPrefixer α τ) :
    b.ready = b.input.items ∨ b.ready = b.output.room / b.outputSize ∨
      b.ends.connected = true ∧ b.ready = b.ends.items := by
  rw [ready]
  split
  next hends =>
    by_cases hfew : b.ends.items ≤ min b.input.items (b.output.room / b.outputSize)
    · exact .inr (.inr ⟨hends, by omega⟩)
    · omega
  next => omega

/-- **A call of work returns**, whatever lies in the terminals, and this is what it does to the
counters. -/
theorem exists_work [Inhabited α] {b : CyclicPrefixer α τ} (hfits : b.prefixLength ≤ b.inputSize)
    (hinput : b.input.width = b.inputSize) (houtput : b.output.width = 1) (source : String) :
    ∃ d finished, b.work source = .ok (d, finished) ∧
      d.input.items + b.ready = b.input.items ∧
      d.output.written = b.output.written + b.ready * b.outputSize ∧
      d.output.room + b.ready * b.outputSize = b.output.room ∧
      d.ends.connected = b.ends.connected ∧
      (b.ends.connected = true → d.ends.items + b.ready = b.ends.items) := by
  obtain ⟨hinputLe, hroomLe, hendsLe⟩ := ready_le b
  obtain ⟨symbols, hsymbols, hcount, hlengths⟩ := Inlet.exists_items hinputLe
  rw [hinput] at hlengths
  obtain ⟨hsamples, hdata⟩ := extended_eq hfits hlengths
  have hwhole : (symbols.map (extension b.prefixLength)).flatten.length =
      b.ready * b.outputSize * b.output.width := by
    rw [hdata, hcount, houtput, Nat.mul_one]
  obtain ⟨output, hput, hwritten, hroom⟩ := Outlet.exists_put_counts
    (b.movedTags b.ready ++ b.marks source b.ready) hwhole
    ((Nat.le_div_iff_mul_le b.outputSize_pos).1 hroomLe)
  obtain ⟨input, hconsume⟩ := Inlet.exists_consume hinputLe
  obtain ⟨ends, hends, hconnected, hendsItems⟩ : ∃ ends,
      (if b.ends.connected then b.ends.consume b.ready else .ok b.ends) = .ok ends ∧
        ends.connected = b.ends.connected ∧
        (b.ends.connected = true → ends.items + b.ready = b.ends.items) := by
    split
    next hyes =>
      obtain ⟨ends, hends⟩ := Inlet.exists_consume (hendsLe hyes)
      exact ⟨ends, hends, Inlet.connected_consume hends,
        fun _ => (Inlet.counts_consume (hendsLe hyes) hends).2⟩
    next hno => exact ⟨_, rfl, rfl, fun hyes => absurd hyes hno⟩
  exact ⟨_, _, work_eq_ok_iff.2 ⟨symbols, _, output, input, ends, hsymbols, hsamples, hput,
    hconsume, hends, rfl, rfl⟩, (Inlet.counts_consume hinputLe hconsume).2, hwritten, hroom, hconnected,
    hendsItems⟩

namespace Session

/-- A prefixer that nobody has used yet. -/
def start (b : CyclicPrefixer α τ) (source : String) : Session α τ := { prefixer := b, source }

/-- **The invariant of a session** of a prefixer like `made`. -/
structure Sound (made : CyclicPrefixer α τ) (s : Session α τ) : Prop where
  /-- The length of a symbol is the one the prefixer was built with. -/
  inputSize_eq : s.prefixer.inputSize = made.inputSize
  /-- So is the length with the prefix. -/
  outputSize_eq : s.prefixer.outputSize = made.outputSize
  /-- Symbols are consumed whole. -/
  input_width : s.prefixer.input.width = made.inputSize
  /-- Burst ends are consumed one by one. -/
  ends_width : s.prefixer.ends.width = 1
  /-- Samples are put out one by one. -/
  output_width : s.prefixer.output.width = 1
  /-- The inlet of the symbols holds what is left of its record. -/
  input : s.prefixer.input.Holds s.input
  /-- So does the inlet of the burst ends. -/
  ends : s.prefixer.ends.Holds s.ends
  /-- The record of the samples is what was taken of them. -/
  output : s.prefixer.output.Gave s.output
  /-- The samples put out are the symbols consumed, each behind its prefix. -/
  data_eq : (s.prefixer.output.total s.output).data =
    (s.input.firstItems made.inputSize s.prefixer.input.read).flatMap (extension made.prefixLength)
  /-- The tags put out that mark no end are those of the symbols consumed. -/
  mem_tags : ∀ t : Tag τ, t.key ≠ Tag.txEnd →
    (t ∈ (s.prefixer.output.total s.output).tags ↔
      ∃ u ∈ s.input.tags, u.index < s.prefixer.input.read ∧
        t = { u with index := u.index * made.outputSize })

variable {made : CyclicPrefixer α τ} {s : Session α τ}

namespace Sound

theorem feedInput (h : s.Sound made) {p : Inlet α τ} {r : Record α τ} {e : Inlet.Event α τ}
    (he : s.prefixer.input.meet s.input e = .ok (p, r)) :
    ({ s with prefixer := { s.prefixer with input := p }, input := r } : Session α τ).Sound made := by
  obtain ⟨hp, hwidth, hread, hrecord⟩ := h.input.meet he
  have hle : s.prefixer.input.read * made.inputSize ≤ s.input.data.length :=
    h.input_width ▸ h.input.read_le
  refine { h with
    input_width := hwidth.trans h.input_width
    input := hp
    data_eq := ?_
    mem_tags := fun t ht => ?_ }
  · rw [h.data_eq, hread]
    rcases hrecord with rfl | ⟨data, tags, -, rfl⟩
    · rfl
    · rw [h.input_width, Record.firstItems_append hle]
  · have hmem : ∀ u : Tag τ, u ∈ s.input.tags.filter (·.index < s.prefixer.input.read) ↔
        u ∈ r.tags.filter (·.index < s.prefixer.input.read) := fun u => by
      rw [h.input.consumed_tags he]
    simp only [List.mem_filter, decide_eq_true_eq] at hmem
    rw [h.mem_tags t ht, hread]
    refine exists_congr fun u => ?_
    rw [← and_assoc, hmem u, and_assoc]

theorem feedEnds (h : s.Sound made) {p : Inlet UInt8 τ} {r : Record UInt8 τ}
    {e : Inlet.Event UInt8 τ} (he : s.prefixer.ends.meet s.ends e = .ok (p, r)) :
    ({ s with prefixer := { s.prefixer with ends := p }, ends := r } : Session α τ).Sound made := by
  obtain ⟨hp, hwidth, -, -⟩ := h.ends.meet he
  exact { h with ends_width := hwidth.trans h.ends_width, ends := hp }

theorem readOutput (h : s.Sound made) {p : Outlet α τ} {r : Record α τ} {e : Outlet.Event}
    (he : s.prefixer.output.meet s.output e = .ok (p, r)) :
    ({ s with prefixer := { s.prefixer with output := p }, output := r } : Session α τ).Sound made := by
  obtain ⟨hp, hwidth, htotal⟩ := h.output.meet he
  exact { h with
    output_width := hwidth.trans h.output_width
    output := hp
    data_eq := (congrArg Record.data htotal).trans h.data_eq
    mem_tags := fun t ht => by rw [← h.mem_tags t ht, htotal] }

/-! ### A call of work -/

theorem prefixLength_eq (h : s.Sound made) : s.prefixer.prefixLength = made.prefixLength := by
  rw [prefixLength, prefixLength, h.inputSize_eq, h.outputSize_eq]

/-- The number of samples that were put to the outlet. -/
theorem length_total (h : s.Sound made) (hfits : made.prefixLength ≤ made.inputSize) :
    (s.prefixer.output.total s.output).data.length =
      s.prefixer.input.read * made.outputSize := by
  have hle : s.prefixer.input.read * made.inputSize ≤ s.input.data.length :=
    h.input_width ▸ h.input.read_le
  rw [h.data_eq, length_flatMap_of_length
    fun x hx => length_of_extension hfits (Record.length_of_mem_firstItems hle x hx),
    Record.length_firstItems]

theorem written_eq (h : s.Sound made) (hfits : made.prefixLength ≤ made.inputSize) :
    s.prefixer.output.written = s.prefixer.input.read * made.outputSize := by
  rw [h.output.written_eq, h.output_width, Nat.div_one, h.length_total hfits]

/-- The symbols that a call of work takes are the next ones. -/
theorem firstItems_eq (h : s.Sound made) :
    ∃ symbols, s.prefixer.input.firstItems s.prefixer.ready = .ok symbols ∧
      symbols.length = s.prefixer.ready ∧ (∀ x ∈ symbols, x.length = made.inputSize) ∧
      s.input.firstItems made.inputSize (s.prefixer.input.read + s.prefixer.ready) =
        s.input.firstItems made.inputSize s.prefixer.input.read ++ symbols := by
  obtain ⟨symbols, hsymbols, hcount, hlengths, hitems⟩ :=
    h.input.exists_firstItems (ready_le s.prefixer).1
  rw [h.input_width] at hlengths hitems
  exact ⟨symbols, hsymbols, hcount, hlengths, hitems⟩

/-- The tags of the symbols that a call of work takes move to the first samples. -/
theorem movedTags_eq (h : s.Sound made) (hfits : made.prefixLength ≤ made.inputSize) :
    s.prefixer.movedTags s.prefixer.ready =
      (s.input.tags.filter fun t => t.index < s.prefixer.input.read + s.prefixer.ready &&
        s.prefixer.input.read ≤ t.index).map (Tag.scaled made.outputSize) := by
  rw [movedTags, h.input.tags, List.filter_filter, h.written_eq hfits, h.outputSize_eq]
  refine List.map_congr_left fun t ht => ?_
  have hread := (Bool.and_eq_true_iff.1 (List.mem_filter.1 ht).2).2
  rw [Tag.scaled, ← Nat.add_mul, Nat.add_sub_cancel' (of_decide_eq_true hread)]

theorem mem_movedTags (h : s.Sound made) (hfits : made.prefixLength ≤ made.inputSize) {t : Tag τ} :
    t ∈ s.prefixer.movedTags s.prefixer.ready ↔ ∃ u ∈ s.input.tags,
      s.prefixer.input.read ≤ u.index ∧ u.index < s.prefixer.input.read + s.prefixer.ready ∧
        t = { u with index := u.index * made.outputSize } := by
  rw [h.movedTags_eq hfits, List.mem_map]
  constructor
  · rintro ⟨u, hu, rfl⟩
    rw [List.mem_filter, Bool.and_eq_true, decide_eq_true_iff, decide_eq_true_iff] at hu
    exact ⟨u, hu.1, hu.2.2, hu.2.1, rfl⟩
  · rintro ⟨u, hu, hge, hlt, rfl⟩
    refine ⟨u, ?_, rfl⟩
    rw [List.mem_filter, Bool.and_eq_true, decide_eq_true_iff, decide_eq_true_iff]
    exact ⟨hu, hlt, hge⟩

/-- The tags that a call of work emits are on the samples that it emits. -/
theorem place_of_mem (h : s.Sound made) (hfits : made.prefixLength ≤ made.inputSize) {t : Tag τ}
    (ht : t ∈ s.prefixer.movedTags s.prefixer.ready ++
      s.prefixer.marks s.source s.prefixer.ready) :
    s.prefixer.output.written ≤ t.index ∧
      t.index < s.prefixer.output.written + s.prefixer.ready * made.outputSize := by
  have hpos := made.outputSize_pos
  rcases List.mem_append.1 ht with ht | ht
  · obtain ⟨u, -, hge, hlt, rfl⟩ := (h.mem_movedTags hfits).1 ht
    rw [h.written_eq hfits, ← Nat.add_mul]
    exact ⟨Nat.mul_le_mul_right _ hge, Nat.mul_lt_mul_of_pos_right hlt hpos⟩
  · have hplace := (mem_marks h.ends_width ht).2
    rw [h.outputSize_eq] at hplace
    exact hplace

/-- With the tags that a call of work emits, those of more symbols have moved. -/
theorem mem_tags_append (h : s.Sound made) (hfits : made.prefixLength ≤ made.inputSize) {t : Tag τ}
    (ht : t.key ≠ Tag.txEnd) :
    t ∈ (s.prefixer.output.total s.output).tags ++ (s.prefixer.movedTags s.prefixer.ready ++
        s.prefixer.marks s.source s.prefixer.ready) ↔
      ∃ u ∈ s.input.tags, u.index < s.prefixer.input.read + s.prefixer.ready ∧
        t = { u with index := u.index * made.outputSize } := by
  rw [List.mem_append, List.mem_append, h.mem_tags t ht, h.mem_movedTags hfits]
  constructor
  · rintro (⟨u, hu, hlt, rfl⟩ | ⟨u, hu, hge, hlt, rfl⟩ | hmark)
    · exact ⟨u, hu, by omega, rfl⟩
    · exact ⟨u, hu, hlt, rfl⟩
    · exact absurd (mem_marks h.ends_width hmark).1 ht
  · rintro ⟨u, hu, hlt, rfl⟩
    by_cases hold : u.index < s.prefixer.input.read
    · exact .inl ⟨u, hu, hold, rfl⟩
    · exact .inr (.inl ⟨u, hu, Nat.le_of_not_lt hold, hlt, rfl⟩)

section Work

variable [Inhabited α]

/-- **A call of work extends the next symbols.** -/
theorem work (h : s.Sound made) (hfits : made.prefixLength ≤ made.inputSize)
    {d : CyclicPrefixer α τ} {finished : Bool}
    (hwork : s.prefixer.work s.source = .ok (d, finished)) :
    ({ s with prefixer := d } : Session α τ).Sound made := by
  obtain ⟨symbols, samples, output, input, ends, hsymbols, hsamples, houtput, hinput, hends, rfl,
    -⟩ := work_eq_ok_iff.1 hwork
  obtain ⟨symbols', hsymbols', hcount, hlengths, hitems⟩ := h.firstItems_eq
  obtain rfl : symbols' = symbols := Except.ok.inj (hsymbols'.symm.trans hsymbols)
  obtain ⟨hextended, hdata⟩ := extended_eq hfits hlengths
  rw [h.prefixLength_eq, hextended] at hsamples
  cases hsamples
  have hplaces : ∀ t ∈ s.prefixer.movedTags s.prefixer.ready ++
      s.prefixer.marks s.source s.prefixer.ready, s.prefixer.output.written ≤ t.index ∧
        t.index < s.prefixer.output.written +
          (symbols'.map (extension made.prefixLength)).flatten.length /
            s.prefixer.output.width := by
    intro t ht
    rw [h.output_width, Nat.div_one, hdata, hcount]
    exact h.place_of_mem hfits ht
  obtain ⟨hgave, hwidth, -, htotal⟩ := h.output.emit _ hplaces houtput
  obtain ⟨hinputWidth, hinputRead⟩ := Inlet.consume_frame hinput
  have hendsHolds : ends.width = 1 ∧ ends.Holds s.ends := by
    split at hends
    · exact ⟨(Inlet.consume_frame hends).1.trans h.ends_width, h.ends.consume hends⟩
    · cases hends
      exact ⟨h.ends_width, h.ends⟩
  refine
    { inputSize_eq := h.inputSize_eq
      outputSize_eq := h.outputSize_eq
      input_width := hinputWidth.trans h.input_width
      ends_width := hendsHolds.1
      output_width := hwidth.trans h.output_width
      input := h.input.consume hinput
      ends := hendsHolds.2
      output := hgave
      data_eq := ?_
      mem_tags := fun t ht => ?_ }
  · rw [htotal, h.data_eq, hinputRead, hitems, List.flatMap_append, List.flatMap_def (l := symbols')]
  · rw [htotal, hinputRead]
    exact h.mem_tags_append hfits ht

/-- **A call of work returns**, and then no symbol is left, or there is no room for one, or it is not
known whether the next one ends a burst. -/
theorem work_returns (h : s.Sound made) (hfits : made.prefixLength ≤ made.inputSize) :
    ∃ d finished, s.prefixer.work s.source = .ok (d, finished) ∧
      (d.input.items = 0 ∨ d.output.room < made.outputSize ∨
        d.ends.connected = true ∧ d.ends.items = 0) := by
  have hshort : s.prefixer.prefixLength ≤ s.prefixer.inputSize := by
    rw [h.prefixLength_eq, h.inputSize_eq]
    exact hfits
  obtain ⟨d, finished, hwork, hitems, -, hroom, hconnected, hends⟩ := CyclicPrefixer.exists_work
    hshort (h.input_width.trans h.inputSize_eq.symm) h.output_width s.source
  refine ⟨d, finished, hwork, ?_⟩
  rcases ready_stops s.prefixer with hready | hready | ⟨hyes, hready⟩
  · exact .inl (by omega)
  · refine .inr (.inl ?_)
    rw [hready, h.outputSize_eq] at hroom
    have hmod := Nat.mod_eq_sub_div_mul (x := s.prefixer.output.room) (k := made.outputSize)
    have hlt := Nat.mod_lt s.prefixer.output.room made.outputSize_pos
    omega
  · have hleft := hends hyes
    exact .inr (.inr ⟨hconnected.trans hyes, by omega⟩)

end Work

/-- All symbols are consumed once none is left. -/
theorem read_of_drained (h : s.Sound made) (hitems : s.prefixer.input.items = 0) :
    s.prefixer.input.read = s.input.data.length / made.inputSize := by
  have hle := h.input.read_le_items
  rw [h.input.items_eq] at hitems
  rw [h.input_width] at hitems hle
  omega

theorem read_eq (h : s.Sound made) {xs : List (List α)} (hxs : ∀ x ∈ xs, x.length = made.inputSize)
    (hdata : s.input.data = xs.flatten) (hitems : s.prefixer.input.items = 0) :
    s.prefixer.input.read = xs.length := by
  have hcount : xs.flatten.length = xs.length * made.inputSize := by
    rw [← List.flatMap_id]
    exact length_flatMap_of_length hxs
  rw [h.read_of_drained hitems, hdata, hcount, Nat.mul_div_cancel _ made.input_pos]

/-- **What was emitted once all symbols are consumed.** -/
theorem total_eq (h : s.Sound made) {xs : List (List α)} (hxs : ∀ x ∈ xs, x.length = made.inputSize)
    (hdata : s.input.data = xs.flatten) (hitems : s.prefixer.input.items = 0) :
    (s.prefixer.output.total s.output).data = xs.flatMap (extension made.prefixLength) := by
  rw [h.data_eq, h.read_eq hxs hdata hitems, Record.firstItems_of_flatten hxs hdata]

end Sound

/-! ### The whole session -/

/-- What building a prefixer checks, and where it starts. -/
theorem sound_start {inputSize outputSize : Nat} (h : ofSizes inputSize outputSize = .ok made)
    (source : String) :
    (start made source).Sound made ∧ made.inputSize = inputSize ∧ made.outputSize = outputSize := by
  rw [ofSizes] at h
  split at h
  · cases h
    refine ⟨?_, rfl, rfl⟩
    exact
      { inputSize_eq := rfl
        outputSize_eq := rfl
        input_width := rfl
        ends_width := rfl
        output_width := rfl
        input := Inlet.holds_fresh rfl rfl rfl
        ends := Inlet.holds_fresh rfl rfl rfl
        output := Outlet.gave_fresh rfl rfl rfl
        data_eq := rfl
        mem_tags := fun t ht => by simp [Outlet.total, start, Outlet.scalar, AppendList.empty] }
  · cases h

/-- **Every session is sound**, whatever its events. -/
theorem exists_sound [Inhabited α] {inputSize outputSize : Nat}
    (h : ofSizes inputSize outputSize = .ok made) (hfits : outputSize ≤ 2 * inputSize)
    {source : String} {events : List (Event α τ)}
    (hrun : (start made source).run events = .ok s) :
    s.Sound made ∧ made.prefixLength ≤ made.inputSize := by
  obtain ⟨hstart, hinput, houtput⟩ := sound_start h source
  have hshort : made.prefixLength ≤ made.inputSize := by
    rw [prefixLength, hinput, houtput]
    omega
  refine ⟨run_induct (P := fun s => s.Sound made) ?_ ?_ ?_ ?_ hstart hrun, hshort⟩
  · exact fun s p r e h hmeet => h.feedInput hmeet
  · exact fun s p r e h hmeet => h.feedEnds hmeet
  · exact fun s p r e h hmeet => h.readOutput hmeet
  · exact fun s d finished h hwork => h.work hshort hwork

/-- A session keeps the name that its tags are given. -/
theorem source_run [Inhabited α] {t : Session α τ} {events : List (Event α τ)}
    (hrun : s.run events = .ok t) : t.source = s.source := by
  refine run_induct (P := fun t => t.source = s.source) ?_ ?_ ?_ ?_ rfl hrun
  · exact fun _ _ _ _ h _ => h
  · exact fun _ _ _ _ h _ => h
  · exact fun _ _ _ _ h _ => h
  · exact fun _ _ _ h _ => h

end Session

end CyclicPrefixer

end OfdmBurst
