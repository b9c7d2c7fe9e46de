import OfdmBurst.Proofs.CyclicPrefixer.Emission
import OfdmBurst.Proofs.PreambleInserter.Bursts
import OfdmBurst.Proofs.SymbolCutter.Frames

/-!
# Framing, and cutting out again

An inserter puts preambles in front of bursts, a prefixer puts a cyclic prefix in front of every
symbol, and a cutter gets the samples with silence around them, with a trigger at the end of every
preamble and with the times of the bursts. Then the cutter emits, for every burst, the last symbol
of the preamble, flagged and with the time of the burst, and behind it the symbols of the burst.

The three blocks change rates, and they agree on one thing only: where a burst is. It begins so many
symbols into what the inserter emits, as `Transmission.places` says. The same number of symbol
lengths into what the prefixer emits are its samples, and the trigger is as many symbol lengths
behind as the preamble has symbols. Everything here is counted from these places.

Times are exact. The time of a burst is the anchor of its own trigger, and no time passes between a
sample and itself.

## Main definitions

* `Transmission.trigger`, `Heard` — the receiving side
* `cutSymbols` — what comes back

## Main results

* `cutter_inverts_framing` — bursts in, bursts out
-/

namespace OfdmBurst

open PreambleInserter (Transmission)
open SymbolCutter (CutSymbol Frames Segment burstTime frame)

variable {α τ : Type}

/-! ### The receiving side -/

/-- The last sample of the preamble of a burst at its place, `lead` samples into the stream. -/
def PreambleInserter.Transmission.trigger (o : CutterOptions τ) (lead : Nat)
    (p : Nat × Transmission α τ) : Nat :=
  lead + (p.1 + o.preamble) * o.symbol - 1

/-- What is heard of the samples that were sent for bursts: they have `lead` in front of them and
`tail` behind them, the end of every preamble is triggered and nothing else is, and the times that
were sent are receive times. -/
structure Heard (o : CutterOptions τ) (lead tail : List α) (bursts : List (Transmission α τ))
    (sent samples : Record α τ) (triggers : List UInt8) : Prop where
  /-- The samples are those that were sent, between the lead and the tail. -/
  data : samples.data = lead ++ sent.data ++ tail
  /-- There is a trigger for every sample. -/
  length : triggers.length = samples.data.length
  /-- The triggers that are set are those at the ends of the preambles. -/
  triggers : SymbolCutter.triggersFrom 0 triggers =
    (Transmission.places o.preamble 0 bursts).map (Transmission.trigger o lead.length)
  /-- The receive times are the times that were sent, each on its sample. -/
  times : ∀ index value,
    (∃ t ∈ samples.tags, t.key = Tag.rxTime ∧ t.index = index ∧ t.value = value) ↔
      ∃ u ∈ sent.tags, u.key = Tag.txTime ∧ lead.length + u.index = index ∧ u.value = value

/-- The symbols that come back for bursts: the last one of the preamble, those of the burst, and
further ones up to the next burst. -/
def cutSymbols (last : List α) (bursts : List (Transmission α τ))
    (extras : List (List (List α))) : List (CutSymbol α τ) :=
  (bursts.zip extras).flatMap fun (b, extra) =>
    ⟨last, 1, some b.time⟩ :: (b.symbols ++ extra).map fun x => ⟨x, 0, none⟩

/-! ### Samples -/

/-- A segment that ends with a symbol among prefixed symbols has the samples of the symbol. -/
theorem SymbolCutter.Segment.samples_extension {fft length j : Nat} {lead tail x : List α}
    {units : List (List α)} (hunits : ∀ x ∈ units, x.length = fft) (hlength : length ≤ fft)
    (hx : units[j]? = some x) {e : Segment}
    (he : e.last + 1 = lead.length + (j + 1) * (length + fft)) :
    e.samples fft (lead ++ units.flatMap (CyclicPrefixer.extension length) ++ tail) = x := by
  obtain ⟨hj, rfl⟩ := List.getElem?_eq_some_iff.1 hx
  have hlengths : ∀ y ∈ units, (CyclicPrefixer.extension length y).length = length + fft := by
    intro y hy
    rw [CyclicPrefixer.length_extension (hunits y hy ▸ hlength), hunits y hy]
  have hone := hunits _ (List.getElem_mem hj)
  have hcopied : (units[j].drop (fft - length)).length = length := by
    rw [List.length_drop, hone]
    omega
  have hbehind : j * (length + fft) ≤
      (units.flatMap (CyclicPrefixer.extension length)).length := by
    rw [length_flatMap_of_length hlengths]
    exact Nat.mul_le_mul_right _ (Nat.le_of_lt hj)
  have hfrom : (units.flatMap (CyclicPrefixer.extension length)).drop (j * (length + fft)) =
      units[j].drop (fft - length) ++ (units[j] ++
        (units.drop (j + 1)).flatMap (CyclicPrefixer.extension length)) := by
    rw [drop_flatMap_of_length hlengths, List.drop_eq_getElem_cons hj, List.flatMap_cons,
      CyclicPrefixer.extension, hone, List.append_assoc]
  have hplace : e.last + 1 - fft = lead.length + (j * (length + fft) + length) := by
    rw [he, Nat.succ_mul]
    omega
  rw [Segment.samples, hplace, ← List.drop_drop, List.append_assoc, List.drop_left' rfl,
    ← List.drop_drop, List.drop_append_of_le_length hbehind, hfrom, List.append_assoc,
    List.drop_left' hcopied, List.append_assoc, List.take_left' hone]

/-! ### Frames -/

section Frames

variable {o : CutterOptions τ} {preamble : List (List α)} {bursts : List (Transmission α τ)}

/-- The symbols that are sent for bursts. -/
def units (preamble : List (List α)) (bursts : List (Transmission α τ)) : List (List α) :=
  bursts.flatMap fun b => preamble ++ b.symbols

/-- Every burst fits between its trigger and the next one. -/
theorem frames_places (hpreamble : 0 < o.preamble) (hlength : preamble.length = o.preamble)
    (hsymbol : 2 ≤ o.symbol) (htimeout : ∀ b ∈ bursts, b.symbols.length ≤ o.timeout)
    {lead stop index : Nat}
    (hstop : lead + (index + (units preamble bursts).length) * o.symbol < stop) :
    Frames o stop ((Transmission.places o.preamble index bursts).map fun p =>
      (Transmission.trigger o lead p, p.2.symbols.length)) := by
  have htwo : 2 ≤ o.preamble * o.symbol :=
    Nat.le_trans hsymbol (Nat.le_mul_of_pos_left _ hpreamble)
  induction bursts generalizing index with
  | nil => trivial
  | cons b rest ih =>
    have hcount : (units preamble (b :: rest)).length =
        o.preamble + b.symbols.length + (units preamble rest).length := by
      rw [units, List.flatMap_cons, List.length_append, List.length_append, hlength]
      rfl
    rw [hcount] at hstop
    simp only [Nat.add_mul] at hstop
    refine ⟨htimeout b List.mem_cons_self, ?_, ?_, ?_⟩
    · simp only [Transmission.trigger, Nat.add_mul]
      omega
    · intro q hq
      rw [Option.mem_def] at hq
      cases rest with
      | nil => cases hq
      | cons c rest =>
        cases hq
        simp only [Transmission.trigger, Nat.add_mul]
        omega
    · refine ih (fun c hc => htimeout c (List.mem_cons_of_mem _ hc)) ?_
      simp only [Nat.add_mul]
      omega

/-- The samples of the frame of a burst are the last symbol of the preamble and those of the burst. -/
theorem samples_frame {fft length : Nat} {lead tail last : List α}
    (hunits : ∀ x ∈ units preamble bursts, x.length = fft) (hfits : length ≤ fft)
    (hsymbol : o.symbol = length + fft) (hpos : 0 < o.symbol)
    (hlength : preamble.length = o.preamble) (hlast : preamble.getLast? = some last)
    {p : Nat × Transmission α τ} (hp : p ∈ Transmission.places o.preamble 0 bursts) :
    (frame o.symbol (Transmission.trigger o lead.length p, p.2.symbols.length)).map
        (·.samples fft (lead ++ (units preamble bursts).flatMap (CyclicPrefixer.extension length) ++
          tail)) = last :: p.2.symbols := by
  rw [← hlength] at hp
  have hpreamble : 0 < preamble.length := by
    rw [List.length_pos_iff]
    rintro rfl
    cases hlast
  have hsample : ∀ j x, (preamble ++ p.2.symbols)[preamble.length - 1 + j]? = some x → ∀ flag,
      (⟨Transmission.trigger o lead.length p + j * o.symbol, flag⟩ : Segment).samples fft
        (lead ++ (units preamble bursts).flatMap (CyclicPrefixer.extension length) ++ tail) = x := by
    intro j x hx flag
    obtain ⟨hj, -⟩ := List.getElem?_eq_some_iff.1 hx
    rw [List.length_append] at hj
    have hunit := Transmission.getElem?_places hp hj
    rw [hx, Nat.sub_zero] at hunit
    refine Segment.samples_extension hunits hfits hunit ?_
    have hplace : p.1 + (preamble.length - 1 + j) + 1 = p.1 + o.preamble + j := by omega
    have hpos : 1 * o.symbol ≤ o.preamble * o.symbol :=
      Nat.mul_le_mul_right _ (hlength ▸ hpreamble)
    rw [hplace, ← hsymbol]
    simp only [Transmission.trigger, Nat.add_mul]
    omega
  have hfirst : (preamble ++ p.2.symbols)[preamble.length - 1 + 0]? = some last := by
    rw [Nat.add_zero, List.getElem?_append_left (by omega), ← List.getLast?_eq_getElem?]
    exact hlast
  have htrigger := hsample 0 last hfirst 1
  rw [Nat.zero_mul, Nat.add_zero] at htrigger
  rw [frame, List.map_cons, htrigger, List.map_map]
  congr 1
  refine List.ext_getElem (by rw [List.length_map, List.length_range']) fun i hi hi' => ?_
  rw [List.getElem_map, List.getElem_range', Function.comp_apply]
  refine hsample _ _ ?_ 0
  have hplace : preamble.length - 1 + (1 + 1 * i) - preamble.length = i := by omega
  rw [List.getElem?_append_right (by omega), hplace, List.getElem?_eq_getElem hi']

end Frames

/-! ### Times -/

/-- The times on samples are those of the bursts, at their first samples. -/
def CarryTimes (o : CutterOptions τ) (bursts : List (Transmission α τ)) (tags : List (Tag τ))
    (key : String) (lead : Nat) : Prop :=
  ∀ index value, (∃ t ∈ tags, t.key = key ∧ t.index = index ∧ t.value = value) ↔
    ∃ p ∈ Transmission.places o.preamble 0 bursts,
      lead + p.1 * o.symbol = index ∧ Tag.Value.time p.2.time = value

section Times

variable {o : CutterOptions τ} {bursts : List (Transmission α τ)} {tags : List (Tag τ)} {lead : Nat}

theorem CarryTimes.timesGiven (h : CarryTimes o bursts tags Tag.rxTime lead) :
    SymbolCutter.TimesGiven tags := by
  intro t ht hkey
  obtain ⟨p, -, -, hvalue⟩ := (h t.index t.value).1 ⟨t, ht, hkey, rfl, rfl⟩
  refine ⟨p.2.time, ?_⟩
  rw [Tag.time?, ← hvalue]

/-- The anchor of a trigger is the time of its own burst. -/
theorem CarryTimes.anchorAt_eq (h : CarryTimes o bursts tags Tag.rxTime lead)
    (hpreamble : 0 < o.preamble) (hsymbol : 0 < o.symbol) {p : Nat × Transmission α τ}
    (hp : p ∈ Transmission.places o.preamble 0 bursts) :
    SymbolCutter.anchorAt tags (Transmission.trigger o lead p + 1) =
      some (lead + p.1 * o.symbol, p.2.time) := by
  have hpos : 0 < o.preamble * o.symbol := Nat.mul_pos hpreamble hsymbol
  obtain ⟨u, hu, hkey, hindex, hvalue⟩ := (h _ _).2 ⟨p, hp, rfl, rfl⟩
  have hmem : u ∈ tags.filter fun t =>
      t.index < Transmission.trigger o lead p + 1 && t.key == Tag.rxTime := by
    rw [List.mem_filter, Bool.and_eq_true, decide_eq_true_iff, beq_iff_eq]
    refine ⟨hu, ?_, hkey⟩
    rw [hindex, Transmission.trigger, Nat.add_mul]
    omega
  rw [SymbolCutter.anchorAt]
  cases hlatest : Tag.latest? (tags.filter fun t =>
      t.index < Transmission.trigger o lead p + 1 && t.key == Tag.rxTime) with
  | none =>
    rw [Tag.latest?_eq_none hlatest] at hmem
    cases hmem
  | some t =>
    have hlater := Tag.index_le_of_latest? hlatest hmem
    have ht := List.mem_filter.1 (Tag.latest?_mem hlatest)
    rw [Bool.and_eq_true, decide_eq_true_iff, beq_iff_eq] at ht
    obtain ⟨q, hq, hplace, htime⟩ := (h t.index t.value).1 ⟨t, ht.1, ht.2.2, rfl, rfl⟩
    have hle : p.1 ≤ q.1 := by
      refine Nat.le_of_mul_le_mul_right ?_ hsymbol
      omega
    have hlt : q.1 < p.1 + o.preamble := by
      refine Nat.lt_of_mul_lt_mul_right (a := o.symbol) ?_
      have hbefore := ht.2.1
      rw [Transmission.trigger] at hbefore
      rw [Nat.add_mul] at hbefore ⊢
      omega
    obtain rfl := Transmission.eq_of_mem_places hp hq hle hlt
    rw [Option.bind_some, Tag.time?, ← htime, ← hplace]
    rfl

/-- **The time of a burst comes back**, because no time passes between a sample and itself. -/
theorem CarryTimes.burstTime_eq [Field τ] [LinearOrder τ] [IsStrictOrderedRing τ] [FloorRing τ]
    (h : CarryTimes o bursts tags Tag.rxTime lead) (hpreamble : 0 < o.preamble)
    (hsymbol : 0 < o.symbol) {p : Nat × Transmission α τ}
    (hp : p ∈ Transmission.places o.preamble 0 bursts) (hnormal : p.2.time.Normal) :
    burstTime o tags (Transmission.trigger o lead p) = .ok p.2.time := by
  have hpos : 0 < o.preamble * o.symbol := Nat.mul_pos hpreamble hsymbol
  have hbegin : Transmission.trigger o lead p + 1 - o.preamble * o.symbol =
      lead + p.1 * o.symbol := by
    rw [Transmission.trigger, Nat.add_mul]
    omega
  have helapsed : ((Scalar.whole (lead + p.1 * o.symbol) - Scalar.whole (lead + p.1 * o.symbol)) /
      o.bandwidth : τ) = 0 := by
    show (((lead + p.1 * o.symbol : ℕ) : τ) - ((lead + p.1 * o.symbol : ℕ) : τ)) / o.bandwidth = 0
    rw [sub_self, zero_div]
  rw [burstTime, h.anchorAt_eq hpreamble hsymbol hp, Option.getD_some, hbegin]
  show Timestamp.shift p.2.time _ = _
  rw [helapsed]
  exact Timestamp.shift_zero hnormal

end Times

/-! ### What was sent -/

section Sent

variable {o : CutterOptions τ} {made : PreambleInserter α τ} {prefixer : CyclicPrefixer α τ}
  {i : PreambleInserter.Session α τ} {p : CyclicPrefixer.Session α τ}
  {emitted : List (PreambleInserter.Emission α τ)} {bursts : List (Transmission α τ)}
  {blocks : List (List (PreambleInserter.Slot α τ))}

/-- What an inserter has emitted for bursts: their symbols with preambles. -/
theorem emitted_eq_units (hi : i.Sound made emitted) (hready : i.inserter.ready = 0)
    (hfed : i.known = blocks.flatten) (hfeeds : List.Forall₂ Transmission.Feeds bursts blocks) :
    emitted.map (·.symbol) = units made.preamble bursts := by
  rw [hi.emitted_eq hready, hfed, PreambleInserter.symbols_emissions hfeeds]
  rfl

theorem length_of_mem_units (hi : i.Sound made emitted)
    (hsymbols : emitted.map (·.symbol) = units made.preamble bursts) :
    ∀ x ∈ units made.preamble bursts, x.length = made.length := by
  intro x hx
  rw [← hsymbols] at hx
  obtain ⟨e, he, rfl⟩ := List.mem_map.1 hx
  rw [hi.lengths e he, hi.length_eq]

/-- **The samples that were sent for bursts**, with their times. -/
theorem sent_eq (hi : i.Sound made emitted) (hp : p.Sound prefixer)
    (hready : i.inserter.ready = 0) (hitems : p.prefixer.input.items = 0)
    (hfed : i.known = blocks.flatten) (hfeeds : List.Forall₂ Transmission.Feeds bursts blocks)
    (hsent : p.input = i.inserter.output.total i.output) (hlength : made.length = prefixer.inputSize)
    (hpreamble : made.preamble.length = o.preamble) (hsymbol : prefixer.outputSize = o.symbol) :
    (p.prefixer.output.total p.output).data =
        (units made.preamble bursts).flatMap (CyclicPrefixer.extension prefixer.prefixLength) ∧
      CarryTimes o bursts (p.prefixer.output.total p.output).tags Tag.txTime 0 := by
  have hsymbols := emitted_eq_units hi hready hfed hfeeds
  have hunits : ∀ x ∈ units made.preamble bursts, x.length = prefixer.inputSize :=
    hlength ▸ length_of_mem_units hi hsymbols
  have hdata : p.input.data = (units made.preamble bursts).flatten := by
    rw [hsent, hi.output_eq, ← hsymbols]
    exact List.flatMap_def
  have hread := hp.read_eq hunits hdata hitems
  have htags : p.input.tags.filter (·.key == Tag.txTime) =
      (Transmission.places o.preamble 0 bursts).map fun q =>
        { index := q.1, key := Tag.txTime, value := .time q.2.time, source := some i.source } := by
    rw [hsent, hi.output_eq, hi.emitted_eq hready, hfed, ← hpreamble]
    exact PreambleInserter.txTimes_emissions made.preamble_ne hfeeds false 0
  have hother : Tag.txTime ≠ Tag.txEnd := by decide
  refine ⟨hp.total_eq hunits hdata hitems, fun index value => ?_⟩
  constructor
  · rintro ⟨t, ht, hkey, rfl, rfl⟩
    obtain ⟨u, hu, -, rfl⟩ := (hp.mem_tags t (hkey ▸ hother)).1 ht
    have hmem : u ∈ p.input.tags.filter (·.key == Tag.txTime) :=
      List.mem_filter.2 ⟨hu, beq_iff_eq.2 hkey⟩
    rw [htags] at hmem
    obtain ⟨q, hq, rfl⟩ := List.mem_map.1 hmem
    refine ⟨q, hq, ?_, rfl⟩
    rw [Nat.zero_add, hsymbol]
  · rintro ⟨q, hq, rfl, rfl⟩
    have hmem : Tag.mk q.1 Tag.txTime (.time q.2.time) (some i.source) ∈
        p.input.tags.filter (·.key == Tag.txTime) := by
      rw [htags]
      exact List.mem_map_of_mem hq
    have hlt : q.1 < (units made.preamble bursts).length := by
      have hpos : 0 < made.preamble.length := List.length_pos_iff.2 made.preamble_ne
      have hfirst := Transmission.getElem?_places (hpreamble ▸ hq)
        (i := 0) (Nat.lt_of_lt_of_le hpos (Nat.le_add_right _ _))
      rw [List.getElem?_append_left hpos, List.getElem?_eq_getElem hpos] at hfirst
      exact (List.getElem?_eq_some_iff.1 hfirst).1
    refine ⟨_, (hp.mem_tags _ hother).2 ⟨_, (List.mem_filter.1 hmem).1, hread.symm ▸ hlt, rfl⟩, rfl,
      ?_, rfl⟩
    rw [Nat.zero_add, hsymbol]

end Sent

/-! ### What comes back -/

section Back

variable [Rounded τ] {o : CutterOptions τ} {preamble : List (List α)}
  {bursts : List (Transmission α τ)}

/-- A segment without a flag comes back without a time. -/
theorem cut_of_follows {samples : Record α τ} {e : Segment} (h : e.flag = 0) :
    e.cut o samples = ⟨e.samples o.fft samples.data, 0, none⟩ := by
  rw [Segment.cut, h, if_neg (by decide)]

/-- The frame of a burst comes back as the last symbol of the preamble and those of the burst. -/
theorem cut_frame {samples : Record α τ} {last : List α} {trigger : Nat} {b : Transmission α τ}
    (hsamples : (frame o.symbol (trigger, b.symbols.length)).map (·.samples o.fft samples.data) =
      last :: b.symbols)
    (htime : burstTime o samples.tags trigger = .ok b.time) :
    (frame o.symbol (trigger, b.symbols.length)).map (Segment.cut o samples) =
      ⟨last, 1, some b.time⟩ :: b.symbols.map fun x => ⟨x, 0, none⟩ := by
  rw [frame, List.map_cons, List.cons.injEq] at hsamples
  obtain ⟨hfirst, hrest⟩ := hsamples
  have hfollows : ((List.range' 1 b.symbols.length).map fun j =>
      (⟨trigger + j * o.symbol, 0⟩ : Segment)).map (Segment.cut o samples) =
        b.symbols.map fun x => ⟨x, 0, none⟩ := by
    calc _ = (((List.range' 1 b.symbols.length).map fun j =>
          (⟨trigger + j * o.symbol, 0⟩ : Segment)).map (·.samples o.fft samples.data)).map
            fun x => ⟨x, 0, none⟩ := by
          rw [List.map_map, List.map_map, List.map_map]
          exact List.map_congr_left fun j _ => cut_of_follows rfl
      _ = _ := by rw [hrest]
  rw [frame, List.map_cons, hfollows, Segment.cut, hfirst, if_pos rfl, htime]
  rfl

/-- Frames with further symbols come back burst by burst. -/
theorem cut_frames {samples : Record α τ} {last : List α} {ps : List (Nat × Transmission α τ)}
    {trigger : Nat × Transmission α τ → Nat} {extras : List (List Segment)}
    (hflags : ∀ extra ∈ extras, ∀ e ∈ extra, e.flag = 0)
    (hframes : ∀ p ∈ ps, (frame o.symbol (trigger p, p.2.symbols.length)).map
      (Segment.cut o samples) = ⟨last, 1, some p.2.time⟩ :: p.2.symbols.map fun x => ⟨x, 0, none⟩) :
    (((ps.map fun p => (trigger p, p.2.symbols.length)).zip extras).flatMap fun p =>
        frame o.symbol p.1 ++ p.2).map (Segment.cut o samples) =
      cutSymbols last (ps.map (·.2))
        (extras.map fun extra => extra.map (·.samples o.fft samples.data)) := by
  rw [cutSymbols, List.map_flatMap]
  induction ps generalizing extras with
  | nil => rfl
  | cons p ps ih =>
    cases extras with
    | nil => rfl
    | cons extra extras =>
      have hextra : extra.map (Segment.cut o samples) =
          (extra.map (·.samples o.fft samples.data)).map fun x => ⟨x, 0, none⟩ := by
        rw [List.map_map]
        exact List.map_congr_left fun e he => cut_of_follows (hflags extra List.mem_cons_self e he)
      rw [List.map_cons, List.map_cons, List.map_cons, List.zip_cons_cons, List.zip_cons_cons,
        List.flatMap_cons, List.flatMap_cons, List.map_append, hframes p List.mem_cons_self, hextra,
        ih (fun x hx => hflags x (List.mem_cons_of_mem _ hx))
          fun q hq => hframes q (List.mem_cons_of_mem _ hq), List.cons_append, ← List.map_append]

end Back

/-! ### Two bursts of one symbol

The theorem below, on samples that can be written down. What the blocks make of them is computed,
and compared with what is expected. Tags with numbers on them could not be compared, since numbers
have no decidable equality, so tags are compared by their parts. -/

/-- The parts of a tag that gives no number. -/
def Tag.parts? (t : Tag ℚ) : Option (Nat × String × Option (UInt64 × ℚ) × Option String) :=
  match t.value with
  | .flag => some (t.index, t.key, none, t.source)
  | .time time => some (t.index, t.key, some (time.seconds, time.fraction), t.source)
  | _ => none

theorem Tag.eq_of_parts {t u : Tag ℚ} (h : t.parts? = u.parts?) (hsome : t.parts?.isSome = true) :
    t = u := by
  obtain ⟨index, key, value, source⟩ := t
  obtain ⟨index', key', value', source'⟩ := u
  cases value <;> cases value' <;> simp_all [parts?]
  next a b =>
    cases a; cases b; simp_all

/-- Tags that give no numbers are equal if their parts are. -/
theorem Tag.eq_of_map_parts {ts us : List (Tag ℚ)} (h : ts.map Tag.parts? = us.map Tag.parts?)
    (hsome : us.all (·.parts?.isSome) = true) : ts = us := by
  induction ts generalizing us with
  | nil =>
    cases us with
    | nil => rfl
    | cons u us => cases h
  | cons t ts ih =>
    cases us with
    | nil => cases h
    | cons u us =>
      rw [List.map_cons, List.map_cons, List.cons.injEq] at h
      rw [List.all_cons, Bool.and_eq_true] at hsome
      rw [Tag.eq_of_parts h.1 (h.1.symm ▸ hsome.1), ih h.2 hsome.2]

/-- Symbols of one sample, behind a preamble of one symbol and prefixes of one sample. -/
def shortOptions : CutterOptions ℚ := { fft := 1, symbol := 2, bandwidth := 1, timeout := 1 }

/-- A time on a sample. -/
def timed (index : Nat) (key : String) (source : Option String) (time : Timestamp ℚ) : Tag ℚ :=
  { index, key, value := .time time, source }

/-- What happens to the inserter. -/
def shortInserting : List (PreambleInserter.Event Nat ℚ) :=
  [.input (.push [1, 5] [timed 0 Tag.txTime none ⟨3, 1 / 2⟩, timed 1 Tag.txTime none ⟨4, 0⟩]),
    .starts (.push [1, 1] []), .auxIn (.push [0, 0] []), .output (.reserve 4), .flags (.reserve 4),
    .auxOut (.reserve 4), .work]

/-- What happens to the prefixer, which gets what the inserter has emitted. -/
def shortPrefixing (i : PreambleInserter.Session Nat ℚ) : List (CyclicPrefixer.Event Nat ℚ) :=
  [.input (.push (i.inserter.output.total i.output).data (i.inserter.output.total i.output).tags),
    .output (.reserve 8), .work]

/-- What happens to the cutter. -/
def shortCutting : List (SymbolCutter.Event Nat ℚ) :=
  [.samples (.push [0, 7, 7, 1, 1, 7, 7, 5, 5, 0]
      [timed 1 Tag.rxTime none ⟨3, 1 / 2⟩, timed 5 Tag.rxTime none ⟨4, 0⟩]),
    .triggers (.push [0, 0, 1, 0, 0, 0, 1, 0, 0, 0] []), .symbols (.reserve 4), .flags (.reserve 4),
    .work "cutter"]

/-- Two bursts of one symbol, with their times. -/
def shortBursts : List (Transmission Nat ℚ) := [⟨[[1]], ⟨3, 1 / 2⟩⟩, ⟨[[5]], ⟨4, 0⟩⟩]

/-- The tags on the samples that are sent for them. -/
def shortTags : List (Tag ℚ) :=
  [⟨0, Tag.txStart, .flag, some "inserter"⟩, timed 0 Tag.txTime (some "inserter") ⟨3, 1 / 2⟩,
    ⟨4, Tag.txStart, .flag, some "inserter"⟩, timed 4 Tag.txTime (some "inserter") ⟨4, 0⟩]

/-- A burst of one symbol is fed by it. -/
theorem feeds_of_parts {x : PreambleInserter.Slot Nat ℚ} {symbol : List Nat} {seconds : UInt64}
    {fraction : ℚ}
    (h : (x.symbol, x.starts, x.time?.map fun t => (t.seconds, t.fraction)) =
      (symbol, true, some (seconds, fraction))) :
    Transmission.Feeds ⟨[symbol], ⟨seconds, fraction⟩⟩ [x] := by
  rw [Prod.mk.injEq, Prod.mk.injEq] at h
  obtain ⟨hsymbol, hstarts, htime⟩ := h
  obtain ⟨time, hgiven, hparts⟩ := Option.map_eq_some_iff.1 htime
  cases hparts
  refine ⟨?_, hstarts, hgiven, fun s hs => absurd hs List.not_mem_nil⟩
  rw [← hsymbol]
  rfl

theorem exists_feeds_of_parts {known : List (PreambleInserter.Slot Nat ℚ)}
    (h : known.map (fun x => (x.symbol, x.starts,
        x.time?.map fun t => (t.seconds, t.fraction))) =
      [([1], true, some (3, 1 / 2)), ([5], true, some (4, 0))]) :
    ∃ first second, known = [first, second] ∧
      List.Forall₂ Transmission.Feeds shortBursts [[first], [second]] := by
  obtain ⟨first, rest, rfl, hfirst, hrest⟩ := List.map_eq_cons_iff.1 h
  obtain ⟨second, rest, rfl, hsecond, hnil⟩ := List.map_eq_cons_iff.1 hrest
  obtain rfl := List.map_eq_nil_iff.1 hnil
  exact ⟨first, second, rfl, .cons (feeds_of_parts hfirst) (.cons (feeds_of_parts hsecond) .nil)⟩

theorem exists_framed :
    ∃ (inserter : PreambleInserter Nat ℚ) (i : PreambleInserter.Session Nat ℚ)
      (prefixer : CyclicPrefixer Nat ℚ) (p : CyclicPrefixer.Session Nat ℚ)
      (first second : PreambleInserter.Slot Nat ℚ),
      PreambleInserter.ofPreamble 1 [[7]] = .ok inserter ∧
      (PreambleInserter.Session.start inserter "inserter").run shortInserting = .ok i ∧
      CyclicPrefixer.ofSizes 1 2 = .ok prefixer ∧
      (CyclicPrefixer.Session.start prefixer "prefixer").run (shortPrefixing i) = .ok p ∧
      (i.known = [first, second] ∧
        List.Forall₂ Transmission.Feeds shortBursts [[first], [second]]) ∧
      (i.inserter.ready = 0 ∧ p.prefixer.input.items = 0) ∧
      p.input = i.inserter.output.total i.output ∧
      p.prefixer.output.total p.output = ⟨[7, 7, 1, 1, 7, 7, 5, 5], shortTags⟩ := by
  obtain ⟨inserter, hinserter, h⟩ := Fault.exists_ok_of_any
    (x := PreambleInserter.ofPreamble 1 [[7]])
    (p := fun inserter : PreambleInserter Nat ℚ =>
      ((PreambleInserter.Session.start inserter "inserter").run shortInserting).toOption.any fun i =>
        i.known.map (fun x => (x.symbol, x.starts, x.time?.map fun t => (t.seconds, t.fraction))) ==
            [([1], true, some (3, 1 / 2)), ([5], true, some (4, 0))] && i.inserter.ready == 0 &&
          (i.inserter.output.total i.output).tags.all (·.parts?.isSome) &&
          (CyclicPrefixer.ofSizes 1 2 : Except FramingError (CyclicPrefixer Nat ℚ)).toOption.any
            fun prefixer => ((CyclicPrefixer.Session.start prefixer "prefixer").run
              (shortPrefixing i)).toOption.any fun p =>
                p.prefixer.input.items == 0 &&
                  p.input.data == (i.inserter.output.total i.output).data &&
                  p.input.tags.map Tag.parts? ==
                    (i.inserter.output.total i.output).tags.map Tag.parts? &&
                  (p.prefixer.output.total p.output).data == [7, 7, 1, 1, 7, 7, 5, 5] &&
                  (p.prefixer.output.total p.output).tags.map Tag.parts? ==
                    shortTags.map Tag.parts?)
    (by decide +kernel)
  obtain ⟨i, hi, h⟩ := Fault.exists_ok_of_any h
  simp only [Bool.and_eq_true, beq_iff_eq] at h
  obtain ⟨⟨⟨hknown, hready⟩, hparts⟩, h⟩ := h
  obtain ⟨prefixer, hprefixer, h⟩ := Fault.exists_ok_of_any h
  obtain ⟨p, hp, h⟩ := Fault.exists_ok_of_any h
  simp only [Bool.and_eq_true, beq_iff_eq] at h
  obtain ⟨⟨⟨⟨hitems, hdata⟩, htags⟩, hsentData⟩, hsentTags⟩ := h
  obtain ⟨first, second, hslots, hfeeds⟩ := exists_feeds_of_parts hknown
  refine ⟨inserter, i, prefixer, p, first, second, hinserter, hi, hprefixer, hp, ⟨hslots, hfeeds⟩,
    ⟨hready, hitems⟩, ?_, ?_⟩
  · calc p.input = ⟨p.input.data, p.input.tags⟩ := rfl
      _ = _ := by rw [hdata, Tag.eq_of_map_parts htags hparts]
  · calc p.prefixer.output.total p.output = ⟨(p.prefixer.output.total p.output).data,
          (p.prefixer.output.total p.output).tags⟩ := rfl
      _ = _ := by rw [hsentData, Tag.eq_of_map_parts hsentTags (by decide)]

theorem exists_cut :
    ∃ (cutter : SymbolCutter Nat ℚ) (s : SymbolCutter.Session Nat ℚ),
      shortOptions.build = .ok cutter ∧
      (SymbolCutter.Session.start cutter).run shortCutting = .ok s ∧
      s.samples = ⟨[0, 7, 7, 1, 1, 7, 7, 5, 5, 0],
        [timed 1 Tag.rxTime none ⟨3, 1 / 2⟩, timed 5 Tag.rxTime none ⟨4, 0⟩]⟩ ∧
      s.triggers.data = [0, 0, 1, 0, 0, 0, 1, 0, 0, 0] ∧ s.cutter.available < s.cutter.window ∧
      s.symbolsOut = [7, 1, 7, 5] ∧ s.flagsOut = [1, 0, 1, 0] := by
  obtain ⟨cutter, hcutter, h⟩ := Fault.exists_ok_of_any (x := shortOptions.build)
    (p := fun cutter : SymbolCutter Nat ℚ =>
      ((SymbolCutter.Session.start cutter).run shortCutting).toOption.any fun s :
          SymbolCutter.Session Nat ℚ =>
        s.samples.data == [0, 7, 7, 1, 1, 7, 7, 5, 5, 0] &&
          s.samples.tags.map Tag.parts? ==
            ([timed 1 Tag.rxTime none ⟨3, 1 / 2⟩, timed 5 Tag.rxTime none ⟨4, 0⟩] :
              List (Tag ℚ)).map Tag.parts? &&
          s.triggers.data == [0, 0, 1, 0, 0, 0, 1, 0, 0, 0] &&
          decide (s.cutter.available < s.cutter.window) && s.symbolsOut == [7, 1, 7, 5] &&
          s.flagsOut == [1, 0, 1, 0])
    (by decide +kernel)
  obtain ⟨s, hs, h⟩ := Fault.exists_ok_of_any h
  simp only [Bool.and_eq_true, beq_iff_eq, decide_eq_true_eq] at h
  obtain ⟨⟨⟨⟨⟨hdata, htags⟩, htriggers⟩, hdry⟩, hsymbols⟩, hflags⟩ := h
  refine ⟨cutter, s, hcutter, hs, ?_, htriggers, hdry, hsymbols, hflags⟩
  calc s.samples = ⟨s.samples.data, s.samples.tags⟩ := rfl
    _ = _ := by rw [hdata, Tag.eq_of_map_parts htags (by decide)]

/-! ### From bursts to bursts -/

theorem Heard.carryTimes {o : CutterOptions τ} {lead tail : List α}
    {bursts : List (Transmission α τ)} {sent samples : Record α τ} {triggers : List UInt8}
    (h : Heard o lead tail bursts sent samples triggers)
    (hsent : CarryTimes o bursts sent.tags Tag.txTime 0) :
    CarryTimes o bursts samples.tags Tag.rxTime lead.length := by
  intro index value
  rw [h.times]
  constructor
  · rintro ⟨u, hu, hkey, rfl, rfl⟩
    obtain ⟨p, hp, hplace, hvalue⟩ := (hsent _ _).1 ⟨u, hu, hkey, rfl, rfl⟩
    rw [Nat.zero_add] at hplace
    exact ⟨p, hp, by rw [hplace], hvalue⟩
  · rintro ⟨p, hp, rfl, rfl⟩
    obtain ⟨u, hu, hkey, hplace, hvalue⟩ := (hsent _ _).2 ⟨p, hp, rfl, rfl⟩
    rw [Nat.zero_add] at hplace
    exact ⟨u, hu, hkey, by rw [hplace], hvalue⟩

/-- Only the ends of preambles are triggered. -/
theorem Heard.exists_place {o : CutterOptions τ} {lead tail : List α}
    {bursts : List (Transmission α τ)} {sent samples : Record α τ} {triggers : List UInt8}
    (h : Heard o lead tail bursts sent samples triggers) {first t : Nat}
    (ht : t ∈ SymbolCutter.triggersFrom first triggers) :
    ∃ p ∈ Transmission.places o.preamble 0 bursts, Transmission.trigger o lead.length p = t := by
  obtain ⟨-, hlt, hset⟩ := SymbolCutter.mem_triggersFrom_iff.1 ht
  have hmem : t ∈ SymbolCutter.triggersFrom 0 triggers :=
    SymbolCutter.mem_triggersFrom_iff.2 ⟨Nat.zero_le _, hlt, hset⟩
  rw [h.triggers] at hmem
  exact List.mem_map.1 hmem

section Received

variable {o : CutterOptions τ} {preamble : List (List α)} {bursts : List (Transmission α τ)}
  {lead tail : List α} {length : Nat} {s : SymbolCutter.Session α τ} {emitted : List Segment}

/-- The triggers that are heard are those the cutter counts, and the bursts fit between them. -/
theorem Heard.frames {sent : Record α τ}
    (h : Heard o lead tail bursts sent s.samples s.triggers.data) (hpreamble : 0 < o.preamble)
    (hlength : preamble.length = o.preamble) (hsymbol : 2 ≤ o.symbol)
    (htimeout : ∀ b ∈ bursts, b.symbols.length ≤ o.timeout)
    (hlead : o.fft < lead.length + o.preamble * o.symbol) (htail : tail ≠ [])
    (hsent : sent.data.length = (units preamble bursts).length * o.symbol) :
    SymbolCutter.triggersFrom o.fft s.triggers.data =
        ((Transmission.places o.preamble 0 bursts).map fun p =>
          (Transmission.trigger o lead.length p, p.2.symbols.length)).map Prod.fst ∧
      Frames o s.samples.data.length ((Transmission.places o.preamble 0 bursts).map fun p =>
        (Transmission.trigger o lead.length p, p.2.symbols.length)) := by
  have htriggers := h.triggers
  have hbehind : ∀ t ∈ SymbolCutter.triggersFrom 0 s.triggers.data, o.fft ≤ t := by
    intro t ht
    obtain ⟨p, -, rfl⟩ := h.exists_place ht
    rw [Transmission.trigger, Nat.add_mul]
    omega
  constructor
  · rw [SymbolCutter.triggersFrom_eq_zero hbehind, htriggers, List.map_map]
    rfl
  · refine frames_places hpreamble hlength hsymbol htimeout ?_
    have hpos := List.length_pos_iff.2 htail
    rw [h.data, List.length_append, List.length_append, hsent, Nat.zero_add]
    omega

/-- **What a cutter that has run dry has made of bursts.** -/
theorem Heard.cut_eq [Rounded τ] {sent : Record α τ}
    (h : Heard o lead tail bursts sent s.samples s.triggers.data) (hsound : s.Sound o emitted)
    (hdry : s.cutter.available < s.cutter.window) (hpreamble : 0 < o.preamble)
    (hlength : preamble.length = o.preamble) (hsymbol : 2 ≤ o.symbol)
    (hunits : ∀ x ∈ units preamble bursts, x.length = o.fft)
    (hshort : length ≤ o.fft) (hsum : o.symbol = length + o.fft)
    (hsent : sent.data = (units preamble bursts).flatMap (CyclicPrefixer.extension length))
    (hlead : o.fft < lead.length + o.preamble * o.symbol) (htail : tail ≠ [])
    (hbursts : ∀ b ∈ bursts, 0 < b.symbols.length ∧ b.symbols.length ≤ o.timeout)
    (htimes : ∀ p ∈ Transmission.places o.preamble 0 bursts,
      burstTime o s.samples.tags (Transmission.trigger o lead.length p) = .ok p.2.time)
    {last : List α} (hlast : preamble.getLast? = some last) :
    ∃ extras, extras.length = bursts.length ∧
      emitted.map (Segment.cut o s.samples) = cutSymbols last bursts extras := by
  have hsentLength : sent.data.length = (units preamble bursts).length * o.symbol := by
    rw [hsent, hsum]
    refine length_flatMap_of_length fun x hx => ?_
    rw [CyclicPrefixer.length_extension (hunits x hx ▸ hshort), hunits x hx]
  obtain ⟨htriggers, hframes⟩ := h.frames hpreamble hlength hsymbol (fun b hb => (hbursts b hb).2)
    hlead htail hsentLength
  obtain ⟨extras, hcount, hflags, rfl⟩ := hsound.frames_of_dry h.length hdry htriggers hframes
    fun q hq => by
      obtain ⟨p, hp, rfl⟩ := List.mem_map.1 hq
      exact (hbursts p.2 (Transmission.mem_of_mem_places hp)).1
  refine ⟨extras.map fun extra => extra.map (·.samples o.fft s.samples.data), ?_, ?_⟩
  · rw [List.length_map, hcount, List.length_map, ← List.length_map (f := (·.2)),
      Transmission.map_snd_places]
  · have hcuts : ∀ p ∈ Transmission.places o.preamble 0 bursts,
        (frame o.symbol (Transmission.trigger o lead.length p, p.2.symbols.length)).map
          (Segment.cut o s.samples) =
            ⟨last, 1, some p.2.time⟩ :: p.2.symbols.map fun x => ⟨x, 0, none⟩ := by
      intro p hp
      refine cut_frame ?_ (htimes p hp)
      rw [h.data, hsent]
      exact samples_frame hunits hshort hsum (by omega) hlength hlast hp
    rw [cut_frames hflags hcuts, Transmission.map_snd_places]

end Received

/-- **A cutter inverts framing**, in whatever pieces the three blocks are run.

Bursts are fed to an inserter, and what it emits to a prefixer. Neither gets stuck: a call of work
returns, and it goes as far as what it has got and the room allow. Once everything is consumed, a
cutter that hears the samples does not get stuck or fail either, as far as its lengths fit a word.
And once it has less than a window left, it has emitted one flagged symbol for each burst, which is
the last symbol of the preamble and has the time of the burst on it. Right behind it are the symbols
of the burst, without a flag. There may be more without a flag up to the next burst. -/
theorem cutter_inverts_framing [Inhabited α] [Field τ] [LinearOrder τ] [IsStrictOrderedRing τ]
    [FloorRing τ] {o : CutterOptions τ} (hsymbol : 2 ≤ o.symbol) (hfits : o.symbol ≤ 2 * o.fft)
    (hpolicy : o.policy = .rebase) {preamble : List (List α)} (hlength : preamble.length = o.preamble)
    {inserter : PreambleInserter α τ}
    (hinserter : PreambleInserter.ofPreamble o.fft preamble = .ok inserter)
    {prefixer : CyclicPrefixer α τ}
    (hprefixer : CyclicPrefixer.ofSizes o.fft o.symbol = .ok prefixer)
    {cutter : SymbolCutter α τ} (hcutter : o.build = .ok cutter)
    {name : String} {inserting : List (PreambleInserter.Event α τ)}
    {i : PreambleInserter.Session α τ}
    (hi : (PreambleInserter.Session.start inserter name).run inserting = .ok i)
    {name' : String} {prefixing : List (CyclicPrefixer.Event α τ)} {p : CyclicPrefixer.Session α τ}
    (hp : (CyclicPrefixer.Session.start prefixer name').run prefixing = .ok p)
    {cutting : List (SymbolCutter.Event α τ)} {s : SymbolCutter.Session α τ}
    (hs : (SymbolCutter.Session.start cutter).run cutting = .ok s)
    {bursts : List (Transmission α τ)} {blocks : List (List (PreambleInserter.Slot α τ))}
    (hfeeds : List.Forall₂ Transmission.Feeds bursts blocks)
    (hbursts : ∀ b ∈ bursts, b.symbols.length ≤ o.timeout ∧ b.time.Normal)
    (hfed : i.known = blocks.flatten) (hsent : p.input = i.inserter.output.total i.output)
    {lead tail : List α} (hlead : o.fft < lead.length + o.preamble * o.symbol) (htail : tail ≠ [])
    (hheard : Heard o lead tail bursts (p.prefixer.output.total p.output) s.samples s.triggers.data) :
    (∃ b finished, i.inserter.work i.source = .ok (b, finished) ∧ (b.ready = 0 ∨ b.room = 0)) ∧
    (∃ b finished, p.prefixer.work p.source = .ok (b, finished) ∧
      (b.input.items = 0 ∨ b.output.room < o.symbol ∨
        b.ends.connected = true ∧ b.ends.items = 0)) ∧
    (i.inserter.ready = 0 → p.prefixer.input.items = 0 →
      (∀ source queue, o.symbol + o.fft + 1 < wordLimit → o.preamble * o.symbol < wordLimit →
        ∃ turn, s.cutter.work source queue = .ok turn ∧ turn.failure = none ∧
          (turn.block.available < turn.block.window ∨ turn.block.symbols.room = 0 ∨
            turn.block.flags.room = 0)) ∧
      (s.cutter.available < s.cutter.window →
        ∃ last extras, preamble.getLast? = some last ∧ extras.length = bursts.length ∧
          s.Emitted o.fft (cutSymbols last bursts extras))) := by
  obtain ⟨emitted, hisound⟩ := PreambleInserter.Session.exists_sound hinserter hi
  obtain ⟨-, hmadeLength, hmadePreamble⟩ := PreambleInserter.Session.sound_start hinserter name
  obtain ⟨hpsound, hshort⟩ := CyclicPrefixer.Session.exists_sound hprefixer hfits hp
  obtain ⟨-, hinput, houtput⟩ := CyclicPrefixer.Session.sound_start hprefixer name'
  obtain ⟨hfft, htimeout, -⟩ := SymbolCutter.Session.sound_start hcutter
  obtain ⟨b, finished, hwork, hstop⟩ := hpsound.work_returns hshort
  rw [houtput] at hstop
  refine ⟨hisound.work_returns, ⟨b, finished, hwork, hstop⟩, fun hready hitems => ?_⟩
  have hmade : inserter.preamble.length = o.preamble := by rw [hmadePreamble, hlength]
  have hpreamble : 0 < o.preamble := hmade ▸ List.length_pos_iff.2 inserter.preamble_ne
  have hsum : o.symbol = prefixer.prefixLength + o.fft := by
    have hle := prefixer.input_le
    rw [CyclicPrefixer.prefixLength, houtput, hinput]
    omega
  obtain ⟨hdata, hcarry⟩ := sent_eq hisound hpsound hready hitems hfed hfeeds hsent
    (hmadeLength.trans hinput.symm) hmade houtput
  have hunits := length_of_mem_units hisound (emitted_eq_units hisound hready hfed hfeeds)
  rw [hmadePreamble, hmadeLength] at hunits
  rw [hmadePreamble] at hdata
  have hheardCarry := hheard.carryTimes hcarry
  have htimes : ∀ q ∈ Transmission.places o.preamble 0 bursts,
      burstTime o s.samples.tags (Transmission.trigger o lead.length q) = .ok q.2.time := fun q hq =>
    hheardCarry.burstTime_eq hpreamble (by omega) hq
      (hbursts q.2 (Transmission.mem_of_mem_places hq)).2
  obtain ⟨segments, hsound, htimed⟩ :=
    SymbolCutter.Session.exists_timed hcutter hpolicy hs hheardCarry.timesGiven
  constructor
  · intro source queue hwindow hfitsWord
    have htriggered : ∀ t ∈ SymbolCutter.triggersFrom o.fft s.triggers.data,
        ∃ time, burstTime o s.samples.tags t = .ok time := by
      intro t ht
      obtain ⟨q, hq, rfl⟩ := hheard.exists_place ht
      exact ⟨_, htimes q hq⟩
    obtain ⟨turn, hturn, hok⟩ := htimed.work_returns hsound hfft htimeout hpolicy
      hheardCarry.timesGiven htriggered hwindow hfitsWord source queue
    exact ⟨turn, hturn, hok, SymbolCutter.work_stops hturn hok⟩
  · intro hdry
    have hlast := List.getLast?_eq_some_getLast (hmadePreamble ▸ inserter.preamble_ne)
    have hpos := PreambleInserter.symbols_pos hfeeds
    obtain ⟨extras, hcount, hcut⟩ := hheard.cut_eq hsound hdry hpreamble hlength hsymbol hunits
      (hinput ▸ hshort) hsum hdata hlead htail (fun b hb => ⟨hpos b hb, (hbursts b hb).1⟩) htimes
      hlast
    exact ⟨_, extras, hlast, hcount, hcut ▸ htimed.emitted_cut hsound⟩

/-- The two bursts come back. -/
theorem cutter_inverts_framing_two_bursts :
    ∃ (s : SymbolCutter.Session Nat ℚ) (extras : List (List (List Nat))), extras.length = 2 ∧
      s.Emitted 1 (cutSymbols [7] shortBursts extras) ∧
      s.symbolsOut = [7, 1, 7, 5] ∧ s.flagsOut = [1, 0, 1, 0] := by
  obtain ⟨inserter, i, prefixer, p, first, second, hinserter, hi, hprefixer, hp, ⟨hknown, hfeeds⟩,
    ⟨hready, hitems⟩, hsent, htotal⟩ := exists_framed
  obtain ⟨cutter, s, hcutter, hs, hsamples, htriggers, hdry, hsymbols, hflags⟩ := exists_cut
  have hbursts : ∀ b ∈ shortBursts, b.symbols.length ≤ shortOptions.timeout ∧ b.time.Normal := by
    intro b hb
    simp only [shortBursts, List.mem_cons, List.not_mem_nil, or_false] at hb
    obtain rfl | rfl := hb
    · exact ⟨by decide, by norm_num, by decide⟩
    · exact ⟨by decide, by norm_num, by decide⟩
  have hheard : Heard shortOptions [0] [0] shortBursts (p.prefixer.output.total p.output) s.samples
      s.triggers.data := by
    rw [htotal, hsamples, htriggers]
    refine ⟨rfl, rfl, by decide, fun index value => ?_⟩
    have hother : Tag.txStart ≠ Tag.txTime := by decide
    simp [shortTags, timed, hother]
  obtain ⟨-, -, hback⟩ := cutter_inverts_framing (o := shortOptions) (by decide) (by decide) rfl
    rfl hinserter hprefixer hcutter hi hp hs hfeeds hbursts hknown hsent (by decide)
    (List.cons_ne_nil 0 []) hheard
  obtain ⟨last, extras, hlast, hcount, hemitted⟩ := (hback hready hitems).2 hdry
  cases hlast
  exact ⟨s, extras, hcount, hemitted, hsymbols, hflags⟩

end OfdmBurst
