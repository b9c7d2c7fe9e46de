import OfdmBurst.Proofs.Frame.Isolation

/-!
# Whose time a message bears

The time and the carrier offset of a burst are read from the tags on its flagged symbol, and they
are put into its message when its last byte is there, many symbols later. In between they wait in
fields of the decoder that belong to no burst. A burst that is passed over writes to them as well,
and so does one whose header is refused later, and nothing clears them.

So the module asks where the contents of the fields came from. `BurstDecoder.met` are the flagged
symbols that were met while searching, in order, and `noted` is what the last of them that had
anything to say has said. The fields are always that. While a burst goes on no symbol is met, so at
the end of a burst the fields still hold what they held when it began, and what they held then is
what its own flagged symbol said, or, if that one was silent, the last that was not.

Which burst a message belongs to is said by the states: a burst begins with the reception that
takes the decoder from searching to not searching, and it goes on until the decoder searches again.

## Main definitions

* `Reception.tells` — what the last tag with a key says
* `BurstDecoder.met`, `noted` — the flagged symbols met while searching, and what was last said
* `BurstDecoder.Begins`, `BurstDecoder.Belongs` — a burst, and a message of it
* `BurstDecoder.Heeds` — receptions that differ where nobody looks

## Main results

* `BurstDecoder.noted_trace` — what the fields hold
* `BurstDecoder.Follows.exists_owner` — a burst that goes on has begun somewhere
* `BurstDecoder.Follows.exists_belongs` — so has the burst of a message, and the message bears what
  was said then
* `BurstDecoder.Heeds.trace` — flags and tags inside of a burst change nothing
-/

namespace OfdmBurst

open BurstDecoder (said)

/-! ### What is said -/

/-- All tags of a reception are on one item. -/
def Reception.Placed (r : Reception) : Prop := ∃ i, ∀ t ∈ r.tags, t.index = i

/-- What the last tag with a key says. -/
def Reception.tells {β : Type} (r : Reception) (key : String) (value : Tag Float → Option β) :
    Option β :=
  (r.tags.filter (·.key == key)).getLast?.bind value

theorem Reception.Placed.said_eq {β : Type} {r : Reception} (h : r.Placed) (key : String)
    (value : Tag Float → Option β) : said r.tags key value = r.tells key value := by
  obtain ⟨i, hplaced⟩ := h
  rw [said, Reception.tells, Tag.latest?_eq_getLast? fun t ht => hplaced t (List.mem_filter.1 ht).1]

/-- What was said last by receptions that may be silent. -/
def noted {β : Type} (key : String) (value : Tag Float → Option β) (rs : List Reception) :
    Option β :=
  (rs.filterMap fun r => r.tells key value).getLast?

theorem noted_concat {β : Type} (key : String) (value : Tag Float → Option β) (rs : List Reception)
    (r : Reception) :
    noted key value (rs ++ [r]) = (r.tells key value).or (noted key value rs) := by
  rw [noted, List.filterMap_append, List.filterMap_cons, List.filterMap_nil]
  cases r.tells key value with
  | none =>
    rw [List.append_nil]
    rfl
  | some x => exact List.getLast?_concat

namespace BurstDecoder

variable {policy : MissingTagPolicy} {map : CarrierMap} {fresh : Demapper Float32}
  {d : BurstDecoder} {r : Reception} {rs : List Reception} {result : Result}
  {results : List Result}

/-! ### One reception -/

/-- While it searches, a decoder looks at flagged symbols only, and nothing comes of them. -/
theorem step_of_searching (hsearching : d.searching = true)
    (h : d.step r.flagged r.tags r.symbol = .ok result) :
    result = { decoder := if r.flagged then d.meet r.tags else d } := by
  rw [step, searching_iff.1 hsearching] at h
  exact (Except.ok.inj h).symm

/-- A verdict leaves time and offset alone, and a message takes them along and ends the burst. -/
theorem conclude_fields (d : BurstDecoder) (verdict : FrameParser.Verdict) :
    (d.conclude verdict).1.time = d.time ∧ (d.conclude verdict).1.offset = d.offset ∧
      ∀ m, (d.conclude verdict).2 = some m →
        m.time = d.time ∧ m.offset = d.offset ∧ (d.conclude verdict).1.searching = true := by
  cases verdict with
  | more parser => exact ⟨rfl, rfl, fun m hm => by cases hm⟩
  | refused => exact ⟨rfl, rfl, fun m hm => by cases hm⟩
  | frame header payload =>
    refine ⟨rfl, rfl, fun m hm => ?_⟩
    cases hm
    exact ⟨rfl, rfl, rfl⟩

/-- Inside of a burst, neither flags nor tags are looked at. -/
theorem step_of_burst (hgoing : d.searching = false) (flagged flagged' : Bool)
    (tags tags' : List (Tag Float)) (symbol : List Sample) :
    d.step flagged tags symbol = d.step flagged' tags' symbol := by
  cases hparser : d.parser with
  | none => exact absurd (searching_iff.2 hparser) (by rw [hgoing]; exact Bool.false_ne_true)
  | some parser => simp only [step, hparser]

/-- Inside of a burst time and offset stay, and a message takes them along and ends the burst. -/
theorem step_keeps (hgoing : d.searching = false)
    (h : d.step r.flagged r.tags r.symbol = .ok result) :
    result.decoder.time = d.time ∧ result.decoder.offset = d.offset ∧
      ∀ m, result.message = some m →
        m.time = d.time ∧ m.offset = d.offset ∧ result.decoder.searching = true := by
  cases hparser : d.parser with
  | none => exact absurd (searching_iff.2 hparser) (by rw [hgoing]; exact Bool.false_ne_true)
  | some parser =>
    simp only [step, hparser, Fault.bind_eq_ok_iff, Fault.pure_eq_ok_iff] at h
    obtain ⟨⟨demapper, report⟩, -, rfl⟩ := h
    exact conclude_fields _ _

/-- Time and offset after a reception. -/
theorem step_fields (hplaced : r.Placed) (h : d.step r.flagged r.tags r.symbol = .ok result) :
    result.decoder.time =
        (if d.searching && r.flagged then r.tells Tag.syncTime Tag.time? else none).or d.time ∧
      result.decoder.offset =
        (if d.searching && r.flagged then r.tells Tag.syncOffset Tag.number? else none).or
          d.offset := by
  cases hsearching : d.searching with
  | false =>
    obtain ⟨htime, hoffset, -⟩ := step_keeps hsearching h
    exact ⟨htime, hoffset⟩
  | true =>
    rw [step_of_searching hsearching h]
    cases r.flagged with
    | false => exact ⟨rfl, rfl⟩
    | true =>
      simp only [Bool.and_self, ↓reduceIte, meet_eq, ← hplaced.said_eq]
      split
      · exact ⟨rfl, rfl⟩
      · exact ⟨rfl, rfl⟩

/-! ### What was met -/

/-- The flagged symbols that a decoder met while searching. -/
def met (d : BurstDecoder) : List Reception → List Result → List Reception
  | r :: rs, result :: results =>
    if d.searching && r.flagged then r :: result.decoder.met rs results
    else result.decoder.met rs results
  | _, _ => []

theorem met_concat {front : List Result} (hlength : front.length = rs.length) (r : Reception)
    (result : Result) :
    d.met (rs ++ [r]) (front ++ [result]) =
      d.met rs front ++ if (d.reached front).searching && r.flagged then [r] else [] := by
  induction rs generalizing d front with
  | nil =>
    obtain rfl := List.eq_nil_of_length_eq_zero hlength
    rfl
  | cons x rest ih =>
    obtain ⟨a, more, rfl⟩ := List.exists_cons_of_length_eq_add_one hlength
    have hmore := ih (d := a.decoder) (Nat.succ.inj hlength)
    rw [List.cons_append, List.cons_append, met, met, hmore, reached_cons]
    split
    · rfl
    · rfl

/-- **What the fields hold**: what was last said by a flagged symbol met while searching. -/
theorem noted_trace (hplaced : ∀ r ∈ rs, r.Placed) (ht : d.trace rs = .ok results) :
    (d.reached results).time =
        (noted Tag.syncTime Tag.time? (d.met rs results)).or d.time ∧
      (d.reached results).offset =
        (noted Tag.syncOffset Tag.number? (d.met rs results)).or d.offset := by
  induction rs using List.reverseRecOn generalizing results with
  | nil =>
    cases ht
    exact ⟨rfl, rfl⟩
  | append_singleton rs r ih =>
    obtain ⟨front, result, hfront, hresult, rfl⟩ := trace_concat_eq_ok_iff.1 ht
    obtain ⟨htime, hoffset⟩ := ih (fun x hx => hplaced x (List.mem_append_left _ hx)) hfront
    obtain ⟨htime', hoffset'⟩ :=
      step_fields (hplaced r (List.mem_append_right _ List.mem_cons_self)) hresult
    rw [reached_concat, met_concat (length_trace hfront), htime', hoffset', htime, hoffset]
    cases (d.reached front).searching && r.flagged with
    | false =>
      simp only [Bool.false_eq_true, ↓reduceIte, List.append_nil, Option.none_or, and_self]
    | true => simp only [↓reduceIte, noted_concat, Option.or_assoc, and_self]

/-! ### Bursts -/

/-- A burst begins with reception `b`. -/
structure Begins (d : BurstDecoder) (results : List Result) (b : Nat) : Prop where
  /-- In front of the reception the decoder searches. -/
  searches : (d.reached (results.take b)).searching = true
  /-- Behind it the decoder does not. -/
  starts : ∃ a, results[b]? = some a ∧ a.decoder.searching = false

/-- The burst that goes on behind all receptions began with reception `b`. -/
structure Owns (policy : MissingTagPolicy) (map : CarrierMap) (fresh : Demapper Float32)
    (d : BurstDecoder) (rs : List Reception) (results : List Result) (b : Nat) : Prop where
  /-- The burst begins there. -/
  begins : d.Begins results b
  /-- It has not ended since. -/
  goesOn : ∀ j a, b ≤ j → results[j]? = some a → a.decoder.searching = false
  /-- Its symbols are those received since. -/
  burst : (parse policy map fresh rs).burst = some ((rs.drop (b + 1)).map (·.symbol))
  /-- The time is as it was when the burst began. -/
  time_eq : (d.reached results).time = (d.reached (results.take (b + 1))).time
  /-- So is the carrier offset. -/
  offset_eq : (d.reached results).offset = (d.reached (results.take (b + 1))).offset

theorem Begins.lt_length {b : Nat} (h : d.Begins results b) : b < results.length := by
  obtain ⟨a, ha, -⟩ := h.starts
  exact (List.getElem?_eq_some_iff.1 ha).1

/-- More receptions do not change where a burst began. -/
theorem Begins.append {b : Nat} (h : d.Begins results b) (more : List Result) :
    d.Begins (results ++ more) b := by
  obtain ⟨a, ha, hgoing⟩ := h.starts
  refine ⟨?_, a, ?_, hgoing⟩
  · rw [List.take_append_of_le_length (Nat.le_of_lt h.lt_length)]
    exact h.searches
  · rw [List.getElem?_append_left h.lt_length, ha]

/-- A burst begins with a flagged symbol that the policy accepts. -/
theorem Follows.accepts_of_begins (h : Follows policy map fresh d none)
    (ht : d.trace rs = .ok results) {b : Nat} (hbegins : d.Begins results b) :
    ∃ r, rs[b]? = some r ∧ (d.reached (results.take b)).searching = true ∧ r.flagged = true ∧
      policy.accepts r.tags = true := by
  obtain ⟨a, ha, hgoing⟩ := hbegins.starts
  obtain ⟨r, hr, hresult⟩ := step_of_trace ht ha
  have hfollows := (h.trace (trace_take ht b)).1
  refine ⟨r, hr, hbegins.searches, ?_⟩
  rw [step_of_searching hbegins.searches hresult] at hgoing
  cases hflag : r.flagged with
  | false =>
    simp only [hflag, Bool.false_eq_true, ↓reduceIte, hbegins.searches] at hgoing
    cases hgoing
  | true =>
    refine ⟨rfl, ?_⟩
    simp only [hflag, ↓reduceIte, meet_eq, hfollows.policy_eq] at hgoing
    by_contra hrefused
    rw [if_neg hrefused] at hgoing
    have hstill : (d.reached (results.take b)).searching = false := hgoing
    rw [hbegins.searches] at hstill
    cases hstill

/-- A burst that begins with the last reception. -/
theorem Follows.owns_new (h : Follows policy map fresh d none) {front : List Result}
    (ht : d.trace (rs ++ [r]) = .ok (front ++ [result]))
    (hsearching : (d.reached front).searching = true) (hgoing : result.decoder.searching = false) :
    Owns policy map fresh d (rs ++ [r]) (front ++ [result]) rs.length := by
  obtain ⟨_, _, hfront, -, heq⟩ := trace_concat_eq_ok_iff.1 ht
  obtain ⟨rfl, -⟩ := List.append_inj' heq rfl
  have hlength := length_trace hfront
  have hburst := (h.trace hfront).1.searching_eq
  have hall : (front ++ [result]).take (rs.length + 1) = front ++ [result] :=
    List.take_of_length_le
      (Nat.le_of_eq (by rw [List.length_append, List.length_singleton, hlength]))
  have hlast : (front ++ [result])[rs.length]? = some result := by
    rw [← hlength, List.getElem?_concat_length]
  have hbegins : d.Begins (front ++ [result]) rs.length := by
    refine ⟨?_, result, hlast, hgoing⟩
    rw [List.take_left' hlength]
    exact hsearching
  obtain ⟨x, hx, -, hflag, haccepts⟩ := h.accepts_of_begins ht hbegins
  obtain rfl : r = x := by
    rw [List.getElem?_concat_length] at hx
    exact Option.some.inj hx
  refine ⟨hbegins, fun j a hj ha => ?_, ?_, by rw [hall], by rw [hall]⟩
  · have hlt := (List.getElem?_eq_some_iff.1 ha).1
    rw [List.length_append, List.length_singleton] at hlt
    obtain rfl : j = rs.length := by omega
    rw [hlast] at ha
    cases ha
    exact hgoing
  · rw [hsearching] at hburst
    have hbetween := Option.isNone_iff_eq_none.1 hburst.symm
    have hnone : (rs ++ [r]).drop (rs.length + 1) = [] :=
      List.drop_of_length_le (Nat.le_of_eq (by rw [List.length_append, List.length_singleton]))
    rw [parse_concat, Parse.next, hbetween, hnone]
    simp only [hflag, haccepts, Bool.and_self, ↓reduceIte, List.map_nil]

/-- A burst that goes on with the last reception. -/
theorem Follows.owns_more (h : Follows policy map fresh d none) {front : List Result} {b : Nat}
    (hb : Owns policy map fresh d rs front b) (hfront : d.trace rs = .ok front)
    (hresult : (d.reached front).step r.flagged r.tags r.symbol = .ok result)
    (hgoing : result.decoder.searching = false) :
    Owns policy map fresh d (rs ++ [r]) (front ++ [result]) b := by
  have hlength := length_trace hfront
  have hlt := hb.begins.lt_length
  have hfollows := (h.trace hfront).1
  have htake : (front ++ [result]).take (b + 1) = front.take (b + 1) :=
    List.take_append_of_le_length hlt
  obtain ⟨htime, hoffset, -⟩ := step_keeps
    (by rw [hfollows.searching_eq, hb.burst]; rfl) hresult
  refine ⟨hb.begins.append _, fun j a hj ha => ?_, ?_, ?_, ?_⟩
  · rcases Nat.lt_or_ge j front.length with hold | hnew
    · rw [List.getElem?_append_left hold] at ha
      exact hb.goesOn j a hj ha
    · have hin := (List.getElem?_eq_some_iff.1 ha).1
      rw [List.length_append, List.length_singleton] at hin
      obtain rfl : j = front.length := by omega
      rw [List.getElem?_concat_length] at ha
      cases ha
      exact hgoing
  · have hmore := (hfollows.step hresult).1.searching_eq
    rw [hgoing] at hmore
    rw [parse_concat, List.drop_append_of_le_length (by omega), List.map_append, List.map_singleton]
    revert hmore
    simp only [Parse.next, hb.burst]
    split
    · exact fun _ => rfl
    · exact fun hover => absurd hover Bool.false_ne_true
    · exact fun hover => absurd hover Bool.false_ne_true
  · rw [reached_concat, htake, htime, hb.time_eq]
  · rw [reached_concat, htake, hoffset, hb.offset_eq]

/-- **A burst that goes on has begun somewhere**, and it is made of all symbols since. -/
theorem Follows.exists_owner (h : Follows policy map fresh d none)
    (ht : d.trace rs = .ok results) (hgoing : (d.reached results).searching = false) :
    ∃ b, Owns policy map fresh d rs results b := by
  induction rs using List.reverseRecOn generalizing results with
  | nil =>
    cases ht
    have hnever := h.searching_eq.symm.trans hgoing
    exact absurd hnever.symm Bool.false_ne_true
  | append_singleton rs r ih =>
    obtain ⟨front, result, hfront, hresult, rfl⟩ := trace_concat_eq_ok_iff.1 ht
    rw [reached_concat] at hgoing
    cases hbefore : (d.reached front).searching with
    | true => exact ⟨rs.length, h.owns_new ht hbefore hgoing⟩
    | false =>
      obtain ⟨b, hb⟩ := ih hfront hbefore
      exact ⟨b, h.owns_more hb hfront hresult hgoing⟩

/-! ### Messages -/

/-- The message that reception `i` completed is of the burst that began with reception `b`: its
bytes are those of the symbols in between, and its time and offset are what was last said up to the
flagged symbol of the burst. Under the strict policy that symbol itself has said both. -/
structure Belongs (policy : MissingTagPolicy) (map : CarrierMap) (fresh : Demapper Float32)
    (d : BurstDecoder) (rs : List Reception) (results : List Result) (m : Message) (b i : Nat) :
    Prop where
  /-- The message is completed behind the beginning of the burst. -/
  lt : b < i
  /-- The burst begins there. -/
  begins : d.Begins results b
  /-- In between the decoder does not search. -/
  goesOn : ∀ j a, b ≤ j → j < i → results[j]? = some a → a.decoder.searching = false
  /-- With the message the burst is over. -/
  ends : (d.reached (results.take (i + 1))).searching = true
  /-- The message is the frame in the bytes of the symbols in between. -/
  frame : ∃ offset payload,
    judge (fresh.completed map (((rs.take (i + 1)).drop (b + 1)).map (·.symbol))) =
      some (.frame offset payload) ∧ m.view = (⟨offset, payload, i - b⟩ : Frame).view
  /-- Its time is the last one said while searching, up to the beginning of the burst. -/
  time_eq : m.time = noted Tag.syncTime Tag.time? (d.met (rs.take (b + 1)) (results.take (b + 1)))
  /-- Its carrier offset is the last one said until then. -/
  offset_eq :
    m.offset = noted Tag.syncOffset Tag.number? (d.met (rs.take (b + 1)) (results.take (b + 1)))
  /-- Under the strict policy the flagged symbol itself has said both. -/
  own : policy = .drop → ∃ r time offset, rs[b]? = some r ∧
    r.tells Tag.syncTime Tag.time? = some time ∧ r.tells Tag.syncOffset Tag.number? = some offset ∧
    m.time = some time ∧ m.offset = some offset

/-- Under the strict policy a burst begins with a symbol that says both. -/
theorem Follows.tells_of_begins (h : Follows policy map fresh d none)
    (hplaced : ∀ r ∈ rs, r.Placed) (ht : d.trace rs = .ok results) {b : Nat}
    (hbegins : d.Begins results b) :
    ∃ r, rs[b]? = some r ∧ r.flagged = true ∧
      d.met (rs.take (b + 1)) (results.take (b + 1)) =
        d.met (rs.take b) (results.take b) ++ [r] ∧
      (policy = .drop → (r.tells Tag.syncTime Tag.time?).isSome = true ∧
        (r.tells Tag.syncOffset Tag.number?).isSome = true) := by
  obtain ⟨r, hr, hsearching, hflag, haccepts⟩ := h.accepts_of_begins ht hbegins
  obtain ⟨a, ha, -⟩ := hbegins.starts
  refine ⟨r, hr, hflag, ?_, fun hdrop => ?_⟩
  · have hlength := length_trace (trace_take ht b)
    rw [List.take_add_one, List.take_add_one, hr, ha]
    show d.met (rs.take b ++ [r]) (results.take b ++ [a]) = _
    rw [met_concat hlength, hsearching, hflag]
    rfl
  · have hwhere := hplaced r (List.mem_of_getElem? hr)
    rw [hdrop, MissingTagPolicy.accepts, Bool.and_eq_true, hwhere.said_eq, hwhere.said_eq]
      at haccepts
    exact haccepts

/-- The frame in a message that the last symbol of a burst completes. -/
theorem Follows.judge_of_message {before : List (List Sample)}
    (h : Follows policy map fresh d (some before)) {m : Message}
    (hresult : d.step r.flagged r.tags r.symbol = .ok result) (hm : result.message = some m) :
    ∃ offset payload, judge (fresh.completed map (before ++ [r.symbol])) =
        some (.frame offset payload) ∧
      m.view = (⟨offset, payload, (before ++ [r.symbol]).length⟩ : Frame).view := by
  have hframes : ((⟨some before, []⟩ : Parse).next policy map fresh r).frames.map Frame.view =
      [].map Frame.view ++ result.message.toList.map Message.view := (h.step_burst hresult).2
  rw [hm] at hframes
  revert hframes
  simp only [Parse.next]
  split
  · exact fun hnone => by cases hnone
  · exact fun hnone => by cases hnone
  next offset payload hjudge =>
    exact fun hone => ⟨offset, payload, hjudge, (List.singleton_inj.1 hone).symm⟩

/-- While a burst goes on, the fields of a decoder that was new hold what was said last when it
began. -/
theorem Owns.noted {b : Nat} (hb : Owns policy map fresh d rs results b)
    (hnew : d.time = none ∧ d.offset = none) (hplaced : ∀ r ∈ rs, r.Placed)
    (ht : d.trace rs = .ok results) :
    (d.reached results).time =
        noted Tag.syncTime Tag.time? (d.met (rs.take (b + 1)) (results.take (b + 1))) ∧
      (d.reached results).offset =
        noted Tag.syncOffset Tag.number? (d.met (rs.take (b + 1)) (results.take (b + 1))) := by
  obtain ⟨htime, hoffset⟩ :=
    noted_trace (fun r hr => hplaced r (List.mem_of_mem_take hr)) (trace_take ht (b + 1))
  rw [hnew.1, Option.or_none] at htime
  rw [hnew.2, Option.or_none] at hoffset
  exact ⟨hb.time_eq.trans htime, hb.offset_eq.trans hoffset⟩

/-- Under the strict policy what was said last when a burst began was said by its own flagged
symbol. -/
theorem Follows.noted_of_begins (h : Follows policy map fresh d none)
    (hplaced : ∀ r ∈ rs, r.Placed) (ht : d.trace rs = .ok results) {b : Nat}
    (hbegins : d.Begins results b) (hdrop : policy = .drop) :
    ∃ r time offset, rs[b]? = some r ∧
      r.tells Tag.syncTime Tag.time? = some time ∧ r.tells Tag.syncOffset Tag.number? = some offset ∧
      noted Tag.syncTime Tag.time? (d.met (rs.take (b + 1)) (results.take (b + 1))) = some time ∧
      noted Tag.syncOffset Tag.number? (d.met (rs.take (b + 1)) (results.take (b + 1))) =
        some offset := by
  obtain ⟨r, hr, -, hmet, hboth⟩ := h.tells_of_begins hplaced ht hbegins
  obtain ⟨htime, hoffset⟩ := hboth hdrop
  obtain ⟨time, hsome⟩ := Option.isSome_iff_exists.1 htime
  obtain ⟨offset, hsome'⟩ := Option.isSome_iff_exists.1 hoffset
  refine ⟨r, time, offset, hr, hsome, hsome', ?_, ?_⟩
  · rw [hmet, noted_concat, hsome, Option.some_or]
  · rw [hmet, noted_concat, hsome', Option.some_or]

/-- The messages are those of the frames of the reference. -/
theorem Follows.frames_trace (h : Follows policy map fresh d none) (ht : d.trace rs = .ok results) :
    (results.filterMap (·.message)).map Message.view =
      (parse policy map fresh rs).frames.map Frame.view := by
  induction rs using List.reverseRecOn generalizing results with
  | nil =>
    cases ht
    rfl
  | append_singleton rs r ih =>
    obtain ⟨front, result, hfront, hresult, rfl⟩ := trace_concat_eq_ok_iff.1 ht
    rw [messages_concat, List.map_append, ih hfront, parse_concat,
      ((h.trace hfront).1.step hresult).2]

/-- **A message belongs to a burst**, from beginning to end, and bears what was said when the burst
began. -/
theorem Follows.exists_belongs (h : Follows policy map fresh d none)
    (hnew : d.time = none ∧ d.offset = none) (hplaced : ∀ r ∈ rs, r.Placed)
    (ht : d.trace rs = .ok results) {i : Nat} {m : Message} (hresult : results[i]? = some result)
    (hm : result.message = some m) :
    ∃ b, Belongs policy map fresh d rs results m b i := by
  obtain ⟨r, hr, hlast⟩ := step_of_trace ht hresult
  have hlt : i < rs.length := (List.getElem?_eq_some_iff.1 hr).1
  have hfront := trace_take ht i
  have hsplit : rs.take (i + 1) = rs.take i ++ [r] := by
    rw [List.take_add_one, hr]
    rfl
  have hgoing : (d.reached (results.take i)).searching = false := by
    by_contra hsearching
    rw [Bool.not_eq_false] at hsearching
    rw [step_of_searching hsearching hlast] at hm
    cases hm
  obtain ⟨b, hb⟩ := h.exists_owner hfront hgoing
  have hbegins : d.Begins results b := by
    have hmore := hb.begins.append (results.drop i)
    rwa [List.take_append_drop] at hmore
  have hbi : b < i := by
    have hlength := hb.begins.lt_length
    rw [List.length_take] at hlength
    omega
  have hfollows := (h.trace hfront).1
  rw [hb.burst] at hfollows
  obtain ⟨htime, hoffset, hends⟩ := (step_keeps hgoing hlast).2.2 m hm
  obtain ⟨hnoted, hnoted'⟩ :=
    hb.noted hnew (fun r hr => hplaced r (List.mem_of_mem_take hr)) hfront
  rw [List.take_take, List.take_take, Nat.min_eq_left hbi] at hnoted hnoted'
  refine ⟨b, hbi, hbegins, fun j a hbj hji ha => ?_, ?_, ?_, htime.trans hnoted,
    hoffset.trans hnoted', fun hdrop => ?_⟩
  · refine hb.goesOn j a hbj ?_
    rw [List.getElem?_take_of_lt hji, ha]
  · rw [reached_take hresult]
    exact hends
  · obtain ⟨offset, payload, hjudge, hview⟩ := hfollows.judge_of_message hlast hm
    have hsymbols : ((rs.take i).drop (b + 1)).map (·.symbol) ++ [r.symbol] =
        ((rs.take (i + 1)).drop (b + 1)).map (·.symbol) := by
      rw [hsplit, List.drop_append_of_le_length (by rw [List.length_take]; omega), List.map_append]
      rfl
    have hcount : (((rs.take (i + 1)).drop (b + 1)).map (·.symbol)).length = i - b := by
      rw [List.length_map, List.length_drop, List.length_take]
      omega
    rw [hsymbols] at hjudge hview
    rw [hcount] at hview
    exact ⟨offset, payload, hjudge, hview⟩
  · obtain ⟨x, time, offset, hx, htells, htells', hsaid, hsaid'⟩ :=
      h.noted_of_begins hplaced ht hbegins hdrop
    exact ⟨x, time, offset, hx, htells, htells', (htime.trans hnoted).trans hsaid,
      (hoffset.trans hnoted').trans hsaid'⟩

/-! ### What nobody looks at -/

/-- Other receptions with the same symbols, which do not differ where the decoder searches. -/
structure Heeds (d : BurstDecoder) (results : List Result) (rs rs' : List Reception) : Prop where
  /-- There are as many receptions. -/
  length_eq : rs'.length = rs.length
  /-- Their symbols are the same. -/
  symbol_eq : ∀ (i : Nat) (r r' : Reception), rs[i]? = some r → rs'[i]? = some r' →
    r'.symbol = r.symbol
  /-- Where the decoder searches, so are their flags and tags. -/
  eq_of_searching : ∀ (i : Nat) (r r' : Reception), rs[i]? = some r → rs'[i]? = some r' →
    (d.reached (results.take i)).searching = true → r' = r

/-- **Flags and tags inside of a burst change nothing.** -/
theorem Heeds.trace {rs' : List Reception} (h : d.Heeds results rs rs')
    (ht : d.trace rs = .ok results) : d.trace rs' = .ok results := by
  induction rs generalizing d rs' results with
  | nil =>
    obtain rfl := List.eq_nil_of_length_eq_zero h.length_eq
    exact ht
  | cons r rest ih =>
    obtain ⟨r', rest', rfl⟩ := List.exists_cons_of_length_eq_add_one h.length_eq
    obtain ⟨a, more, ha, hmore, rfl⟩ := trace_cons_eq_ok_iff.1 ht
    have hfirst : d.step r'.flagged r'.tags r'.symbol = .ok a := by
      cases hsearching : d.searching with
      | true => rw [h.eq_of_searching 0 r r' rfl rfl hsearching, ha]
      | false =>
        rw [step_of_burst hsearching r'.flagged r.flagged r'.tags r.tags,
          h.symbol_eq 0 r r' rfl rfl, ha]
    have hrest : a.decoder.Heeds more rest rest' := by
      refine ⟨Nat.succ.inj h.length_eq, fun i x x' hx hx' => h.symbol_eq (i + 1) x x' hx hx',
        fun i x x' hx hx' hsearching => h.eq_of_searching (i + 1) x x' hx hx' ?_⟩
      rw [List.take_succ_cons, reached_cons]
      exact hsearching
    exact trace_cons_eq_ok_iff.2 ⟨a, more, hfirst, ih hrest hmore, rfl⟩

/-- Where receptions are in the stream changes nothing either. -/
theorem trace_unplaced (d : BurstDecoder) (hplaced : ∀ r ∈ rs, r.Placed) :
    d.trace (rs.map Reception.unplaced) = d.trace rs := by
  induction rs generalizing d with
  | nil => rfl
  | cons r rest ih =>
    obtain ⟨i, hi⟩ := hplaced r List.mem_cons_self
    rw [List.map_cons, trace, trace, step_unplaced d hi]
    refine bind_congr fun result => ?_
    rw [ih result.decoder fun x hx => hplaced x (List.mem_cons_of_mem _ hx)]

end BurstDecoder

end OfdmBurst
