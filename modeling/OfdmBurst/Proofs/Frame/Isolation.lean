import OfdmBurst.Proofs.Frame.Reception
import OfdmBurst.Proofs.Stream.Record

/-!
# What a burst leaves behind

A decoder that has been through bursts differs from a new one in almost everything it holds: in its
taps and its phase, in bits that wait for the rest of their byte, in powers that were added up, in
the time and the carrier offset that were last known. None of this reaches the next burst. The
symbol that begins a burst starts the demapper, the parser and the quality afresh, and if it brings
both tags it replaces the time and the offset as well, so that nothing old is left.

The module compares two decoders with any past by what they make of the same receptions. Their
`trace` is the list of what every reception leads to, with the state behind it. Before the first
flagged symbol the two states may differ, but nothing comes of it; from that symbol on the traces
are the same. And what the demapper is at any later place is computed by a fresh one from the
symbols of the last burst alone.

Tags travel with an index of their stream, and two decoders may be at different places of theirs.
So receptions are compared with their tags counted from their own item.

## Main definitions

* `Reception.unplaced` — a reception wherever it is in the stream
* `lastBurst` — the symbols of the last burst that has begun
* `BurstDecoder.trace`, `BurstDecoder.reached` — what comes of receptions

## Main results

* `BurstDecoder.Follows.trace` — the demapper has been through the last burst and nothing else
* `BurstDecoder.trace_agree` — two decoders do not differ from the first flagged symbol on
-/

namespace OfdmBurst

/-! ### The last burst -/

section Reference

variable (policy : MissingTagPolicy) (map : CarrierMap) (fresh : Demapper Float32)

/-- The symbols of the last burst that has begun, after one more reception. -/
def Parse.recent (p : Parse) (symbols : List (List Sample)) (r : Reception) :
    List (List Sample) :=
  match p.burst with
  | none => if r.flagged && policy.accepts r.tags then [] else symbols
  | some before => before ++ [r.symbol]

/-- The parse of receptions, and the symbols of the last burst in them. -/
def parseRecent (receptions : List Reception) : Parse × List (List Sample) :=
  receptions.foldl (fun q r => (q.1.next policy map fresh r, q.1.recent policy q.2 r)) ({}, [])

/-- The symbols behind the flagged one of the last burst that has begun, whether it goes on or is
over. -/
def lastBurst (receptions : List Reception) : List (List Sample) :=
  (parseRecent policy map fresh receptions).2

theorem parseRecent_concat (receptions : List Reception) (r : Reception) :
    parseRecent policy map fresh (receptions ++ [r]) =
      ((parseRecent policy map fresh receptions).1.next policy map fresh r,
        (parseRecent policy map fresh receptions).1.recent policy
          (parseRecent policy map fresh receptions).2 r) := by
  rw [parseRecent, List.foldl_append]
  rfl

theorem parseRecent_fst (receptions : List Reception) :
    (parseRecent policy map fresh receptions).1 = parse policy map fresh receptions := by
  induction receptions using List.reverseRecOn with
  | nil => rfl
  | append_singleton receptions r ih => rw [parseRecent_concat, parse_concat, ih]

theorem lastBurst_concat (receptions : List Reception) (r : Reception) :
    lastBurst policy map fresh (receptions ++ [r]) =
      (parse policy map fresh receptions).recent policy
        (lastBurst policy map fresh receptions) r := by
  rw [lastBurst, parseRecent_concat, parseRecent_fst]
  rfl

end Reference

/-! ### Places -/

/-- The reception with its tags counted from its own item. -/
def Reception.unplaced (r : Reception) : Reception :=
  { r with tags := r.tags.map fun t => { t with index := 0 } }

/-- Of tags on one item, what the most recent one says does not depend on where the item is. -/
theorem BurstDecoder.said_unplaced {β : Type} {tags : List (Tag Float)} {i : Nat}
    (h : ∀ t ∈ tags, t.index = i) (key : String) (value : Tag Float → Option β)
    (hvalue : ∀ t : Tag Float, value { t with index := 0 } = value t) :
    said (tags.map fun t => { t with index := 0 }) key value = said tags key value := by
  have hplaced : ∀ t ∈ tags.filter (·.key == key), t.index = i :=
    fun t ht => h t (List.mem_filter.1 ht).1
  have hunplaced : ∀ t ∈ (tags.filter (·.key == key)).map fun t => { t with index := 0 },
      t.index = 0 := by
    intro t ht
    obtain ⟨u, -, rfl⟩ := List.mem_map.1 ht
    rfl
  have hfilter : (tags.map fun t : Tag Float => { t with index := 0 }).filter (·.key == key) =
      (tags.filter (·.key == key)).map fun t => { t with index := 0 } := by
    rw [List.filter_map]
    rfl
  rw [said, said, hfilter, Tag.latest?_eq_getLast? hunplaced, Tag.latest?_eq_getLast? hplaced,
    List.getLast?_map]
  cases (tags.filter (·.key == key)).getLast? with
  | none => rfl
  | some t => exact hvalue t

namespace BurstDecoder

variable {policy : MissingTagPolicy} {map : CarrierMap} {fresh : Demapper Float32}
  {d d₁ d₂ : BurstDecoder}

/-- A decoder does not look at the places of tags. -/
theorem step_unplaced (d : BurstDecoder) {r : Reception} {i : Nat}
    (h : ∀ t ∈ r.tags, t.index = i) :
    d.step r.unplaced.flagged r.unplaced.tags r.unplaced.symbol =
      d.step r.flagged r.tags r.symbol := by
  have htime := said_unplaced h Tag.syncTime Tag.time? fun _ => rfl
  have hoffset := said_unplaced h Tag.syncOffset Tag.number? fun _ => rfl
  have hmeet : d.meet r.unplaced.tags = d.meet r.tags := by
    simp only [meet, Reception.unplaced, htime, hoffset]
  rw [step, step, hmeet]
  rfl

/-! ### Traces -/

/-- What receptions lead to, one after the other. -/
def trace (d : BurstDecoder) : List Reception → Except Fault (List Result)
  | [] => .ok []
  | r :: rest => do
    let result ← d.step r.flagged r.tags r.symbol
    let results ← result.decoder.trace rest
    return result :: results

/-- The state behind a trace. -/
def reached (d : BurstDecoder) (results : List Result) : BurstDecoder :=
  (results.getLast?.map (·.decoder)).getD d

theorem reached_concat (d : BurstDecoder) (results : List Result) (result : Result) :
    d.reached (results ++ [result]) = result.decoder := by
  rw [reached, List.getLast?_concat]
  rfl

theorem reached_cons (d : BurstDecoder) (result : Result) (results : List Result) :
    d.reached (result :: results) = result.decoder.reached results := by
  rw [reached, reached, List.getLast?_cons]
  cases results.getLast? <;> rfl

theorem trace_cons_eq_ok_iff {r : Reception} {rest : List Reception} {results : List Result} :
    d.trace (r :: rest) = .ok results ↔
      ∃ result more, d.step r.flagged r.tags r.symbol = .ok result ∧
        result.decoder.trace rest = .ok more ∧ results = result :: more := by
  simp only [trace, Fault.bind_eq_ok_iff, Fault.pure_eq_ok_iff]
  constructor
  · rintro ⟨result, hresult, more, hmore, rfl⟩
    exact ⟨result, more, hresult, hmore, rfl⟩
  · rintro ⟨result, more, hresult, hmore, rfl⟩
    exact ⟨result, hresult, more, hmore, rfl⟩

/-- A trace goes on from the state that was reached. -/
theorem trace_append_eq_ok_iff {xs ys : List Reception} {results : List Result} :
    d.trace (xs ++ ys) = .ok results ↔
      ∃ front back, d.trace xs = .ok front ∧ (d.reached front).trace ys = .ok back ∧
        results = front ++ back := by
  induction xs generalizing d results with
  | nil =>
    constructor
    · exact fun h => ⟨[], results, rfl, h, rfl⟩
    · rintro ⟨_, back, hnil, hback, rfl⟩
      cases hnil
      exact hback
  | cons r rest ih =>
    rw [List.cons_append, trace_cons_eq_ok_iff]
    constructor
    · rintro ⟨result, more, hresult, hmore, rfl⟩
      obtain ⟨front, back, hfront, hback, rfl⟩ := ih.1 hmore
      refine ⟨result :: front, back, trace_cons_eq_ok_iff.2 ⟨_, _, hresult, hfront, rfl⟩, ?_, rfl⟩
      rw [reached_cons]
      exact hback
    · rintro ⟨_, back, hall, hback, rfl⟩
      obtain ⟨result, front, hresult, hfront, rfl⟩ := trace_cons_eq_ok_iff.1 hall
      rw [reached_cons] at hback
      exact ⟨result, front ++ back, hresult, ih.2 ⟨front, back, hfront, hback, rfl⟩, rfl⟩

theorem trace_concat_eq_ok_iff {rs : List Reception} {r : Reception} {results : List Result} :
    d.trace (rs ++ [r]) = .ok results ↔
      ∃ front result, d.trace rs = .ok front ∧
        (d.reached front).step r.flagged r.tags r.symbol = .ok result ∧
        results = front ++ [result] := by
  rw [trace_append_eq_ok_iff]
  constructor
  · rintro ⟨front, back, hfront, hback, rfl⟩
    obtain ⟨result, more, hresult, hmore, rfl⟩ := trace_cons_eq_ok_iff.1 hback
    cases hmore
    exact ⟨front, result, hfront, hresult, rfl⟩
  · rintro ⟨front, result, hfront, hresult, rfl⟩
    exact ⟨front, [result], hfront, trace_cons_eq_ok_iff.2 ⟨result, [], hresult, rfl, rfl⟩, rfl⟩

theorem messages_concat (results : List Result) (result : Result) :
    (results ++ [result]).filterMap (·.message) =
      results.filterMap (·.message) ++ result.message.toList := by
  rw [List.filterMap_append, List.filterMap_cons, List.filterMap_nil]
  cases result.message <;> rfl

theorem length_trace {rs : List Reception} {results : List Result}
    (h : d.trace rs = .ok results) : results.length = rs.length := by
  induction rs generalizing d results with
  | nil =>
    cases h
    rfl
  | cons r rest ih =>
    obtain ⟨result, more, -, hmore, rfl⟩ := trace_cons_eq_ok_iff.1 h
    rw [List.length_cons, List.length_cons, ih hmore]

/-- The beginning of a trace is the trace of the beginning. -/
theorem trace_take {rs : List Reception} {results : List Result}
    (h : d.trace rs = .ok results) (n : Nat) : d.trace (rs.take n) = .ok (results.take n) := by
  have hlength := length_trace h
  rw [← List.take_append_drop n rs] at h
  obtain ⟨front, back, hfront, hback, rfl⟩ := trace_append_eq_ok_iff.1 h
  have hfrontLength := length_trace hfront
  rw [List.length_take] at hfrontLength
  by_cases hn : n ≤ rs.length
  · rw [hfront, List.take_left' (by omega)]
  · have hback' := length_trace hback
    rw [List.length_drop] at hback'
    obtain rfl : back = [] := List.eq_nil_of_length_eq_zero (by omega)
    rw [hfront, List.append_nil, List.take_of_length_le (by omega)]

/-- The state behind a reception is the state that the receptions up to it reach. -/
theorem reached_take {results : List Result} {i : Nat} {a : Result} (h : results[i]? = some a)
    (d : BurstDecoder) : d.reached (results.take (i + 1)) = a.decoder := by
  rw [List.take_add_one, h]
  exact reached_concat d _ a

/-- A result is a step of the state that the receptions before it reach. -/
theorem step_of_trace {rs : List Reception} {results : List Result} (h : d.trace rs = .ok results)
    {i : Nat} {a : Result} (ha : results[i]? = some a) :
    ∃ r, rs[i]? = some r ∧
      (d.reached (results.take i)).step r.flagged r.tags r.symbol = .ok a := by
  have hlt : i < rs.length := length_trace h ▸ (List.getElem?_eq_some_iff.1 ha).1
  have htake := trace_take h (i + 1)
  rw [← List.take_append_getElem hlt, List.take_add_one, ha] at htake
  obtain ⟨front, result, -, hresult, heq⟩ := trace_concat_eq_ok_iff.1 htake
  obtain ⟨rfl, hlast⟩ := List.append_inj' heq rfl
  obtain rfl : a = result := List.singleton_inj.1 hlast
  exact ⟨rs[i], List.getElem?_eq_getElem hlt, hresult⟩

/-! ### One decoder -/

theorem conclude_demapper (d : BurstDecoder) (verdict : FrameParser.Verdict) :
    (d.conclude verdict).1.demapper = d.demapper := by
  cases verdict <;> rfl

/-- Between bursts the demapper is left alone, and a burst starts it afresh. -/
theorem Follows.demapper_search (h : Follows policy map fresh d none) {r : Reception}
    {result : Result} (hstep : d.step r.flagged r.tags r.symbol = .ok result) :
    result.decoder.demapper =
      if r.flagged && policy.accepts r.tags then fresh else d.demapper := by
  have hparser : d.parser = none := h.holds
  simp only [BurstDecoder.step, hparser, Except.ok.injEq] at hstep
  subst hstep
  cases hflag : r.flagged with
  | false => rfl
  | true =>
    simp only [↓reduceIte, Bool.true_and, meet_eq, h.policy_eq]
    by_cases haccepts : policy.accepts r.tags = true
    · rw [if_pos haccepts, if_pos haccepts]
      exact h.reset_eq
    · rw [if_neg haccepts, if_neg haccepts]

/-- Within a burst the demapper goes through every symbol. -/
theorem Follows.demapper_burst {before : List (List Sample)}
    (h : Follows policy map fresh d (some before)) {r : Reception} {result : Result}
    (hstep : d.step r.flagged r.tags r.symbol = .ok result) :
    ∃ bytes, fresh.along map (before ++ [r.symbol]) = .ok (result.decoder.demapper, bytes) := by
  obtain ⟨bytes, parser, halong, -, hparser, -⟩ := h.holds
  simp only [BurstDecoder.step, hparser, Fault.bind_eq_ok_iff, Fault.pure_eq_ok_iff] at hstep
  obtain ⟨⟨demapper, report⟩, hdemap, rfl⟩ := hstep
  rw [h.map_eq] at halong hdemap
  rw [conclude_demapper]
  exact ⟨_, Demapper.along_concat halong hdemap⟩

/-- **The demapper has been through the last burst and nothing else.** From the first burst on it is
what a fresh demapper becomes along the symbols of the last one. -/
theorem Follows.trace (h : Follows policy map fresh d none) {rs : List Reception}
    {results : List Result} (ht : d.trace rs = .ok results) :
    Follows policy map fresh (d.reached results) (parse policy map fresh rs).burst ∧
      ((∃ r ∈ rs, r.flagged && policy.accepts r.tags) → ∃ bytes,
        fresh.along map (lastBurst policy map fresh rs) =
          .ok ((d.reached results).demapper, bytes)) := by
  induction rs using List.reverseRecOn generalizing results with
  | nil =>
    cases ht
    exact ⟨h, fun ⟨r, hr, _⟩ => absurd hr List.not_mem_nil⟩
  | append_singleton rs r ih =>
    obtain ⟨front, result, hfront, hresult, rfl⟩ := trace_concat_eq_ok_iff.1 ht
    obtain ⟨hfollows, hdemapper⟩ := ih hfront
    rw [parse_concat, lastBurst_concat, reached_concat]
    refine ⟨(hfollows.step hresult).1, fun hbegun => ?_⟩
    rw [Parse.recent]
    cases hburst : (parse policy map fresh rs).burst with
    | some before =>
      rw [hburst] at hfollows
      exact hfollows.demapper_burst hresult
    | none =>
      rw [hburst] at hfollows
      rw [hfollows.demapper_search hresult]
      by_cases hbegins : (r.flagged && policy.accepts r.tags) = true
      · simp only [hbegins, ↓reduceIte]
        exact ⟨[], rfl⟩
      · simp only [hbegins, Bool.false_eq_true, ↓reduceIte]
        obtain ⟨x, hx, hxbegins⟩ := hbegun
        rcases List.mem_append.1 hx with hx | hx
        · exact hdemapper ⟨x, hx, hxbegins⟩
        · rw [List.mem_singleton] at hx
          exact absurd (hx ▸ hxbegins) hbegins

/-! ### Two decoders -/

/-- What a symbol needs to bring for a burst to forget what came before: a time and a number. -/
def Informed (tags : List (Tag Float)) : Prop :=
  (said tags Tag.syncTime Tag.time?).isSome ∧ (said tags Tag.syncOffset Tag.number?).isSome

theorem Informed.accepts {tags : List (Tag Float)} (h : Informed tags)
    (policy : MissingTagPolicy) : policy.accepts tags = true := by
  cases policy with
  | keep => rfl
  | drop => rw [MissingTagPolicy.accepts, h.1, h.2, Bool.and_self]

/-- **A burst that brings its time and its offset overwrites everything.** -/
theorem Follows.meet_agree (h₁ : Follows policy map fresh d₁ none)
    (h₂ : Follows policy map fresh d₂ none) {tags : List (Tag Float)} (h : Informed tags) :
    d₁.meet tags = d₂.meet tags := by
  obtain ⟨time, htime⟩ := Option.isSome_iff_exists.1 h.1
  obtain ⟨offset, hoffset⟩ := Option.isSome_iff_exists.1 h.2
  simp only [meet_eq, h₁.policy_eq, h₂.policy_eq, h.accepts, ↓reduceIte, htime, hoffset,
    Option.some_or, h₁.map_eq, h₂.map_eq, h₁.reset_eq, h₂.reset_eq]

/-- **Two decoders do not differ from the first flagged symbol on**, and nothing comes of what they
differ in before. -/
theorem trace_agree (h₁ : Follows policy map fresh d₁ none)
    (h₂ : Follows policy map fresh d₂ none) {rs : List Reception} {results₁ results₂ : List Result}
    (hinformed : ∀ r, rs.find? (·.flagged) = some r → Informed r.tags)
    (ht₁ : d₁.trace rs = .ok results₁) (ht₂ : d₂.trace rs = .ok results₂) :
    results₁.map (·.message) = results₂.map (·.message) ∧
      ∀ i, (∃ r ∈ rs.take (i + 1), r.flagged) → results₁[i]? = results₂[i]? := by
  induction rs generalizing results₁ results₂ with
  | nil =>
    cases ht₁
    cases ht₂
    exact ⟨rfl, fun _ _ => rfl⟩
  | cons r rest ih =>
    obtain ⟨a₁, more₁, hstep₁, hmore₁, rfl⟩ := trace_cons_eq_ok_iff.1 ht₁
    obtain ⟨a₂, more₂, hstep₂, hmore₂, rfl⟩ := trace_cons_eq_ok_iff.1 ht₂
    have hparser₁ : d₁.parser = none := h₁.holds
    have hparser₂ : d₂.parser = none := h₂.holds
    simp only [step, hparser₁, hparser₂, Except.ok.injEq] at hstep₁ hstep₂
    cases hflag : r.flagged with
    | true =>
      -- the states are equal behind this symbol, and so is all that follows
      have hmeet := h₁.meet_agree h₂ (hinformed r (List.find?_cons_of_pos hflag))
      rw [hflag, if_pos rfl] at hstep₁ hstep₂
      obtain rfl : a₁ = a₂ := by rw [← hstep₁, ← hstep₂, hmeet]
      rw [hmore₁] at hmore₂
      cases hmore₂
      exact ⟨rfl, fun _ _ => rfl⟩
    | false =>
      rw [hflag, if_neg Bool.false_ne_true] at hstep₁ hstep₂
      subst hstep₁ hstep₂
      rw [List.find?_cons_of_neg (by simp [hflag])] at hinformed
      obtain ⟨hmessages, hagree⟩ := ih hinformed hmore₁ hmore₂
      refine ⟨by rw [List.map_cons, List.map_cons, hmessages], fun i hi => ?_⟩
      obtain ⟨x, hx, hxflag⟩ := hi
      rw [List.take_succ_cons] at hx
      rcases List.mem_cons.1 hx with rfl | hx
      · rw [hflag] at hxflag
        exact absurd hxflag Bool.false_ne_true
      · cases i with
        | zero =>
          rw [List.take_zero] at hx
          exact absurd hx List.not_mem_nil
        | succ i => exact hagree i ⟨x, hx, hxflag⟩

/-! ### What both have gone through

One of the decoders may be ahead of the other. So receptions are compared with a list that both have
gone through the beginning of. -/

section Common

variable {common rs rs₁ rs₂ : List Reception} {results results₁ results₂ : List Result} {i : Nat}
  {a b : Result}

/-- The receptions up to one that was gone through are those of the common list. -/
theorem take_of_isPrefix (hbegins : rs <+: common) (ht : d.trace rs = .ok results)
    (ha : results[i]? = some a) : rs.take (i + 1) = common.take (i + 1) := by
  have hi : i < results.length := (List.getElem?_eq_some_iff.1 ha).1
  rw [length_trace ht] at hi
  obtain ⟨more, rfl⟩ := hbegins
  rw [List.take_append_of_le_length (by omega)]

theorem Follows.agree_of_isPrefix (h₁ : Follows policy map fresh d₁ none)
    (h₂ : Follows policy map fresh d₂ none)
    (hinformed : ∀ r, common.find? (·.flagged) = some r → Informed r.tags)
    (hbegins₁ : rs₁ <+: common) (hbegins₂ : rs₂ <+: common)
    (ht₁ : d₁.trace rs₁ = .ok results₁) (ht₂ : d₂.trace rs₂ = .ok results₂)
    (ha : results₁[i]? = some a) (hb : results₂[i]? = some b) :
    a.message = b.message ∧ ((∃ r ∈ common.take (i + 1), r.flagged) → a = b) := by
  have htake₁ := trace_take ht₁ (i + 1)
  have htake₂ := trace_take ht₂ (i + 1)
  rw [take_of_isPrefix hbegins₁ ht₁ ha] at htake₁
  rw [take_of_isPrefix hbegins₂ ht₂ hb] at htake₂
  obtain ⟨hmessages, hagree⟩ := trace_agree h₁ h₂
    (fun r hr => hinformed r ((List.take_prefix _ _).find?_eq_some hr)) htake₁ htake₂
  constructor
  · have hmessage := congrArg (·[i]?) hmessages
    simp only [List.getElem?_map, List.getElem?_take_of_succ, ha, hb, Option.map_some,
      Option.some.injEq] at hmessage
    exact hmessage
  · intro hflagged
    have hsame := hagree i (by rwa [List.take_take, Nat.min_self])
    rw [List.getElem?_take_of_succ, List.getElem?_take_of_succ, ha, hb] at hsame
    exact Option.some.inj hsame

/-- From the first flagged symbol on the demapper is a fresh one along the last burst. -/
theorem Follows.demapper_of_isPrefix (h : Follows policy map fresh d none)
    (hinformed : ∀ r, common.find? (·.flagged) = some r → Informed r.tags)
    (hbegins : rs <+: common) (ht : d.trace rs = .ok results) (ha : results[i]? = some a)
    (hflagged : ∃ r ∈ common.take (i + 1), r.flagged) :
    ∃ bytes, fresh.along map (lastBurst policy map fresh (common.take (i + 1))) =
      .ok (a.decoder.demapper, bytes) := by
  have htake := trace_take ht (i + 1)
  rw [take_of_isPrefix hbegins ht ha] at htake
  obtain ⟨first, hfirst⟩ : ∃ first, (common.take (i + 1)).find? (·.flagged) = some first :=
    Option.isSome_iff_exists.1 (List.find?_isSome.2 hflagged)
  have haccepts := (hinformed first ((List.take_prefix _ _).find?_eq_some hfirst)).accepts policy
  have hbegins : (first.flagged && policy.accepts first.tags) = true := by
    rw [haccepts, Bool.and_true]
    exact List.find?_some hfirst
  obtain ⟨bytes, hbytes⟩ := (h.trace htake).2 ⟨first, List.mem_of_find?_eq_some hfirst, hbegins⟩
  rw [reached_take ha] at hbytes
  exact ⟨bytes, hbytes⟩

end Common

end BurstDecoder

end OfdmBurst
