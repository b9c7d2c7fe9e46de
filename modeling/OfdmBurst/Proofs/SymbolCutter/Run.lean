import OfdmBurst.Proofs.Stream.Record
import OfdmBurst.Proofs.SymbolCutter.Segmentation

/-!
# Running a cutter

A session is a cutter with the records of its four terminals. Events are what can happen to it from
the outside, in any order: pieces arrive at the two inlets, a reader grants room and takes what is
there, and somebody calls for work.

`Step` says everything one look at the window can do, guards included, and `step_cases` reads it off
a look. Statements about a session are proved from `Step` and never open the look again: what every
event and every look preserves, a session of any length preserves (`Session.run_induct`).

## Main definitions

* `Session`, `Event`, `Session.act`, `Session.run`
* `Step`, `burstMarks` — one look at the window, and the tags it puts on a burst
* `Plain` — the widths a cutter is made with

## Main results

* `step_cases` — what a look does
* `Session.run_induct` — what events and looks preserve, a session preserves
* `drain_stops` — why a call of work returns
* `Ready.skip_returns`, `Plain.emit_returns` — a look that can be taken can use up its samples and put
  out its symbol
-/

namespace OfdmBurst

namespace SymbolCutter

variable {α τ : Type}

/-- A cutter with the records of its terminals. -/
structure Session (α τ : Type) where
  cutter : SymbolCutter α τ
  samples : Record α τ := {}
  triggers : Record UInt8 τ := {}
  symbols : Record α τ := {}
  flags : Record UInt8 τ := {}

/-- What can happen to a cutter. -/
inductive Event (α τ : Type) where
  | samples (e : Inlet.Event α τ)
  | triggers (e : Inlet.Event UInt8 τ)
  | symbols (e : Outlet.Event)
  | flags (e : Outlet.Event)
  | work (source : String)

section Run

variable [Inhabited α] [Rounded τ]

/-- A session after an event. A call of work that fails leaves the cutter as it was then. -/
def Session.act (s : Session α τ) : Event α τ → Except Fault (Session α τ)
  | .samples e => do
    let (p, r) ← s.cutter.samples.meet s.samples e
    return { s with cutter := { s.cutter with samples := p }, samples := r }
  | .triggers e => do
    let (p, r) ← s.cutter.triggers.meet s.triggers e
    return { s with cutter := { s.cutter with triggers := p }, triggers := r }
  | .symbols e => do
    let (p, r) ← s.cutter.symbols.meet s.symbols e
    return { s with cutter := { s.cutter with symbols := p }, symbols := r }
  | .flags e => do
    let (p, r) ← s.cutter.flags.meet s.flags e
    return { s with cutter := { s.cutter with flags := p }, flags := r }
  | .work source => do
    let turn ← s.cutter.work source {}
    return { s with cutter := turn.block }

/-- A session after several events. -/
def Session.run (s : Session α τ) (events : List (Event α τ)) : Except Fault (Session α τ) :=
  events.foldlM Session.act s

/-! ### One look -/

/-- The tags of a burst: the time at which it began, and its carrier offset if one is waiting. -/
def burstMarks (source : String) (index : Nat) (time : Timestamp τ) (offset : Option Float) :
    List (Tag τ) :=
  { index, key := Tag.syncTime, value := .time time, source := some source } ::
    offset.toList.map fun x =>
      { index, key := Tag.syncOffset, value := .double x, source := some source }

omit [Rounded τ] in
/-- All marks of a burst are at one place. -/
theorem index_of_mem_burstMarks {source : String} {index : Nat} {time : Timestamp τ}
    {offset : Option Float} {t : Tag τ} (h : t ∈ burstMarks source index time offset) :
    t.index = index := by
  rcases List.mem_cons.1 h with rfl | h
  · rfl
  · obtain ⟨x, -, rfl⟩ := List.mem_map.1 h
    rfl

/-- The fft length of samples that starts `first` samples behind the next one. -/
def cutAt (c : SymbolCutter α τ) (first : Nat) : List α :=
  (c.samples.buffer.toList.drop first).take c.options.fft

/-- Everything that a look at the window can do to a cutter, and how many samples it uses up. -/
inductive Step (c : SymbolCutter α τ) (source : String) : SymbolCutter α τ → Nat → Prop
  /-- A burst begins. -/
  | burst {k : Nat} {anchor : Option (Nat × Timestamp τ)} {offset : Option Float} {seen : Nat}
      {time : Timestamp τ} {symbols : Outlet α τ} {flags : Outlet UInt8 τ} {samples : Inlet α τ}
      {triggers : Inlet UInt8 τ}
      (found : c.trigger? = some k)
      (observed : c.observe (c.samples.read + (c.options.fft + k + 1)) =
        .ok { c with anchor, offset, seen })
      (fits : c.options.preamble * c.options.symbol < wordLimit)
      (timed : ({ c with anchor, offset, seen } : SymbolCutter α τ).timeAt
        (c.samples.read + c.options.fft + k + 1 - c.options.preamble * c.options.symbol) = .ok time)
      (symbol : c.symbols.put (c.cutAt (k + 1)) = .ok symbols)
      (flag : (c.flags.attachAll (burstMarks source c.flags.written time offset)).put [1] = .ok flags)
      (sampled : c.samples.consume (k + 1) = .ok samples)
      (triggered : c.triggers.consume (k + 1) = .ok triggers) :
      Step c source
        { c with samples, triggers, symbols, flags, phase := .frame c.options.timeout, anchor,
                 offset := none, seen }
        (k + 1)
  /-- A frame goes on. -/
  | follow {n : Nat} {anchor : Option (Nat × Timestamp τ)} {offset : Option Float} {seen : Nat}
      {symbols : Outlet α τ} {flags : Outlet UInt8 τ} {samples : Inlet α τ}
      {triggers : Inlet UInt8 τ}
      (found : c.trigger? = none) (framed : c.phase = .frame n)
      (observed : c.observe (c.samples.read + c.window) = .ok { c with anchor, offset, seen })
      (symbol : c.symbols.put (c.cutAt c.options.symbol) = .ok symbols)
      (flag : c.flags.put [0] = .ok flags)
      (sampled : c.samples.consume c.options.symbol = .ok samples)
      (triggered : c.triggers.consume c.options.symbol = .ok triggers) :
      Step c source
        { c with samples, triggers, symbols, flags, phase := countdown n, anchor, offset, seen }
        c.options.symbol
  /-- The search goes on. -/
  | pass {anchor : Option (Nat × Timestamp τ)} {offset : Option Float} {seen : Nat}
      {samples : Inlet α τ} {triggers : Inlet UInt8 τ}
      (found : c.trigger? = none) (searching : c.phase = .search)
      (observed : c.observe (c.samples.read + c.window) = .ok { c with anchor, offset, seen })
      (sampled : c.samples.consume (c.options.symbol + 1) = .ok samples)
      (triggered : c.triggers.consume (c.options.symbol + 1) = .ok triggers) :
      Step c source { c with samples, triggers, anchor, offset, seen } (c.options.symbol + 1)

/-- The anchor after the most recent receive time of a scan. -/
def anchorAfter (policy : TimePolicy) (found : Option (Tag τ)) (anchor : Option (Nat × Timestamp τ)) :
    Except FramingError (Option (Nat × Timestamp τ)) :=
  match found, found.bind Tag.time? with
  | some tag, some time =>
    if tag.index = 0 then .ok (some (0, time))
    else
      match policy with
      | .rebase => .ok (some (tag.index, time))
      | .drop => .ok anchor
      | .strict => .error (.timeTagOffset tag.index)
  | _, _ => .ok anchor

omit [Inhabited α] [Rounded τ] in
/-- Noting tags, with the policy in a function of its own. -/
theorem observe_eq (c : SymbolCutter α τ) (last : Nat) :
    c.observe last =
      let first := max c.seen c.samples.read
      if last ≤ first then .ok c
      else
        (anchorAfter c.options.policy (c.samples.latest? first last Tag.rxTime) c.anchor).map
          fun anchor =>
            { c with
              anchor
              offset := ((c.samples.latest? first last Tag.syncOffset).bind Tag.number?).or c.offset
              seen := last } := by
  simp only [observe, anchorAfter]
  generalize c.samples.latest? (max c.seen c.samples.read) last Tag.rxTime = found
  by_cases hlast : last ≤ max c.seen c.samples.read
  · simp only [hlast, ↓reduceIte]
  · simp only [hlast, ↓reduceIte]
    cases found with
    | none => cases c.options.policy <;> rfl
    | some tag =>
      simp only [Option.bind_some]
      cases tag.time? with
      | none => cases c.options.policy <;> rfl
      | some time =>
        by_cases hindex : tag.index = 0
        · cases c.options.policy <;> simp only [hindex, ↓reduceIte] <;> rfl
        · cases c.options.policy <;> simp only [hindex, ↓reduceIte] <;> rfl

omit [Inhabited α] [Rounded τ] in
/-- Noting tags changes nothing but what was noted. -/
theorem observe_frame {c d : SymbolCutter α τ} {last : Nat} (h : c.observe last = .ok d) :
    d = { c with anchor := d.anchor, offset := d.offset, seen := d.seen } := by
  simp only [observe_eq] at h
  split at h
  · cases h; rfl
  · obtain ⟨anchor, -, rfl⟩ := Fault.map_eq_ok_iff.1 h
    rfl

omit [Inhabited α] [Rounded τ] in
/-- Only the strict policy refuses a receive time. -/
theorem anchorAfter_returns {policy : TimePolicy} (h : policy ≠ .strict) (found : Option (Tag τ))
    (anchor : Option (Nat × Timestamp τ)) : ∃ a, anchorAfter policy found anchor = .ok a := by
  unfold anchorAfter
  split
  · split
    · exact ⟨_, rfl⟩
    · cases policy with
      | rebase | drop => exact ⟨_, rfl⟩
      | strict => exact absurd rfl h
  · exact ⟨_, rfl⟩

omit [Inhabited α] [Rounded τ] in
theorem policy_of_observe_error {c : SymbolCutter α τ} {last : Nat} {cause : FramingError}
    (h : c.observe last = .error cause) : c.options.policy = .strict := by
  by_contra hpolicy
  obtain ⟨anchor, hanchor⟩ := anchorAfter_returns hpolicy
    (c.samples.latest? (max c.seen c.samples.read) last Tag.rxTime) c.anchor
  rw [observe_eq] at h
  simp only [hanchor] at h
  split at h <;> cases h

omit [Inhabited α] [Rounded τ] in
theorem attach_eq_attachAll {β : Type} (p : Outlet β τ) (t : Tag τ) : p.attach t = p.attachAll [t] :=
  rfl

omit [Inhabited α] [Rounded τ] in
theorem attachAll_attachAll {β : Type} (p : Outlet β τ) (ts us : List (Tag τ)) :
    (p.attachAll ts).attachAll us = p.attachAll (ts ++ us) := by
  simp only [Outlet.attachAll]
  congr 1
  exact AppendList.eq_of_toList (by simp)

omit [Inhabited α] in
theorem markBurst_eq_ok_iff {c d : SymbolCutter α τ} {source : String} {trigger : Nat} :
    c.markBurst source trigger = .ok d ↔
      c.options.preamble * c.options.symbol < wordLimit ∧
      ∃ time, c.timeAt (trigger + 1 - c.options.preamble * c.options.symbol) = .ok time ∧
        d = { c with
          flags := c.flags.attachAll (burstMarks source c.flags.written time c.offset)
          offset := none } := by
  obtain ⟨samples, triggers, symbols, flags, options, phase, anchor, offset, seen, hpos, hle⟩ := c
  have hmarks : ∀ time, flags.attachAll (burstMarks source flags.written time offset) =
      offset.elim
        (flags.attach ⟨flags.written, Tag.syncTime, .time time, some source⟩)
        fun x => (flags.attach ⟨flags.written, Tag.syncTime, .time time, some source⟩).attach
          ⟨flags.written, Tag.syncOffset, .double x, some source⟩ := by
    intro time
    cases offset with
    | none => rfl
    | some x => simp [attach_eq_attachAll, attachAll_attachAll, burstMarks]
  simp only [markBurst, Fault.bind_eq_ok_iff, Fault.word_eq_ok_iff, hmarks]
  constructor
  · rintro ⟨_, ⟨hfits, rfl⟩, time, htime, h⟩
    refine ⟨hfits, time, htime, ?_⟩
    cases offset <;> cases h <;> rfl
  · rintro ⟨hfits, time, htime, rfl⟩
    refine ⟨_, ⟨hfits, rfl⟩, time, htime, ?_⟩
    cases offset <;> rfl

omit [Rounded τ] in
theorem emit_eq_ok_iff {c d : SymbolCutter α τ} {first : Nat} {flag : UInt8} :
    c.emit first flag = .ok d ↔
      ∃ symbols flags, c.symbols.put (c.cutAt first) = .ok symbols ∧ c.flags.put [flag] = .ok flags ∧
        d = { c with symbols, flags } := by
  simp only [emit, Fault.bind_eq_ok_iff, Fault.pure_eq_ok_iff]
  constructor
  · rintro ⟨symbols, hsymbols, flags, hflags, rfl⟩
    exact ⟨symbols, flags, hsymbols, hflags, rfl⟩
  · rintro ⟨symbols, flags, hsymbols, hflags, rfl⟩
    exact ⟨symbols, hsymbols, flags, hflags, rfl⟩

omit [Inhabited α] [Rounded τ] in
theorem skip_eq_ok_iff {c d : SymbolCutter α τ} {n : Nat} :
    c.skip n = .ok d ↔
      ∃ samples triggers, c.samples.consume n = .ok samples ∧ c.triggers.consume n = .ok triggers ∧
        d = { c with samples, triggers } := by
  simp only [skip, Fault.bind_eq_ok_iff, Fault.pure_eq_ok_iff]
  constructor
  · rintro ⟨samples, hsamples, triggers, htriggers, rfl⟩
    exact ⟨samples, triggers, hsamples, htriggers, rfl⟩
  · rintro ⟨samples, triggers, hsamples, htriggers, rfl⟩
    exact ⟨samples, hsamples, triggers, htriggers, rfl⟩

/-- **What a look does.** -/
theorem step_cases {c d : SymbolCutter α τ} {source : String} {used : Stride}
    (h : c.step source = .ok (.moved d used)) : Step c source d used.val := by
  simp only [step] at h
  split at h
  · cases h
  next c₁ hobserved =>
    obtain ⟨anchor, offset, seen, rfl⟩ :
        ∃ anchor offset seen, c₁ = { c with anchor, offset, seen } :=
      ⟨_, _, _, observe_frame hobserved⟩
    split at h
    next k hfound =>
      rw [hfound] at hobserved
      simp only [Fault.bind_eq_ok_iff, markBurst_eq_ok_iff, emit_eq_ok_iff, skip_eq_ok_iff] at h
      obtain ⟨_, ⟨hfits, time, htime, rfl⟩, _, ⟨symbols, flags, hsymbols, hflags, rfl⟩, _,
        ⟨samples, triggers, hsamples, htriggers, rfl⟩, h⟩ := h
      cases h
      exact .burst hfound hobserved hfits htime hsymbols hflags hsamples htriggers
    next n hfound hframed =>
      rw [hfound] at hobserved
      simp only [Fault.bind_eq_ok_iff, emit_eq_ok_iff, skip_eq_ok_iff] at h
      obtain ⟨_, ⟨symbols, flags, hsymbols, hflags, rfl⟩, _,
        ⟨samples, triggers, hsamples, htriggers, rfl⟩, h⟩ := h
      cases h
      exact .follow hfound hframed hobserved hsymbols hflags hsamples htriggers
    next hfound hsearching =>
      rw [hfound] at hobserved
      simp only [Fault.bind_eq_ok_iff, skip_eq_ok_iff] at h
      obtain ⟨_, ⟨samples, triggers, hsamples, htriggers, rfl⟩, h⟩ := h
      cases h
      exact .pass hfound hsearching hobserved hsamples htriggers

/-- A look can do all that, so `Step` says no more than a look does. -/
theorem Step.step_eq {c d : SymbolCutter α τ} {source : String} {used : Nat}
    (h : Step c source d used) : ∃ hused, c.step source = .ok (.moved d ⟨used, hused⟩) := by
  cases h with
  | burst found observed fits timed symbol flag sampled triggered =>
    refine ⟨Nat.succ_pos _, ?_⟩
    simp only [step, found, Option.elim_some, observed]
    exact Fault.bind_eq_ok_iff.2 ⟨_, markBurst_eq_ok_iff.2 ⟨fits, _, timed, rfl⟩,
      Fault.bind_eq_ok_iff.2 ⟨_, emit_eq_ok_iff.2 ⟨_, _, symbol, flag, rfl⟩,
      Fault.bind_eq_ok_iff.2 ⟨_, skip_eq_ok_iff.2 ⟨_, _, sampled, triggered, rfl⟩, rfl⟩⟩⟩
  | follow found framed observed symbol flag sampled triggered =>
    refine ⟨c.symbol_pos, ?_⟩
    simp only [step, found, Option.elim_none, observed, framed]
    exact Fault.bind_eq_ok_iff.2 ⟨_, emit_eq_ok_iff.2 ⟨_, _, symbol, flag, rfl⟩,
      Fault.bind_eq_ok_iff.2 ⟨_, skip_eq_ok_iff.2 ⟨_, _, sampled, triggered, rfl⟩, rfl⟩⟩
  | pass found searching observed sampled triggered =>
    refine ⟨Nat.succ_pos _, ?_⟩
    simp only [step, found, Option.elim_none, observed, searching]
    exact Fault.bind_eq_ok_iff.2 ⟨_, skip_eq_ok_iff.2 ⟨_, _, sampled, triggered, rfl⟩, rfl⟩

theorem Step.consumed {c d : SymbolCutter α τ} {source : String} {used : Nat}
    (h : Step c source d used) :
    c.samples.consume used = .ok d.samples ∧ c.triggers.consume used = .ok d.triggers := by
  cases h with
  | burst _ _ _ _ _ _ hs ht => exact ⟨hs, ht⟩
  | follow _ _ _ _ _ hs ht => exact ⟨hs, ht⟩
  | pass _ _ _ hs ht => exact ⟨hs, ht⟩

theorem Step.available_eq {c d : SymbolCutter α τ} {source : String} {used : Nat}
    (h : Step c source d used) : d.available = c.available - used := by
  rw [available, available, Inlet.items_consume h.consumed.1, Inlet.items_consume h.consumed.2]
  omega

theorem Step.options_eq {c d : SymbolCutter α τ} {source : String} {used : Nat}
    (h : Step c source d used) : d.options = c.options := by
  cases h <;> rfl

/-! ### A call of work -/

/-- Whether a look can be taken: there is a window, and room on both outlets. -/
def Ready (c : SymbolCutter α τ) : Prop :=
  c.window ≤ c.available ∧ c.symbols.room ≠ 0 ∧ c.flags.room ≠ 0

omit [Inhabited α] [Rounded τ] in
/-- A trigger that is found lies in the window. -/
theorem lt_of_trigger? {c : SymbolCutter α τ} {k : Nat} (found : c.trigger? = some k) :
    k < c.options.symbol + 1 := by
  have hk := (List.findIdx?_eq_some_iff_getElem.1 found).1
  rw [List.length_take] at hk
  omega

omit [Inhabited α] [Rounded τ] in
/-- Samples inside the window can be used up. -/
theorem Ready.skip_returns {c : SymbolCutter α τ} (hready : c.Ready) {n : Nat}
    (hn : n ≤ c.options.symbol + 1) :
    ∃ samples triggers, c.samples.consume n = .ok samples ∧ c.triggers.consume n = .ok triggers := by
  have hwindow := hready.1
  rw [window, available] at hwindow
  obtain ⟨samples, hsamples⟩ := Inlet.exists_consume (p := c.samples) (n := n) (by omega)
  obtain ⟨triggers, htriggers⟩ := Inlet.exists_consume (p := c.triggers) (n := n) (by omega)
  exact ⟨samples, triggers, hsamples, htriggers⟩

/-- The widths a cutter is made with: samples, triggers and flags one by one, and whole symbols. -/
structure Plain (c : SymbolCutter α τ) : Prop where
  samples : c.samples.width = 1
  triggers : c.triggers.width = 1
  symbols : c.symbols.width = c.options.fft
  flags : c.flags.width = 1

omit [Inhabited α] [Rounded τ] in
/-- Every symbol inside the window is as long as a symbol that is put out. -/
theorem Plain.length_cutAt {c : SymbolCutter α τ} (h : c.Plain) (hready : c.Ready) {first : Nat}
    (hfirst : first ≤ c.options.symbol + 1) : (c.cutAt first).length = c.symbols.width := by
  have hwindow := hready.1
  rw [window, available, Inlet.items, h.samples, Nat.div_one, c.samples.buffer.size_eq] at hwindow
  rw [h.symbols, cutAt, List.length_take, List.length_drop]
  omega

omit [Rounded τ] in
/-- So it can be emitted, with any tags on its flag. -/
theorem Plain.emit_returns {c : SymbolCutter α τ} (h : c.Plain) (hready : c.Ready) {first : Nat}
    (hfirst : first ≤ c.options.symbol + 1) (flag : UInt8) (marks : List (Tag τ)) :
    ∃ symbols flags, c.symbols.put (c.cutAt first) = .ok symbols ∧
      (c.flags.attachAll marks).put [flag] = .ok flags := by
  obtain ⟨symbols, hsymbols⟩ := Outlet.exists_put (h.length_cutAt hready hfirst) hready.2.1
  obtain ⟨flags, hflags⟩ : ∃ q, (c.flags.attachAll marks).put [flag] = .ok q :=
    Outlet.exists_put h.flags.symm hready.2.2
  exact ⟨symbols, flags, hsymbols, hflags⟩

/-- **What every look preserves, a call of work preserves.** -/
theorem drain_induct {P : SymbolCutter α τ → Prop} {source : String} {queue : MessageQueue}
    (step : ∀ c d used, P c → c.Ready → Step c source d used → P d)
    {n : Nat} {c : SymbolCutter α τ} {turn : Turn (SymbolCutter α τ)} (hn : n = c.available)
    (hc : P c) (h : c.drain source queue n = .ok turn) : P turn.block := by
  induction n using Nat.strongRecOn generalizing c with
  | ind n ih =>
    rw [drain] at h
    split at h
    · cases h; exact hc
    next hwindow =>
      split at h
      · cases h; exact hc
      next hroom =>
        split at h
        · cases h
        · cases h; exact hc
        next d used hstep =>
          have hmoved := step_cases hstep
          have hpos := used.property
          have hready : c.Ready := by
            rw [not_or] at hroom
            exact ⟨by omega, hroom⟩
          have hwin : 0 < c.window := Nat.succ_pos _
          refine ih (n - used.val) (by omega) ?_ (step c d used.val hc hready hmoved) h
          rw [hmoved.available_eq, hn]

/-- A call of work leaves the options. -/
theorem options_eq_of_work {c : SymbolCutter α τ} {source : String} {queue : MessageQueue}
    {turn : Turn (SymbolCutter α τ)} (h : c.work source queue = .ok turn) :
    turn.block.options = c.options := by
  obtain ⟨_, -, hdrain⟩ := Fault.bind_eq_ok_iff.1 h
  exact drain_induct (P := fun d => d.options = c.options)
    (fun _ _ _ hd _ hstep => hstep.options_eq.trans hd) rfl rfl hdrain

/-- **Why a call of work returns** without a failure: there is no further window, or no room. -/
theorem drain_stops {source : String} {queue : MessageQueue} {n : Nat} {c : SymbolCutter α τ}
    {turn : Turn (SymbolCutter α τ)} (hn : n = c.available)
    (h : c.drain source queue n = .ok turn) (hok : turn.failure = none) :
    turn.block.available < turn.block.window ∨ turn.block.symbols.room = 0 ∨
      turn.block.flags.room = 0 := by
  induction n using Nat.strongRecOn generalizing c with
  | ind n ih =>
    rw [drain] at h
    split at h
    next hwindow =>
      cases h
      exact .inl (hn ▸ hwindow)
    next hwindow =>
      split at h
      next hroom =>
        cases h
        exact .inr hroom
      next hroom =>
        split at h
        · cases h
        · cases h; cases hok
        next d used hstep =>
          have hpos := used.property
          have hwin : 0 < c.window := Nat.succ_pos _
          refine ih (n - used.val) (by omega) ?_ h
          rw [(step_cases hstep).available_eq, hn]

/-- **Why a call of work returns** without a failure, as seen by the caller. -/
theorem work_stops {c : SymbolCutter α τ} {source : String} {queue : MessageQueue}
    {turn : Turn (SymbolCutter α τ)} (h : c.work source queue = .ok turn)
    (hok : turn.failure = none) :
    turn.block.available < turn.block.window ∨ turn.block.symbols.room = 0 ∨
      turn.block.flags.room = 0 := by
  rw [work, Fault.bind_eq_ok_iff] at h
  obtain ⟨_, -, hdrain⟩ := h
  exact drain_stops rfl hdrain hok

/-- If looks succeed, a call of work returns, and it fails only if a look does. -/
theorem drain_returns {P : SymbolCutter α τ → Prop} {F : Prop} {source : String}
    {queue : MessageQueue}
    (step : ∀ c d used, P c → c.Ready → Step c source d used → P d)
    (returns : ∀ c, P c → c.Ready →
      ∃ look, c.step source = .ok look ∧ ∀ cause, look = .failed cause → F)
    {n : Nat} {c : SymbolCutter α τ} (hn : n = c.available) (hc : P c) :
    ∃ turn, c.drain source queue n = .ok turn ∧ (turn.failure ≠ none → F) := by
  induction n using Nat.strongRecOn generalizing c with
  | ind n ih =>
    rw [drain]
    split
    · exact ⟨_, rfl, fun hfailed => absurd rfl hfailed⟩
    next hwindow =>
      split
      · exact ⟨_, rfl, fun hfailed => absurd rfl hfailed⟩
      next hroom =>
        rw [not_or] at hroom
        have hready : c.Ready := ⟨by omega, hroom⟩
        obtain ⟨look, hlook, hfail⟩ := returns c hc hready
        rw [hlook]
        cases look with
        | failed cause => exact ⟨_, rfl, fun _ => hfail cause rfl⟩
        | moved d used =>
          have hmoved := step_cases hlook
          have hpos := used.property
          have hwin : 0 < c.window := Nat.succ_pos _
          refine ih (n - used.val) (by omega) ?_ (step c d used.val hc hready hmoved)
          rw [hmoved.available_eq, hn]

/-! ### A session -/

/-- **What every event and every look preserves, a session preserves.** The looks are those of its
calls of work. -/
theorem Session.run_induct_of_mem {P : Session α τ → Prop} {events : List (Event α τ)}
    (samples : ∀ s p r e, P s → s.cutter.samples.meet s.samples e = .ok (p, r) →
      P { s with cutter := { s.cutter with samples := p }, samples := r })
    (triggers : ∀ s p r e, P s → s.cutter.triggers.meet s.triggers e = .ok (p, r) →
      P { s with cutter := { s.cutter with triggers := p }, triggers := r })
    (symbols : ∀ s p r e, P s → s.cutter.symbols.meet s.symbols e = .ok (p, r) →
      P { s with cutter := { s.cutter with symbols := p }, symbols := r })
    (flags : ∀ s p r e, P s → s.cutter.flags.meet s.flags e = .ok (p, r) →
      P { s with cutter := { s.cutter with flags := p }, flags := r })
    (look : ∀ s source d used, Event.work source ∈ events → P s → s.cutter.Ready →
      Step s.cutter source d used → P { s with cutter := d })
    {s t : Session α τ} (hs : P s) (h : s.run events = .ok t) : P t := by
  refine Fault.foldlM_induct_of_mem (fun s e t he hs h => ?_) hs h
  cases e with
  | samples e =>
    obtain ⟨⟨p, r⟩, hmeet, rfl⟩ := Fault.exists_of_bind_pure h
    exact samples s p r e hs hmeet
  | triggers e =>
    obtain ⟨⟨p, r⟩, hmeet, rfl⟩ := Fault.exists_of_bind_pure h
    exact triggers s p r e hs hmeet
  | symbols e =>
    obtain ⟨⟨p, r⟩, hmeet, rfl⟩ := Fault.exists_of_bind_pure h
    exact symbols s p r e hs hmeet
  | flags e =>
    obtain ⟨⟨p, r⟩, hmeet, rfl⟩ := Fault.exists_of_bind_pure h
    exact flags s p r e hs hmeet
  | work source =>
    simp only [Session.act, work, Fault.bind_eq_ok_iff] at h
    obtain ⟨turn, ⟨_, -, hdrain⟩, h⟩ := h
    cases h
    exact drain_induct (P := fun c => P { s with cutter := c })
      (fun c d used hc => look { s with cutter := c } source d used he hc) rfl hs hdrain

/-- What every event and every look preserves, whoever calls for it, a session preserves. -/
theorem Session.run_induct {P : Session α τ → Prop}
    (samples : ∀ s p r e, P s → s.cutter.samples.meet s.samples e = .ok (p, r) →
      P { s with cutter := { s.cutter with samples := p }, samples := r })
    (triggers : ∀ s p r e, P s → s.cutter.triggers.meet s.triggers e = .ok (p, r) →
      P { s with cutter := { s.cutter with triggers := p }, triggers := r })
    (symbols : ∀ s p r e, P s → s.cutter.symbols.meet s.symbols e = .ok (p, r) →
      P { s with cutter := { s.cutter with symbols := p }, symbols := r })
    (flags : ∀ s p r e, P s → s.cutter.flags.meet s.flags e = .ok (p, r) →
      P { s with cutter := { s.cutter with flags := p }, flags := r })
    (look : ∀ s source d used, P s → s.cutter.Ready → Step s.cutter source d used →
      P { s with cutter := d })
    {s t : Session α τ} {events : List (Event α τ)} (hs : P s) (h : s.run events = .ok t) :
    P t :=
  run_induct_of_mem samples triggers symbols flags
    (fun s source d used _ => look s source d used) hs h

end Run

end SymbolCutter

end OfdmBurst
