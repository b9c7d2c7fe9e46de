import OfdmBurst.Block.FrameReceiver
import OfdmBurst.Proofs.Frame.Reception
import OfdmBurst.Proofs.Stream.Record

/-!
# Running a receiver

A session is a receiver with its queue and the records of its terminals, and with the messages that
somebody took from the queue. Between calls of work, symbols and flags arrive in pieces of any
length, a reader grants room at the outlet and takes what is there, and messages are taken from the
queue.

`Step` says everything that going on to the next symbol can do, and `Handed` what becomes of its
message. As for a cutter, statements about sessions are proved from these.

## Main definitions

* `Session`, `Event`, `Session.act`, `Session.run`
* `Step`, `Handed` — one symbol, and its message on the way into the queue
* `reception`, `receptions` — what the records say about the symbols

## Main results

* `step_cases` — what one symbol does
* `Session.run_induct` — what events and symbols preserve, a session preserves
* `drain_returns` — a call of work returns if its symbols do
-/

namespace OfdmBurst

namespace FrameReceiver

/-- A receiver with its queue, the records of its terminals, and the messages taken. -/
structure Session where
  receiver : FrameReceiver
  queue : MessageQueue := {}
  symbols : Record Sample Float := {}
  flags : Record UInt8 Float := {}
  derotated : Record Sample Float := {}
  taken : List Message := []

/-- What can happen to a receiver and its queue. -/
inductive Event where
  | symbols (e : Inlet.Event Sample Float)
  | flags (e : Inlet.Event UInt8 Float)
  | derotated (e : Outlet.Event)
  | dequeue
  | work

/-- A session after an event. -/
def Session.act (s : Session) : Event → Except Fault Session
  | .symbols e => do
    let (p, r) ← s.receiver.symbols.meet s.symbols e
    return { s with receiver := { s.receiver with symbols := p }, symbols := r }
  | .flags e => do
    let (p, r) ← s.receiver.flags.meet s.flags e
    return { s with receiver := { s.receiver with flags := p }, flags := r }
  | .derotated e => do
    let (p, r) ← s.receiver.derotated.meet s.derotated e
    return { s with receiver := { s.receiver with derotated := p }, derotated := r }
  | .dequeue =>
    match s.queue.dequeue? with
    | some (m, queue) => .ok { s with queue, taken := s.taken ++ [m] }
    | none => .ok s
  | .work => do
    let turn ← s.receiver.work s.queue
    return { s with receiver := turn.block, queue := turn.queue }

/-- A session after several events. -/
def Session.run (s : Session) (events : List Event) : Except Fault Session :=
  events.foldlM Session.act s

/-! ### One symbol -/

/-- What becomes of a message on its way into the queue, with the count of dropped ones. -/
inductive Handed (queue : MessageQueue) (dropped : Nat) :
    Option Message → MessageQueue → Nat → Prop
  | nothing : Handed queue dropped none queue dropped
  | kept {m : Message} {queue' : MessageQueue} (enqueued : queue.enqueue? m = some queue') :
      Handed queue dropped (some m) queue' dropped
  | lost {m : Message} (full : queue.isFull = true) :
      Handed queue dropped (some m) queue (dropped + 1)

/-- The outlet after a symbol that somebody may listen to. -/
def showing (r : FrameReceiver) (report : Option (SymbolReport Float32 Float)) :
    Except Fault (Outlet Sample Float) :=
  if r.derotated.connected then do r.derotated.put (← r.shown report) else .ok r.derotated

/-- If nobody listens the outlet stays as it is, and otherwise a symbol is put there. -/
theorem showing_cases {r : FrameReceiver} {report : Option (SymbolReport Float32 Float)}
    {p : Outlet Sample Float} (h : r.showing report = .ok p) :
    r.derotated.connected = false ∧ p = r.derotated ∨
      r.derotated.connected = true ∧ ∃ xs, r.shown report = .ok xs ∧ r.derotated.put xs = .ok p := by
  rw [showing] at h
  split at h
  next hconnected =>
    obtain ⟨xs, hxs, hput⟩ := Fault.bind_eq_ok_iff.1 h
    exact .inr ⟨hconnected, xs, hxs, hput⟩
  next hdeaf =>
    cases h
    exact .inl ⟨Bool.eq_false_iff.2 hdeaf, rfl⟩

/-- What the next symbol does to a receiver and its queue. -/
inductive Step (r : FrameReceiver) (queue : MessageQueue) : FrameReceiver → MessageQueue → Prop
  | mk {flag : UInt8} {symbol : List Sample} {result : BurstDecoder.Result}
      {symbols : Inlet Sample Float} {flags : Inlet UInt8 Float} {derotated : Outlet Sample Float}
      {dropped : Nat} {queue' : MessageQueue}
      (flagged : r.flags.buffer.toList.head? = some flag)
      (item : r.symbols.item 0 = .ok symbol)
      (decoded : r.decoder.step (flag != 0) (r.flags.tagsOn r.flags.read) symbol = .ok result)
      (shown : r.showing result.report = .ok derotated)
      (consumed : r.symbols.consume 1 = .ok symbols)
      (unflagged : r.flags.consume 1 = .ok flags)
      (handed : Handed queue r.dropped result.message queue' dropped) :
      Step r queue { r with symbols, flags, derotated, decoder := result.decoder, dropped } queue'

theorem deliver_cases (r : FrameReceiver) (queue : MessageQueue) (m : Message) :
    ∃ dropped, (r.deliver queue m).1 = { r with dropped } ∧
      Handed queue r.dropped (some m) (r.deliver queue m).2 dropped := by
  rw [deliver]
  cases henqueue : queue.enqueue? m with
  | some queue' => exact ⟨r.dropped, rfl, .kept henqueue⟩
  | none =>
    rw [MessageQueue.enqueue?] at henqueue
    split at henqueue
    next hfull => exact ⟨r.dropped + 1, rfl, .lost hfull⟩
    · cases henqueue

theorem found_eq_ok_iff {α : Type} {x : Option α} {a : α} : Fault.found x = .ok a ↔ x = some a := by
  cases x with
  | none => simp [Fault.found]
  | some b => simp [Fault.found]

/-- Going on to the next symbol, as a chain without branches. -/
theorem step_eq (r : FrameReceiver) (queue : MessageQueue) :
    r.step queue = do
      let flag ← Fault.found r.flags.buffer.toList.head?
      let symbol ← r.symbols.item 0
      let result ← r.decoder.step (flag != 0) (r.flags.tagsOn r.flags.read) symbol
      let derotated ← r.showing result.report
      let symbols ← r.symbols.consume 1
      let flags ← r.flags.consume 1
      let next := { r with symbols, flags, derotated, decoder := result.decoder }
      return result.message.elim (next, queue) (next.deliver queue) := by
  rw [step]
  refine bind_congr fun flag => bind_congr fun symbol => bind_congr fun result => ?_
  rw [showing]
  cases r.derotated.connected with
  | false =>
    simp only [Bool.false_eq_true, ↓reduceIte]
    refine bind_congr fun derotated => bind_congr fun symbols => bind_congr fun flags => ?_
    cases result.message <;> rfl
  | true =>
    simp only [↓reduceIte, bind_assoc]
    refine bind_congr fun xs => bind_congr fun derotated => bind_congr fun symbols =>
      bind_congr fun flags => ?_
    cases result.message <;> rfl

/-- **What one symbol does.** -/
theorem step_cases {r next : FrameReceiver} {queue queue' : MessageQueue}
    (h : r.step queue = .ok (next, queue')) : Step r queue next queue' := by
  simp only [step_eq, Fault.bind_eq_ok_iff, found_eq_ok_iff, Fault.pure_eq_ok_iff] at h
  obtain ⟨flag, hflag, symbol, hsymbol, result, hresult, derotated, hderotated, symbols, hsymbols,
    flags, hflags, h⟩ := h
  cases hmessage : result.message with
  | none =>
    rw [hmessage] at h
    cases h
    exact .mk hflag hsymbol hresult hderotated hsymbols hflags (hmessage ▸ .nothing)
  | some m =>
    rw [hmessage] at h
    obtain ⟨dropped, hnext, hhanded⟩ := deliver_cases
      { r with symbols, flags, derotated, decoder := result.decoder } queue m
    rw [Option.elim_some] at h
    rw [h] at hnext hhanded
    cases hnext
    exact .mk hflag hsymbol hresult hderotated hsymbols hflags (hmessage ▸ hhanded)

theorem Step.available_eq {r next : FrameReceiver} {queue queue' : MessageQueue}
    (h : Step r queue next queue') : next.available = r.available - 1 := by
  cases h with
  | mk _ _ _ _ consumed unflagged =>
    rw [available, available, Inlet.items_consume consumed, Inlet.items_consume unflagged]
    omega

/-- Nobody begins to listen because of a symbol. -/
theorem Step.connected_eq {r next : FrameReceiver} {queue queue' : MessageQueue}
    (h : Step r queue next queue') : next.derotated.connected = r.derotated.connected := by
  cases h with
  | mk _ _ _ shown =>
    rcases showing_cases shown with ⟨-, rfl⟩ | ⟨-, xs, -, hput⟩
    · rfl
    · have hattached : (r.derotated.attachAll []).put xs = .ok _ := hput
      obtain ⟨-, -, rfl⟩ := Outlet.put_attachAll_eq_ok_iff.1 hattached
      rfl

/-! ### A call of work -/

/-- **What every symbol preserves, a call of work preserves.** -/
theorem drain_induct {P : FrameReceiver → MessageQueue → Prop}
    (step : ∀ r queue next queue', P r queue → Step r queue next queue' → P next queue')
    {n : Nat} {r : FrameReceiver} {queue : MessageQueue} {turn : Turn FrameReceiver}
    (hr : P r queue) (h : drain n r queue = .ok turn) : P turn.block turn.queue := by
  induction n generalizing r queue with
  | zero =>
    cases h
    exact hr
  | succ n ih =>
    rw [drain] at h
    split at h
    · cases h
      exact hr
    · obtain ⟨⟨next, queue'⟩, hstep, hrest⟩ := Fault.bind_eq_ok_iff.1 h
      exact ih (step r queue next queue' hr (step_cases hstep)) hrest

/-- If symbols lead to a result, a call of work returns, and then no symbol is left or there is no
room for what it would show. -/
theorem drain_returns {P : FrameReceiver → MessageQueue → Prop}
    (step : ∀ r queue next queue', P r queue → Step r queue next queue' → P next queue')
    (returns : ∀ r queue, P r queue → r.available ≠ 0 →
      ¬ (r.derotated.connected ∧ r.derotated.room = 0) → ∃ next, r.step queue = .ok next)
    {n : Nat} {r : FrameReceiver} {queue : MessageQueue} (hn : n = r.available) (hr : P r queue) :
    ∃ turn, drain n r queue = .ok turn ∧
      (turn.block.available = 0 ∨ turn.block.derotated.connected ∧ turn.block.derotated.room = 0) := by
  induction n generalizing r queue with
  | zero => exact ⟨_, rfl, .inl hn.symm⟩
  | succ n ih =>
    rw [drain]
    by_cases hfull : r.derotated.connected ∧ r.derotated.room = 0
    · rw [if_pos hfull]
      exact ⟨_, rfl, .inr hfull⟩
    · rw [if_neg hfull]
      obtain ⟨⟨next, queue'⟩, hstep⟩ := returns r queue hr (by omega) hfull
      have hmoved := step_cases hstep
      obtain ⟨turn, hturn, hstop⟩ := ih (by rw [hmoved.available_eq]; omega)
        (step r queue next queue' hr hmoved)
      exact ⟨turn, Fault.bind_eq_ok_iff.2 ⟨_, hstep, hturn⟩, hstop⟩

theorem work_connected {r : FrameReceiver} {queue : MessageQueue} {turn : Turn FrameReceiver}
    (h : r.work queue = .ok turn) : turn.block.derotated.connected = r.derotated.connected :=
  drain_induct (P := fun r' _ => r'.derotated.connected = r.derotated.connected)
    (fun _ _ _ _ hr hstep => hstep.connected_eq.trans hr) rfl h

/-! ### A session -/

/-- **What every event and every symbol preserves, a session preserves.** -/
theorem Session.run_induct {P : Session → Prop}
    (symbols : ∀ s p r e, P s → s.receiver.symbols.meet s.symbols e = .ok (p, r) →
      P { s with receiver := { s.receiver with symbols := p }, symbols := r })
    (flags : ∀ s p r e, P s → s.receiver.flags.meet s.flags e = .ok (p, r) →
      P { s with receiver := { s.receiver with flags := p }, flags := r })
    (derotated : ∀ s p r e, P s → s.receiver.derotated.meet s.derotated e = .ok (p, r) →
      P { s with receiver := { s.receiver with derotated := p }, derotated := r })
    (dequeue : ∀ s m queue, P s → s.queue.dequeue? = some (m, queue) →
      P { s with queue, taken := s.taken ++ [m] })
    (step : ∀ s next queue, P s → Step s.receiver s.queue next queue →
      P { s with receiver := next, queue })
    {s t : Session} {events : List Event} (hs : P s) (h : s.run events = .ok t) : P t := by
  refine Fault.foldlM_induct (fun s e t hs h => ?_) hs h
  cases e with
  | symbols e =>
    obtain ⟨⟨p, r⟩, hmeet, rfl⟩ := Fault.exists_of_bind_pure h
    exact symbols s p r e hs hmeet
  | flags e =>
    obtain ⟨⟨p, r⟩, hmeet, rfl⟩ := Fault.exists_of_bind_pure h
    exact flags s p r e hs hmeet
  | derotated e =>
    obtain ⟨⟨p, r⟩, hmeet, rfl⟩ := Fault.exists_of_bind_pure h
    exact derotated s p r e hs hmeet
  | dequeue =>
    simp only [Session.act] at h
    split at h
    next m queue hdequeue =>
      cases h
      exact dequeue s m queue hs hdequeue
    · cases h
      exact hs
  | work =>
    simp only [Session.act, Fault.bind_eq_ok_iff] at h
    obtain ⟨turn, hwork, h⟩ := h
    cases h
    exact drain_induct (P := fun r queue => P { s with receiver := r, queue })
      (fun r queue next queue' hr hstep => step { s with receiver := r, queue } next queue' hr hstep)
      hs hwork

/-! ### Receptions -/

/-- What the records say about symbol `i`. -/
def reception (width : Nat) (symbols : Record Sample Float) (flags : Record UInt8 Float) (i : Nat) :
    Reception where
  flagged := flags.data.getD i 0 != 0
  tags := flags.tags.filter (·.index == i)
  symbol := (symbols.data.drop (i * width)).take width

/-- What the records say about the first `n` symbols. -/
def receptions (width : Nat) (symbols : Record Sample Float) (flags : Record UInt8 Float) (n : Nat) :
    List Reception :=
  (List.range n).map (reception width symbols flags)

variable {width : Nat} {symbols : Record Sample Float} {flags : Record UInt8 Float}

theorem receptions_succ (n : Nat) :
    receptions width symbols flags (n + 1) =
      receptions width symbols flags n ++ [reception width symbols flags n] := by
  rw [receptions, List.range_succ, List.map_append]
  rfl

/-- More symbols do not change what was received. -/
theorem receptions_append_symbols {n : Nat} (hn : n * width ≤ symbols.data.length)
    (data : List Sample) (tags : List (Tag Float)) :
    receptions width (symbols.append width data tags) flags n = receptions width symbols flags n := by
  refine List.map_congr_left fun i hi => ?_
  have hlt := List.mem_range.1 hi
  have hle : i * width + width ≤ symbols.data.length := by
    have hmul := Nat.mul_le_mul_right width (Nat.succ_le_of_lt hlt)
    rw [Nat.succ_mul] at hmul
    omega
  simp only [reception, Record.append]
  rw [take_drop_append (by omega)]

/-- More flags, with their tags, do not change what was received. -/
theorem receptions_append_flags {n : Nat} (hn : n ≤ flags.data.length)
    (data : List UInt8) (tags : List (Tag Float)) :
    receptions width symbols (flags.append 1 data tags) n = receptions width symbols flags n := by
  refine List.map_congr_left fun i hi => ?_
  have hlt := List.mem_range.1 hi
  have htags : (flags.append 1 data tags).tags.filter (·.index == i) =
      flags.tags.filter (·.index == i) := by
    refine Record.filter_tags_append (fun t ht => ?_) data tags
    rw [beq_iff_eq.1 ht, Nat.div_one]
    exact Nat.lt_of_lt_of_le hlt hn
  simp only [reception, htags]
  simp only [Record.append, List.getD_eq_getElem?_getD]
  rw [List.getElem?_append_left (by omega)]

end FrameReceiver

end OfdmBurst
