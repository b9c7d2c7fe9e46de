import OfdmBurst.Block.FrameMapper
import OfdmBurst.Proofs.Stream.Record

/-!
# Running a mapper

A session is a mapper with its queue and the records of its outlets, and with the messages that the
queue accepted. Between calls of work, messages are put into the queue, and readers grant room and
take what is there, on the three outlets independently.

A call of work does three kinds of things: it takes messages until one begins a burst, it takes
messages and finds none that does, or it sends one symbol of the burst. Taking and sending a message
are one move of the program. They are told apart here, with a state in between in which a burst has
been begun and nothing of it was sent, so that there is one lemma about a symbol and not two.

## Main definitions

* `Session`, `Event`, `Session.act`, `Session.run`
* `timeMark` — what a time puts on a symbol
* `Sent` — one symbol of a burst

## Main results

* `send_cases` — what sending a symbol does
* `fill_stages`, `fill_induct`, `Session.run_induct` — invariants
* `fill_returns` — a call of work returns if symbols can be sent
-/

namespace OfdmBurst

namespace FrameMapper

/-- A mapper with its queue, the records of its outlets, and the messages accepted. -/
structure Session where
  mapper : FrameMapper
  queue : MessageQueue := {}
  symbols : Record Sample Float := {}
  flags : Record UInt8 Float := {}
  ends : Record UInt8 Float := {}
  accepted : List Message := []

/-- What can happen to a mapper and its queue. -/
inductive Event where
  | enqueue (m : Message)
  | symbols (e : Outlet.Event)
  | flags (e : Outlet.Event)
  | ends (e : Outlet.Event)
  | work (source : String)

/-- A session after an event. -/
def Session.act (s : Session) : Event → Except Fault Session
  | .enqueue m =>
    match s.queue.enqueue? m with
    | some queue => .ok { s with queue, accepted := s.accepted ++ [m] }
    | none => .ok s
  | .symbols e => do
    let (p, r) ← s.mapper.symbols.meet s.symbols e
    return { s with mapper := { s.mapper with symbols := p }, symbols := r }
  | .flags e => do
    let (p, r) ← s.mapper.flags.meet s.flags e
    return { s with mapper := { s.mapper with flags := p }, flags := r }
  | .ends e => do
    let (p, r) ← s.mapper.ends.meet s.ends e
    return { s with mapper := { s.mapper with ends := p }, ends := r }
  | .work source => do
    let turn ← s.mapper.work source s.queue
    return { s with mapper := turn.block, queue := turn.queue }

/-- A session after several events. -/
def Session.run (s : Session) (events : List Event) : Except Fault Session :=
  events.foldlM Session.act s

/-! ### One symbol -/

/-- The tag on a symbol that has a time. It is stated without the name that the mapper gives it. -/
def timeMark (index : Nat) (time : Option (Timestamp Float)) : List (Tag Float) :=
  time.toList.map fun time => { index, key := Tag.txTime, value := .time time }

theorem index_of_timeMark {marks : List (Tag Float)} {index : Nat}
    {time : Option (Timestamp Float)} (h : marks.map Tag.unsourced = timeMark index time) :
    ∀ t ∈ marks, t.index = index := by
  intro t ht
  have hmem : t.unsourced ∈ timeMark index time := h ▸ List.mem_map_of_mem ht
  obtain ⟨_, -, hmark⟩ := List.mem_map.1 hmem
  exact (congrArg Tag.index hmark).symm

/-- What sending one symbol of a burst does. -/
inductive Sent (m : FrameMapper) (b : Burst) : FrameMapper → Prop
  | mk {symbol : List Sample} {marks : List (Tag Float)} {symbols : Outlet Sample Float}
      {flags ends : Outlet UInt8 Float}
      (made : m.symbolOf (b.groups m.constellation.bits m.map.size) = .ok symbol)
      (marked : marks.map Tag.unsourced =
        timeMark m.symbols.written (if b.fresh then b.time else none))
      (symbol_put : (m.symbols.attachAll marks).put symbol = .ok symbols)
      (flag_put : m.flags.put [if b.fresh then 1 else 0] = .ok flags)
      (end_put : m.ends.put
        [if (b.after (m.map.size * m.constellation.bits)).isDone then 1 else 0] = .ok ends) :
      Sent m b
        { m with symbols, flags, ends,
                 burst := if (b.after (m.map.size * m.constellation.bits)).isDone then none
                          else some (b.after (m.map.size * m.constellation.bits)) }

/-- **What sending a symbol does.** -/
theorem send_cases {m next : FrameMapper} {source : String} {b : Burst}
    (h : m.send source b = .ok next) : Sent m b next := by
  simp only [send, Fault.bind_eq_ok_iff, Fault.pure_eq_ok_iff] at h
  obtain ⟨symbol, hsymbol, symbols, hsymbols, flags, hflags, ends, hends, rfl⟩ := h
  refine .mk hsymbol ?_ hsymbols hflags hends
  cases b.fresh with
  | true => cases b.time <;> rfl
  | false => rfl

/-- Sending does not look at the burst of the mapper. -/
theorem send_begun (m : FrameMapper) (source : String) (b b' : Burst) :
    ({ m with burst := some b' } : FrameMapper).send source b = m.send source b := rfl

/-! ### A call of work -/

/-- **What taking messages and sending symbols lead to, a call of work leads to.** A call that is told
of the end of the stream finishes there. -/
theorem fill_stages {P : FrameMapper → MessageQueue → Bool → Prop} {source : String}
    (idle : ∀ m queue waiting, P m queue false → m.burst = none →
      nextBurst queue.messages = (.nothing, waiting) → P m { queue with messages := waiting } false)
    (stop : ∀ m queue waiting, P m queue false → m.burst = none →
      nextBurst queue.messages = (.endOfStream, waiting) →
      P m { queue with messages := waiting } true)
    (load : ∀ m queue b waiting, P m queue false → m.burst = none →
      nextBurst queue.messages = (.burst b, waiting) →
      P { m with burst := some b } { queue with messages := waiting } false)
    (send : ∀ m queue b next, P m queue false → m.burst = some b → Sent m b next →
      P next queue false)
    {n : Nat} {m : FrameMapper} {queue : MessageQueue} {turn : Turn FrameMapper}
    (hm : P m queue false) (h : fill source n m queue = .ok turn) :
    P turn.block turn.queue turn.finished := by
  induction n generalizing m queue with
  | zero =>
    cases h
    exact hm
  | succ n ih =>
    rw [fill] at h
    cases hburst : m.burst with
    | some b =>
      simp only [hburst, Fault.bind_eq_ok_iff] at h
      obtain ⟨next, hsend, hrest⟩ := h
      exact ih (send m queue b next hm hburst (send_cases hsend)) hrest
    | none =>
      simp only [hburst] at h
      cases hnext : nextBurst queue.messages with
      | mk next waiting =>
        rw [hnext] at h
        cases next with
        | nothing =>
          cases h
          exact idle m queue waiting hm hburst hnext
        | endOfStream =>
          cases h
          exact stop m queue waiting hm hburst hnext
        | burst b =>
          simp only [Fault.bind_eq_ok_iff] at h
          obtain ⟨sent, hsend, hrest⟩ := h
          rw [← send_begun m source b b] at hsend
          exact ih (send _ _ b sent (load m queue b waiting hm hburst hnext) rfl
            (send_cases hsend)) hrest

/-- **What taking messages and sending symbols preserve, a call of work preserves.** -/
theorem fill_induct {P : FrameMapper → MessageQueue → Prop} {source : String}
    (skip : ∀ m queue next waiting, P m queue → m.burst = none →
      nextBurst queue.messages = (next, waiting) → (∀ b, next ≠ .burst b) →
      P m { queue with messages := waiting })
    (load : ∀ m queue b waiting, P m queue → m.burst = none →
      nextBurst queue.messages = (.burst b, waiting) →
      P { m with burst := some b } { queue with messages := waiting })
    (send : ∀ m queue b next, P m queue → m.burst = some b → Sent m b next → P next queue)
    {n : Nat} {m : FrameMapper} {queue : MessageQueue} {turn : Turn FrameMapper}
    (hm : P m queue) (h : fill source n m queue = .ok turn) : P turn.block turn.queue := by
  refine fill_stages (P := fun m queue _ => P m queue) ?_ ?_ load send hm h
  · exact fun m queue waiting hm hburst hnext => skip m queue _ waiting hm hburst hnext (by simp)
  · exact fun m queue waiting hm hburst hnext => skip m queue _ waiting hm hburst hnext (by simp)

theorem waiting_of_nothing {messages waiting : List Message}
    (h : nextBurst messages = (.nothing, waiting)) : waiting = [] := by
  induction messages with
  | nil =>
    cases h
    rfl
  | cons m rest ih =>
    rw [nextBurst] at h
    split at h
    · cases h
    · split at h
      · cases h
      · exact ih h

/-- If symbols can be sent, a call of work returns. Then there was room for no more symbols, or it
was told of the end of the stream, or nothing is left to send. -/
theorem fill_returns {P : FrameMapper → MessageQueue → Prop} {source : String}
    (load : ∀ m queue b waiting, P m queue → m.burst = none →
      nextBurst queue.messages = (.burst b, waiting) →
      P { m with burst := some b } { queue with messages := waiting })
    (send : ∀ m queue b next, P m queue → m.burst = some b → Sent m b next → P next queue)
    (returns : ∀ m queue b, P m queue → m.burst = some b → m.room ≠ 0 →
      ∃ next, m.send source b = .ok next ∧ next.room = m.room - 1)
    {n : Nat} {m : FrameMapper} {queue : MessageQueue} (hn : n = m.room) (hm : P m queue) :
    ∃ turn, fill source n m queue = .ok turn ∧
      (turn.block.room = 0 ∨ turn.finished = true ∨
        turn.block.burst = none ∧ turn.queue.messages = []) := by
  induction n generalizing m queue with
  | zero => exact ⟨_, rfl, .inl hn.symm⟩
  | succ n ih =>
    rw [fill]
    cases hburst : m.burst with
    | some b =>
      obtain ⟨next, hsend, hroom⟩ := returns m queue b hm hburst (by omega)
      obtain ⟨turn, hturn, hstop⟩ := ih (by omega) (send m queue b next hm hburst (send_cases hsend))
      exact ⟨turn, Fault.bind_eq_ok_iff.2 ⟨next, hsend, hturn⟩, hstop⟩
    | none =>
      simp only
      cases hnext : nextBurst queue.messages with
      | mk next waiting =>
        cases next with
        | nothing => exact ⟨_, rfl, .inr (.inr ⟨hburst, waiting_of_nothing hnext⟩)⟩
        | endOfStream => exact ⟨_, rfl, .inr (.inl rfl)⟩
        | burst b =>
          have hbegun := load m queue b waiting hm hburst hnext
          obtain ⟨sent, hsend, hroom⟩ := returns _ _ b hbegun rfl
            (show m.room ≠ 0 by omega)
          have hleft : n = sent.room := by
            rw [hroom]
            show n = m.room - 1
            omega
          obtain ⟨turn, hturn, hstop⟩ := ih hleft (send _ _ b sent hbegun rfl (send_cases hsend))
          exact ⟨turn, Fault.bind_eq_ok_iff.2 ⟨sent, hsend, hturn⟩, hstop⟩

/-! ### A session -/

/-- **What every event and every move of a call of work preserve, a session preserves.** -/
theorem Session.run_induct {P : Session → Prop}
    (enqueue : ∀ s m queue, P s → s.queue.enqueue? m = some queue →
      P { s with queue, accepted := s.accepted ++ [m] })
    (symbols : ∀ s p r e, P s → s.mapper.symbols.meet s.symbols e = .ok (p, r) →
      P { s with mapper := { s.mapper with symbols := p }, symbols := r })
    (flags : ∀ s p r e, P s → s.mapper.flags.meet s.flags e = .ok (p, r) →
      P { s with mapper := { s.mapper with flags := p }, flags := r })
    (ends : ∀ s p r e, P s → s.mapper.ends.meet s.ends e = .ok (p, r) →
      P { s with mapper := { s.mapper with ends := p }, ends := r })
    (skip : ∀ s next waiting, P s → s.mapper.burst = none →
      nextBurst s.queue.messages = (next, waiting) → (∀ b, next ≠ .burst b) →
      P { s with queue := { s.queue with messages := waiting } })
    (load : ∀ s b waiting, P s → s.mapper.burst = none →
      nextBurst s.queue.messages = (.burst b, waiting) →
      P { s with mapper := { s.mapper with burst := some b },
                 queue := { s.queue with messages := waiting } })
    (send : ∀ s b next, P s → s.mapper.burst = some b → Sent s.mapper b next →
      P { s with mapper := next })
    {s t : Session} {events : List Event} (hs : P s) (h : s.run events = .ok t) : P t := by
  refine Fault.foldlM_induct (fun s e t hs h => ?_) hs h
  cases e with
  | enqueue m =>
    simp only [Session.act] at h
    split at h
    next queue hqueue =>
      cases h
      exact enqueue s m queue hs hqueue
    · cases h
      exact hs
  | symbols e =>
    obtain ⟨⟨p, r⟩, hmeet, rfl⟩ := Fault.exists_of_bind_pure h
    exact symbols s p r e hs hmeet
  | flags e =>
    obtain ⟨⟨p, r⟩, hmeet, rfl⟩ := Fault.exists_of_bind_pure h
    exact flags s p r e hs hmeet
  | ends e =>
    obtain ⟨⟨p, r⟩, hmeet, rfl⟩ := Fault.exists_of_bind_pure h
    exact ends s p r e hs hmeet
  | work source =>
    simp only [Session.act, Fault.bind_eq_ok_iff] at h
    obtain ⟨turn, hwork, h⟩ := h
    cases h
    exact fill_induct (P := fun m queue => P { s with mapper := m, queue })
      (fun m queue next waiting hm => skip { s with mapper := m, queue } next waiting hm)
      (fun m queue b waiting hm => load { s with mapper := m, queue } b waiting hm)
      (fun m queue b next hm => send { s with mapper := m, queue } b next hm) hs hwork

end FrameMapper

end OfdmBurst
