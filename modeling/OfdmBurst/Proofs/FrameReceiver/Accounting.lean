import OfdmBurst.Proofs.FrameReceiver.Refinement

/-!
# Every frame is accounted for

The queue that a receiver fills is shared: somebody else takes messages out of it, at any time, also
between two symbols of one call of work. So a call is too coarse a step here. A `Ledger` is moved one
symbol at a time, with the consumer and the terminals moving in between, and a call of work is only
one way to order these moves (`Ledger.exists_of_session`).

Beside the session a ledger lists the completed frames, each as it met the queue: the message, how
many messages waited, and whether it was dropped. The message is read off `advance`, which is a step
without its queue. What the queue and the consumer have is then a statement about that list.

`Ledger.Balanced` is the invariant. Handing over a message is the only thing a step does to the queue,
so all it needs of a step is what `Handed` says, and the list agrees with the reference parser because
the receiver does.

## Scope

The receiver is the only one to put messages into the queue. A consumer is not kept from taking
messages of an empty queue: it then gets none, and nothing changes.

## Main definitions

* `advance` — one symbol, apart from the queue
* `Completion`, `Move`, `Ledger` — completed frames, and moves of both sides
* `Ledger.Balanced` — the invariant

## Main results

* `step_eq_advance`, `step_of_completes` — what a queue has to do with a step
* `Ledger.Balanced.step` — a symbol keeps the balance
* `Ledger.exists_of_session` — calls of work are moves
* `Ledger.balances` — dequeued, waiting and dropped are all that was completed
-/

namespace OfdmBurst

namespace FrameReceiver

/-! ### A step apart from its queue -/

/-- Go on to the next symbol, and leave the message that it completes to others. -/
def advance (r : FrameReceiver) : Except Fault (FrameReceiver × Option Message) := do
  let flag ← Fault.found r.flags.buffer.toList.head?
  let symbol ← r.symbols.item 0
  let result ← r.decoder.step (flag != 0) (r.flags.tagsOn r.flags.read) symbol
  let derotated ← r.showing result.report
  let symbols ← r.symbols.consume 1
  let flags ← r.flags.consume 1
  return ({ r with symbols, flags, derotated, decoder := result.decoder }, result.message)

/-- **A step is an advance**, and then the message is handed over. -/
theorem step_eq_advance (r : FrameReceiver) (queue : MessageQueue) :
    r.step queue = do
      let (next, message) ← r.advance
      return message.elim (next, queue) (next.deliver queue) := by
  rw [step_eq, advance]
  simp only [bind_assoc, pure_bind]

/-- What a queue makes of a message does not reach the rest of the receiver. If it is full, the count
of dropped frames is one higher, and otherwise it has the message. -/
theorem step_of_completes {r next : FrameReceiver} {m : Message}
    (h : r.advance = .ok (next, some m)) (queue : MessageQueue) :
    r.step queue = .ok (if queue.isFull then ({ next with dropped := next.dropped + 1 }, queue)
      else (next, { queue with messages := queue.messages ++ [m] })) := by
  rw [step_eq_advance, h]
  show Except.ok (next.deliver queue m) = _
  rw [deliver, MessageQueue.enqueue?]
  cases queue.isFull <;> rfl

/-! ### Moves -/

/-- A completed frame as it met the queue. -/
structure Completion where
  message : Message
  /-- How many messages waited in the queue when the frame was completed. -/
  waiting : Nat
  /-- Whether the receiver counted the frame as dropped. -/
  dropped : Bool

/-- What a receiver, its consumer, or its neighbours do next. -/
inductive Move where
  | symbols (e : Inlet.Event Sample Float)
  | flags (e : Inlet.Event UInt8 Float)
  | derotated (e : Outlet.Event)
  | dequeue
  | step

/-- A move that is an event of a session. -/
def Move.event? : Move → Option Event
  | .symbols e => some (.symbols e)
  | .flags e => some (.flags e)
  | .derotated e => some (.derotated e)
  | .dequeue => some .dequeue
  | .step => none

/-- A session, and the frames completed in it. -/
structure Ledger where
  session : Session
  completions : List Completion := []

namespace Ledger

/-- Nothing has happened yet to a receiver and its queue. -/
def start (receiver : FrameReceiver) (queue : MessageQueue) : Ledger :=
  { session := .start receiver queue }

/-- The frame that a step has completed, if it has, with what became of it. -/
def completed (s : Session) (message : Option Message) (next : FrameReceiver) : List Completion :=
  message.toList.map fun message =>
    { message, waiting := s.queue.size, dropped := decide (s.receiver.dropped < next.dropped) }

/-- A ledger after a move. -/
def act (l : Ledger) (move : Move) : Except Fault Ledger :=
  match move.event? with
  | some e => do return { l with session := ← l.session.act e }
  | none => do
    let (_, message) ← l.session.receiver.advance
    let (receiver, queue) ← l.session.receiver.step l.session.queue
    return {
      session := { l.session with receiver, queue }
      completions := l.completions ++ completed l.session message receiver }

/-- A ledger after several moves. -/
def run (l : Ledger) (moves : List Move) : Except Fault Ledger := moves.foldlM act l

/-- The messages of the completed frames that were not dropped. -/
def kept (l : Ledger) : List Message := (l.completions.filter (!·.dropped)).map (·.message)

/-- **The invariant.** Frames were completed as the reference has them, and met a queue that never
held more than its limit. -/
structure Balanced (policy : MissingTagPolicy) (map : CarrierMap) (fresh : Demapper Float32)
    (limit : Nat) (l : Ledger) : Prop where
  /-- The session is sound. -/
  sound : l.session.Sound policy map fresh { limit }
  /-- The limit of the queue stays. -/
  limit_eq : l.session.queue.limit = limit
  /-- The queue keeps to it. -/
  size_le : limit ≠ 0 → l.session.queue.size ≤ limit
  /-- What was taken and what waits are the frames that were kept, in order. -/
  kept_eq : l.session.taken ++ l.session.queue.messages = l.kept
  /-- The frames dropped are as many as were counted. -/
  dropped_eq : l.session.receiver.dropped = l.completions.countP (·.dropped)
  /-- A frame is dropped exactly if it meets a full queue. -/
  dropped_iff : ∀ c ∈ l.completions, c.dropped = true ↔ 0 < limit ∧ c.waiting = limit
  /-- The frames completed are those of the reference. -/
  views_eq : l.completions.map (·.message.view) =
    (l.session.parsed policy map fresh).frames.map Frame.view

end Ledger

/-! ### One symbol -/

/-- What becomes of a message in a queue that holds no more than its limit. -/
theorem Handed.outcome {queue queue' : MessageQueue} {dropped dropped' : Nat} {m : Message}
    (h : Handed queue dropped (some m) queue' dropped')
    (hsize : queue.limit ≠ 0 → queue.size ≤ queue.limit) :
    (0 < queue.limit ∧ queue.size = queue.limit ∧ queue' = queue ∧ dropped' = dropped + 1) ∨
      (¬ (0 < queue.limit ∧ queue.size = queue.limit) ∧
        queue' = { queue with messages := queue.messages ++ [m] } ∧ dropped' = dropped) := by
  cases h with
  | kept enqueued =>
    rw [MessageQueue.enqueue?] at enqueued
    split at enqueued
    · cases enqueued
    next hroom =>
      cases enqueued
      simp only [MessageQueue.isFull, Bool.and_eq_true, bne_iff_ne, decide_eq_true_eq] at hroom
      exact .inr ⟨fun hfull => hroom ⟨by omega, by omega⟩, rfl, rfl⟩
  | lost full =>
    simp only [MessageQueue.isFull, Bool.and_eq_true, bne_iff_ne, decide_eq_true_eq] at full
    have hle := hsize full.1
    exact .inl ⟨by omega, by omega, rfl, rfl⟩

/-- A step completes the message of the advance. -/
theorem Step.of_advance {r next after : FrameReceiver} {queue queue' : MessageQueue}
    {message : Option Message} (hmessage : r.advance = .ok (after, message))
    (h : Step r queue next queue') :
    ∃ flag symbol result,
      r.flags.buffer.toList.head? = some flag ∧ r.symbols.item 0 = .ok symbol ∧
      r.decoder.step (flag != 0) (r.flags.tagsOn r.flags.read) symbol = .ok result ∧
      result.message = message ∧ next.symbols.read = r.symbols.read + 1 ∧
      Handed queue r.dropped message queue' next.dropped := by
  cases h with
  | @mk flag symbol result _ _ _ _ _ flagged item decoded _ consumed _ handed =>
    simp only [advance, flagged, item, decoded, Fault.found, Fault.bind_eq_ok_iff,
      Fault.pure_eq_ok_iff, Except.ok.injEq, exists_eq_left'] at hmessage
    obtain ⟨_, -, _, -, _, -, hmessage⟩ := hmessage
    cases hmessage
    exact ⟨flag, symbol, result, flagged, item, decoded, rfl, (Inlet.consume_frame consumed).2,
      handed⟩

namespace Ledger

namespace Balanced

variable {policy : MissingTagPolicy} {map : CarrierMap} {fresh : Demapper Float32} {limit : Nat}
  {l : Ledger}

/-- Frames that were already found. -/
theorem of_parsed_eq (h : l.Balanced policy map fresh limit) {s : Session}
    (hsound : s.Sound policy map fresh { limit }) (hqueue : s.queue = l.session.queue)
    (htaken : s.taken = l.session.taken)
    (hdropped : s.receiver.dropped = l.session.receiver.dropped)
    (hparsed : s.parsed policy map fresh = l.session.parsed policy map fresh) :
    ({ l with session := s } : Ledger).Balanced policy map fresh limit where
  sound := hsound
  limit_eq := hqueue ▸ h.limit_eq
  size_le := hqueue ▸ h.size_le
  kept_eq := by rw [hqueue, htaken]; exact h.kept_eq
  dropped_eq := hdropped.trans h.dropped_eq
  dropped_iff := h.dropped_iff
  views_eq := by rw [hparsed]; exact h.views_eq

/-- What is taken was waiting. -/
theorem dequeue (h : l.Balanced policy map fresh limit) {m : Message} {queue : MessageQueue}
    (hm : l.session.queue.dequeue? = some (m, queue)) :
    ({ l with session := { l.session with queue, taken := l.session.taken ++ [m] } } :
      Ledger).Balanced policy map fresh limit := by
  obtain ⟨hmessages, hlimit⟩ := MessageQueue.messages_dequeue? hm
  refine { h with
    sound := h.sound.dequeue hm
    limit_eq := hlimit.trans h.limit_eq
    size_le := fun hne => ?_
    kept_eq := ?_ }
  · have hle := h.size_le hne
    rw [MessageQueue.size, hmessages, List.length_cons] at hle
    exact Nat.le_of_succ_le hle
  · show l.session.taken ++ [m] ++ queue.messages = l.kept
    rw [List.append_assoc, List.singleton_append, ← hmessages]
    exact h.kept_eq

/-- **A symbol keeps the balance.** The frame that it completes, if it completes one, goes into the
queue or is dropped, and the reference finds it as well. -/
theorem step (h : l.Balanced policy map fresh limit) {next after : FrameReceiver}
    {queue : MessageQueue} {message : Option Message}
    (hmessage : l.session.receiver.advance = .ok (after, message))
    (hstep : Step l.session.receiver l.session.queue next queue) :
    ({ session := { l.session with receiver := next, queue }
       completions := l.completions ++ completed l.session message next } : Ledger).Balanced policy
      map fresh limit := by
  obtain ⟨flag, symbol, result, hflag, hitem, hdecoded, rfl, hread, hhanded⟩ :=
    hstep.of_advance hmessage
  have hviews : ((l.session.parsed policy map fresh).frames.map Frame.view) ++
      result.message.toList.map Message.view =
      (({ l.session with receiver := next, queue } : Session).parsed policy map fresh).frames.map
        Frame.view := by
    have hreception := h.sound.reception_eq hflag hitem
    have hframes := (h.sound.follows.step
      (r := reception map.occupied l.session.symbols l.session.flags l.session.receiver.symbols.read)
      (by rw [hreception]; exact hdecoded)).2
    rw [Session.parsed] at hframes ⊢
    rw [← parse_concat, ← receptions_succ] at hframes
    simp only [Session.parsed, hread]
    exact hframes.symm
  have hsize : l.session.queue.limit ≠ 0 → l.session.queue.size ≤ l.session.queue.limit :=
    fun hne => h.limit_eq.symm ▸ h.size_le (h.limit_eq ▸ hne)
  have hlisted : (l.completions ++ completed l.session result.message next).map (·.message.view) =
      (({ l.session with receiver := next, queue } : Session).parsed policy map fresh).frames.map
        Frame.view := by
    rw [← hviews, ← h.views_eq, List.map_append, completed, List.map_map]
    rfl
  cases hcase : result.message with
  | none =>
    rw [hcase] at hhanded hlisted
    have hrest : l.completions ++ completed l.session none next = l.completions :=
      List.append_nil _
    rw [hrest] at hlisted ⊢
    generalize hcount : next.dropped = count at hhanded
    cases hhanded
    exact { h with
      sound := h.sound.step hstep
      dropped_eq := hcount.trans h.dropped_eq
      views_eq := hlisted }
  | some m =>
    rw [hcase] at hhanded hlisted
    rcases hhanded.outcome hsize with
      ⟨hpos, hfull, rfl, hcount⟩ | ⟨hroom, rfl, hcount⟩
    · -- the frame is dropped
      have hentry : completed l.session (some m) next = [⟨m, l.session.queue.size, true⟩] := by
        simp [completed, hcount]
      rw [hentry] at hlisted ⊢
      refine
        { sound := h.sound.step hstep
          limit_eq := h.limit_eq
          size_le := h.size_le
          kept_eq := ?_
          dropped_eq := ?_
          dropped_iff := ?_
          views_eq := hlisted }
      · rw [h.kept_eq, kept, kept, List.filter_append]
        simp
      · rw [List.countP_append, ← h.dropped_eq]
        exact hcount
      · intro c hc
        rcases List.mem_append.1 hc with hc | hc
        · exact h.dropped_iff c hc
        · rw [List.mem_singleton.1 hc, ← h.limit_eq]
          simp [hpos, hfull]
    · -- the frame is kept
      have hentry : completed l.session (some m) next = [⟨m, l.session.queue.size, false⟩] := by
        simp [completed, hcount]
      rw [hentry] at hlisted ⊢
      refine
        { sound := h.sound.step hstep
          limit_eq := h.limit_eq
          size_le := fun hne => ?_
          kept_eq := ?_
          dropped_eq := ?_
          dropped_iff := ?_
          views_eq := hlisted }
      · have hle := h.size_le hne
        rw [h.limit_eq] at hroom
        rw [MessageQueue.size] at hle hroom ⊢
        rw [List.length_append, List.length_singleton]
        omega
      · show l.session.taken ++ (l.session.queue.messages ++ [m]) = _
        rw [← List.append_assoc, h.kept_eq, kept, kept, List.filter_append, List.map_append]
        rfl
      · rw [List.countP_append, ← h.dropped_eq]
        exact hcount
      · intro c hc
        rcases List.mem_append.1 hc with hc | hc
        · exact h.dropped_iff c hc
        · rw [List.mem_singleton.1 hc, ← h.limit_eq]
          simpa using fun hpos => (not_and.1 hroom hpos)

/-- **Every move keeps the balance.** -/
theorem act (h : l.Balanced policy map fresh limit) {move : Move} {l' : Ledger}
    (hact : l.act move = .ok l') : l'.Balanced policy map fresh limit := by
  cases move with
  | symbols e =>
    obtain ⟨s, hs, rfl⟩ := Fault.exists_of_bind_pure hact
    obtain ⟨⟨p, r⟩, hmeet, rfl⟩ := Fault.exists_of_bind_pure hs
    obtain ⟨-, -, hread, -⟩ := h.sound.symbols.meet hmeet
    refine h.of_parsed_eq (h.sound.feedSymbols hmeet) rfl rfl rfl ?_
    simp only [Session.parsed, hread, h.sound.receptions_symbols hmeet]
  | flags e =>
    obtain ⟨s, hs, rfl⟩ := Fault.exists_of_bind_pure hact
    obtain ⟨⟨p, r⟩, hmeet, rfl⟩ := Fault.exists_of_bind_pure hs
    refine h.of_parsed_eq (h.sound.feedFlags hmeet) rfl rfl rfl ?_
    simp only [Session.parsed, h.sound.receptions_flags hmeet]
  | derotated e =>
    obtain ⟨s, hs, rfl⟩ := Fault.exists_of_bind_pure hact
    obtain ⟨⟨p, r⟩, hmeet, rfl⟩ := Fault.exists_of_bind_pure hs
    exact h.of_parsed_eq (h.sound.readDerotated hmeet) rfl rfl rfl rfl
  | dequeue =>
    obtain ⟨s, hs, rfl⟩ := Fault.exists_of_bind_pure hact
    simp only [Session.act] at hs
    split at hs
    next m queue hm =>
      cases hs
      exact h.dequeue hm
    · cases hs
      exact h
  | step =>
    simp only [Ledger.act, Move.event?, Fault.bind_eq_ok_iff, Fault.pure_eq_ok_iff] at hact
    obtain ⟨⟨after, message⟩, hmessage, ⟨next, queue⟩, hstep, rfl⟩ := hact
    exact h.step hmessage (step_cases hstep)

end Balanced

/-- A receiver that was just built, with an empty queue. -/
theorem balanced_start {o : ReceiverOptions} {r : FrameReceiver} (hbuild : o.build = .ok r)
    (limit : Nat) :
    (start r { limit }).Balanced o.policy r.decoder.map
      (Demapper.start o.constellation r.decoder.map.size o.gains) limit where
  sound := (Session.sound_start hbuild { limit }).2
  limit_eq := rfl
  size_le := fun _ => Nat.zero_le _
  kept_eq := rfl
  dropped_eq := by
    simp only [ReceiverOptions.build, Fault.bind_eq_ok_iff, Fault.pure_eq_ok_iff] at hbuild
    obtain ⟨map, -, _, -, _, -, _, -, rfl⟩ := hbuild
    rfl
  dropped_iff := fun _ hc => absurd hc List.not_mem_nil
  views_eq := by
    have hread : r.symbols.read = 0 := by
      simp only [ReceiverOptions.build, Fault.bind_eq_ok_iff, Fault.pure_eq_ok_iff] at hbuild
      obtain ⟨map, -, _, -, _, -, _, -, rfl⟩ := hbuild
      rfl
    simp only [start, Session.start, Session.parsed, hread]
    rfl

/-! ### Calls of work -/

/-- A call of work is a step for each symbol. -/
theorem exists_of_drain {n : Nat} {turn : Turn FrameReceiver} (l : Ledger)
    (h : drain n l.session.receiver l.session.queue = .ok turn) :
    ∃ moves l', l.run moves = .ok l' ∧
      l'.session = { l.session with receiver := turn.block, queue := turn.queue } := by
  induction n generalizing l with
  | zero =>
    cases h
    exact ⟨[], l, rfl, rfl⟩
  | succ n ih =>
    rw [drain] at h
    split at h
    · cases h
      exact ⟨[], l, rfl, rfl⟩
    · obtain ⟨⟨next, queue⟩, hstep, hrest⟩ := Fault.bind_eq_ok_iff.1 h
      have hadvance := hstep
      rw [step_eq_advance, Fault.bind_eq_ok_iff] at hadvance
      obtain ⟨⟨after, message⟩, hadvance, -⟩ := hadvance
      obtain ⟨moves, l', hrun, hsession⟩ := ih
        { session := { l.session with receiver := next, queue }
          completions := l.completions ++ completed l.session message next } hrest
      refine ⟨.step :: moves, l', ?_, hsession⟩
      rw [run, List.foldlM_cons]
      exact Fault.bind_eq_ok_iff.2 ⟨_, Fault.bind_eq_ok_iff.2 ⟨_, hadvance,
        Fault.bind_eq_ok_iff.2 ⟨_, hstep, rfl⟩⟩, hrun⟩

/-- An event of a session is some moves. -/
theorem exists_of_event (l : Ledger) {e : Event} {t : Session} (h : l.session.act e = .ok t) :
    ∃ moves l', l.run moves = .ok l' ∧ l'.session = t := by
  have hone : ∀ move : Move, move.event? = some e →
      ∃ moves l', l.run moves = .ok l' ∧ l'.session = t := by
    intro move hmove
    refine ⟨[move], { l with session := t }, ?_, rfl⟩
    rw [run, List.foldlM_cons, act, hmove]
    simp only [h]
    rfl
  cases e with
  | symbols e => exact hone (.symbols e) rfl
  | flags e => exact hone (.flags e) rfl
  | derotated e => exact hone (.derotated e) rfl
  | dequeue => exact hone .dequeue rfl
  | work =>
    obtain ⟨turn, hwork, rfl⟩ := Fault.exists_of_bind_pure h
    exact exists_of_drain l hwork

/-- **Calls of work are moves.** Whatever a session comes to by whole calls, a ledger comes to. -/
theorem exists_of_session (l : Ledger) {events : List Event} {t : Session}
    (h : l.session.run events = .ok t) : ∃ moves l', l.run moves = .ok l' ∧ l'.session = t := by
  induction events generalizing l with
  | nil =>
    rw [Session.run, List.foldlM_nil, Fault.pure_eq_ok_iff] at h
    exact ⟨[], l, rfl, h⟩
  | cons e rest ih =>
    rw [Session.run, List.foldlM_cons, Fault.bind_eq_ok_iff] at h
    obtain ⟨s, hs, hrest⟩ := h
    obtain ⟨first, l', hfirst, rfl⟩ := l.exists_of_event hs
    obtain ⟨later, l'', hlater, ht⟩ := ih l' hrest
    refine ⟨first ++ later, l'', ?_, ht⟩
    rw [run, List.foldlM_append]
    exact Fault.bind_eq_ok_iff.2 ⟨l', hfirst, hlater⟩

/-! ### The whole ledger -/

/-- **Dequeued, waiting and dropped are all that was completed.** A receiver and the consumer of its
queue move in any order. At every point the messages taken and those that wait are the completed
frames that were not dropped, in the order of their completion. The number of completed frames is the
number of the three together. A frame was dropped exactly if the queue then held as many messages as
its limit. The completed frames are those that the reference finds. And the next one that a symbol
completes leaves the receiver the same whether it is dropped or not, the count apart. -/
theorem balances {o : ReceiverOptions} {r : FrameReceiver} (hbuild : o.build = .ok r) {limit : Nat}
    {queue : MessageQueue} (hqueue : MessageQueue.ofLimit limit = .ok queue) {moves : List Move}
    {l : Ledger} (hrun : (start r queue).run moves = .ok l) :
    let map := r.decoder.map
    let fresh := Demapper.start o.constellation map.size o.gains
    l.session.taken ++ l.session.queue.messages = l.kept ∧
    l.completions.length =
      l.session.taken.length + l.session.queue.size + l.session.receiver.dropped ∧
    (∀ c ∈ l.completions, c.dropped = true ↔ 0 < limit ∧ c.waiting = limit) ∧
    l.completions.map (·.message.view) =
      (l.session.parsed o.policy map fresh).frames.map Frame.view ∧
    ∀ next m, l.session.receiver.advance = .ok (next, some m) → ∀ queue : MessageQueue,
      l.session.receiver.step queue = .ok (if queue.isFull
        then ({ next with dropped := next.dropped + 1 }, queue)
        else (next, { queue with messages := queue.messages ++ [m] })) := by
  intro map fresh
  have hempty : queue = { limit } := by
    rw [MessageQueue.ofLimit] at hqueue
    split at hqueue
    · exact (Except.ok.inj hqueue).symm
    · cases hqueue
  subst hempty
  have hbalanced : l.Balanced o.policy map fresh limit :=
    Fault.foldlM_induct (fun _ _ _ h hact => h.act hact) (balanced_start hbuild limit) hrun
  refine ⟨hbalanced.kept_eq, ?_, hbalanced.dropped_iff, hbalanced.views_eq,
    fun next m hcompletes queue => step_of_completes hcompletes queue⟩
  have hlength := congrArg List.length hbalanced.kept_eq
  rw [List.length_append, kept, List.length_map, ← List.countP_eq_length_filter] at hlength
  have hsplit := List.length_eq_countP_add_countP (·.dropped) (l := l.completions)
  rw [MessageQueue.size, hbalanced.dropped_eq, hlength, hsplit, Nat.add_comm]
  simp only [Bool.not_eq_true, Bool.decide_eq_false]

/-- Thirty-two carriers of two points, so that one symbol is a header. -/
def headerWide : ReceiverOptions where
  constellation := .bpsk
  occupied := 32
  map := (CarrierMap.ofCarriers (List.range 32) 32).toOption

/-- Three empty frames, the second of which meets a full queue. No sample is a number, so every
carrier is decided for the first point. -/
def thrice : List Move :=
  [.symbols (.push (List.replicate (6 * 32) ⟨0 / 0, 0 / 0⟩) []), .flags (.push [1, 0, 1, 0, 1, 0] []),
    .step, .step, .step, .step, .dequeue, .step, .step]

theorem balances_thrice :
    ∃ r queue l, headerWide.build = .ok r ∧ MessageQueue.ofLimit 1 = .ok queue ∧
      (start r queue).run thrice = .ok l ∧
      l.completions.map (fun c => (c.waiting, c.dropped)) = [(0, false), (1, true), (0, false)] ∧
      l.session.taken ++ l.session.queue.messages = l.kept ∧ l.session.taken.length = 1 ∧
      l.session.queue.size = 1 ∧ l.session.receiver.dropped = 1 := by
  obtain ⟨r, hbuild, h⟩ := Fault.exists_ok_of_any (x := headerWide.build)
    (p := fun r => (MessageQueue.ofLimit 1).toOption.any fun queue =>
      ((start r queue).run thrice).toOption.any fun l =>
        l.completions.map (fun c => (c.waiting, c.dropped)) ==
            [(0, false), (1, true), (0, false)] &&
          l.session.taken.length == 1 && l.session.queue.size == 1)
    (by decide +kernel)
  obtain ⟨queue, hqueue, h⟩ := Fault.exists_ok_of_any h
  obtain ⟨l, hrun, h⟩ := Fault.exists_ok_of_any h
  simp only [Bool.and_eq_true, beq_iff_eq] at h
  obtain ⟨⟨hmet, htaken⟩, hwaiting⟩ := h
  obtain ⟨hkept, hcount, -⟩ := balances hbuild hqueue hrun
  have hlength := congrArg List.length hmet
  rw [List.length_map, hcount, htaken, hwaiting] at hlength
  exact ⟨r, queue, l, hbuild, hqueue, hrun, hmet, hkept, htaken, hwaiting, Nat.add_left_cancel hlength⟩

end Ledger

end FrameReceiver

end OfdmBurst
