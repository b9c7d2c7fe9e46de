import OfdmBurst.Proofs.FrameReceiver.Attribution
import OfdmBurst.Proofs.FrameReceiver.Safety

/-!
# A listener changes nothing

Somebody may listen at the outlet of a receiver and see there what has become of every symbol. It
must not matter to anybody else. But there is more to it than a write for each symbol: where there
is no room the receiver stops, in the middle of a call, so the same symbol is met in another call of
work with a listener than without one, and whoever takes messages in between finds other ones.

What does not depend on calls and room is a `Core`: the decoder, the queue, the messages taken and
the count of dropped ones. A core is moved by `Deed`s, which are a symbol or a visit to the queue.
`Session.Moved` is the invariant. Every session has come to the core that its deeds lead to, and its
deeds are the symbols consumed, with the visits at their places between them. So two sessions
through the same symbols, whose queues are visited at the same places, have the same core, however
differently they are called, and whether somebody listens or not.

What the listener sees is no news either. It is the symbol on its data carriers, turned and
multiplied by what the decoder has learnt from the symbols before (`BurstDecoder.shows`).

## Main definitions

* `BurstDecoder.shows`, `BurstDecoder.tapped` — what is to be seen of symbols
* `Core`, `Deed`, `deeds` — what is left of a session without its streams, and what moves it
* `Session.visits` — where in a session its queue is visited
* `Session.Moved`, `Session.Overheard` — the invariants of the core and of the outlet

## Main results

* `Session.moved` — a session has come to the core that its deeds lead to
* `shown_eq` — what is put to the outlet for a symbol
* `Session.Overheard.step` — one more symbol at the outlet
* `tap_is_passive` — with a listener and without
-/

namespace OfdmBurst

/-! ### What is to be seen -/

namespace BurstDecoder

variable {d : BurstDecoder} {rs : List Reception} {results : List Result}

/-- What is to be seen of a symbol: zeros while the decoder searches, and otherwise the values on
the data carriers in the order of the map, turned by the phase that is tracked and multiplied by the
taps, with zeros behind them. -/
def shows (d : BurstDecoder) (symbol : List Sample) : List Sample :=
  if d.searching then List.replicate d.map.occupied Phasor.zero
  else
    (d.map.carriers.zip d.demapper.taps).map (fun (k, tap) =>
      symbol.getD k Phasor.zero * Phasor.turn d.demapper.phase * tap) ++
    List.replicate (d.map.occupied - d.map.size) Phasor.zero

/-- What is to be seen of symbols, each as the decoder is when it meets the symbol. -/
def tapped (d : BurstDecoder) : List Reception → List Result → List (List Sample)
  | r :: rs, result :: results => d.shows r.symbol :: result.decoder.tapped rs results
  | _, _ => []

theorem tapped_nil (d : BurstDecoder) (rs : List Reception) : d.tapped rs [] = [] := by
  cases rs <;> rfl

theorem tapped_concat {front : List Result} (hlength : front.length = rs.length) (r : Reception)
    (result : Result) :
    d.tapped (rs ++ [r]) (front ++ [result]) =
      d.tapped rs front ++ [(d.reached front).shows r.symbol] := by
  induction rs generalizing d front with
  | nil =>
    obtain rfl := List.eq_nil_of_length_eq_zero hlength
    rfl
  | cons x rest ih =>
    obtain ⟨a, more, rfl⟩ := List.exists_cons_of_length_eq_add_one hlength
    rw [List.cons_append, List.cons_append, tapped, tapped, ih (Nat.succ.inj hlength),
      reached_cons]
    rfl

theorem length_tapped (hlength : results.length = rs.length) :
    (d.tapped rs results).length = rs.length := by
  induction rs generalizing d results with
  | nil => rfl
  | cons x rest ih =>
    obtain ⟨a, more, rfl⟩ := List.exists_cons_of_length_eq_add_one hlength
    rw [tapped, List.length_cons, List.length_cons, ih (Nat.succ.inj hlength)]

end BurstDecoder

namespace FrameReceiver

/-! ### Deeds -/

/-- What is left of a session without its streams. -/
structure Core where
  decoder : BurstDecoder
  dropped : Nat
  queue : MessageQueue
  taken : List Message

/-- What can happen to a core. -/
inductive Deed where
  | symbol (r : Reception)
  | visit

namespace Core

/-- Hand a message to the queue, or drop it. -/
def hand (c : Core) (message : Option Message) : Core :=
  match message with
  | none => c
  | some m =>
    match c.queue.enqueue? m with
    | some queue => { c with queue }
    | none => { c with dropped := c.dropped + 1 }

/-- A core after a deed. -/
def act (c : Core) : Deed → Except Fault Core
  | .symbol r => do
    let result ← c.decoder.step r.flagged r.tags r.symbol
    return { c with decoder := result.decoder }.hand result.message
  | .visit =>
    match c.queue.dequeue? with
    | some (m, queue) => .ok { c with queue, taken := c.taken ++ [m] }
    | none => .ok c

end Core

/-- Symbols with visits between them. A visit at place `i` comes before symbol `i`. -/
def deeds (rs : List Reception) (visits : List Nat) : List Deed :=
  (List.range (rs.length + 1)).flatMap fun i =>
    List.replicate (visits.count i) .visit ++ rs[i]?.toList.map .symbol

/-- One more visit, at the end. -/
theorem deeds_visit (rs : List Reception) (visits : List Nat) :
    deeds rs (visits ++ [rs.length]) = deeds rs visits ++ [.visit] := by
  have hbefore : (List.range rs.length).flatMap (fun i =>
      List.replicate ((visits ++ [rs.length]).count i) Deed.visit ++ rs[i]?.toList.map .symbol) =
      (List.range rs.length).flatMap fun i =>
        List.replicate (visits.count i) Deed.visit ++ rs[i]?.toList.map .symbol := by
    refine List.flatMap_congr fun i hi => ?_
    have hne : rs.length ≠ i := Nat.ne_of_gt (List.mem_range.1 hi)
    rw [List.count_append, List.count_singleton, beq_false_of_ne hne]
    rfl
  have hnone : rs[rs.length]? = none := List.getElem?_eq_none (Nat.le_refl _)
  rw [deeds, deeds, List.range_succ, List.flatMap_append, List.flatMap_append, hbefore]
  simp only [List.flatMap_singleton, hnone, List.count_append, List.count_singleton_self,
    List.replicate_succ', Option.toList_none, List.map_nil, List.append_nil, List.append_assoc]

/-- One more symbol, with no visit behind it. -/
theorem deeds_symbol {rs : List Reception} {visits : List Nat}
    (hvisits : ∀ i ∈ visits, i ≤ rs.length) (r : Reception) :
    deeds (rs ++ [r]) visits = deeds rs visits ++ [.symbol r] := by
  have hbefore : (List.range rs.length).flatMap (fun i =>
      List.replicate (visits.count i) Deed.visit ++ (rs ++ [r])[i]?.toList.map .symbol) =
      (List.range rs.length).flatMap fun i =>
        List.replicate (visits.count i) Deed.visit ++ rs[i]?.toList.map .symbol := by
    refine List.flatMap_congr fun i hi => ?_
    rw [List.getElem?_append_left (List.mem_range.1 hi)]
  have hnone : rs[rs.length]? = none := List.getElem?_eq_none (Nat.le_refl _)
  have hbehind : (rs ++ [r])[rs.length + 1]? = none :=
    List.getElem?_eq_none (Nat.le_of_eq (by rw [List.length_append, List.length_singleton]))
  have hcount : visits.count (rs.length + 1) = 0 :=
    List.count_eq_zero.2 fun hmem => absurd (hvisits _ hmem) (Nat.not_succ_le_self _)
  rw [deeds, deeds, List.length_append, List.length_singleton, List.range_succ,
    List.flatMap_append, List.range_succ, List.flatMap_append, List.flatMap_append, hbefore]
  simp only [List.flatMap_singleton, hnone, hbehind, hcount, List.getElem?_concat_length,
    List.replicate_zero, Option.toList_none, Option.toList_some, List.map_nil, List.map_singleton,
    List.append_nil, List.append_assoc]

/-- What becomes of a message is settled by the queue. -/
theorem Handed.hand_eq {c : Core} {message : Option Message} {queue : MessageQueue}
    {dropped : Nat} (h : Handed c.queue c.dropped message queue dropped) :
    c.hand message = { c with queue, dropped } := by
  obtain ⟨decoder, count, before, taken⟩ := c
  cases h with
  | nothing => rfl
  | kept enqueued =>
    rw [Core.hand]
    simp only [enqueued]
  | @lost m full =>
    have hrefused : before.enqueue? m = none := by
      rw [MessageQueue.enqueue?]
      exact if_pos full
    rw [Core.hand]
    simp only [hrefused]

namespace Session

/-- What is left of a session without its streams. -/
def core (s : Session) : Core := ⟨s.receiver.decoder, s.receiver.dropped, s.queue, s.taken⟩

/-- Where the queue is visited when a receiver has read `read` symbols and an event comes. -/
def visitAt (read : Nat) : Event → List Nat
  | .dequeue => [read]
  | .symbols _ | .flags _ | .derotated _ | .work => []

/-- Where in a session its queue is visited, as the number of symbols read before. -/
def visits (s : Session) : List Event → List Nat
  | [] => []
  | e :: rest =>
    match s.act e with
    | .ok next => visitAt s.receiver.symbols.read e ++ next.visits rest
    | .error _ => []

theorem visits_concat {s t : Session} {events : List Event} (h : s.run events = .ok t) (e : Event)
    {u : Session} (hact : t.act e = .ok u) :
    s.visits (events ++ [e]) = s.visits events ++ visitAt t.receiver.symbols.read e := by
  induction events generalizing s with
  | nil =>
    cases h
    simp only [List.nil_append, visits, hact, List.append_nil]
  | cons a rest ih =>
    obtain ⟨next, hnext, hrest⟩ := Fault.bind_eq_ok_iff.1 h
    rw [List.cons_append, visits, visits, hnext]
    simp only [ih hrest, List.append_assoc]

/-- **The invariant of the core**: it is what the deeds lead to. -/
structure Moved (policy : MissingTagPolicy) (map : CarrierMap) (fresh : Demapper Float32)
    (before : MessageQueue) (c : Core) (visits : List Nat) (s : Session) : Prop where
  /-- The session is sound. -/
  sound : s.Sound policy map fresh before
  /-- Nobody has looked into the queue behind the symbols consumed. -/
  visits_le : ∀ i ∈ visits, i ≤ s.receiver.symbols.read
  /-- Symbols and visits, in their order, lead to the core. -/
  core_eq : (deeds (s.consumed map.occupied) visits).foldlM Core.act c = .ok s.core

variable {policy : MissingTagPolicy} {map : CarrierMap} {fresh : Demapper Float32}
  {before : MessageQueue} {c : Core} {visits : List Nat} {s t : Session}

/-- One more symbol is one more that was consumed. -/
theorem consumed_step {width : Nat} {next : FrameReceiver} {queue : MessageQueue}
    (hread : next.symbols.read = s.receiver.symbols.read + 1) :
    ({ s with receiver := next, queue } : Session).consumed width =
      s.consumed width ++ [reception width s.symbols s.flags s.receiver.symbols.read] := by
  rw [consumed]
  simp only [hread]
  exact receptions_succ _

namespace Moved

/-- **A symbol is a deed.** -/
theorem step (h : s.Moved policy map fresh before c visits) {next : FrameReceiver}
    {queue : MessageQueue} (hstep : Step s.receiver s.queue next queue) :
    ({ s with receiver := next, queue } : Session).Moved policy map fresh before c visits := by
  have hsound := h.sound.step hstep
  cases hstep with
  | mk flagged item decoded shown consumed unflagged handed =>
    obtain ⟨-, hread⟩ := Inlet.consume_frame consumed
    refine ⟨hsound, fun i hi => ?_, ?_⟩
    · simp only [hread]
      exact Nat.le_succ_of_le (h.visits_le i hi)
    · have hplaces : ∀ i ∈ visits, i ≤ (s.consumed map.occupied).length := by
        rw [length_consumed]
        exact h.visits_le
      rw [consumed_step hread, h.sound.reception_eq flagged item, deeds_symbol hplaces]
      refine Fault.foldlM_concat h.core_eq ?_
      rw [Core.act]
      refine Fault.bind_eq_ok_iff.2 ⟨_, decoded, ?_⟩
      exact congrArg Except.ok (Handed.hand_eq (c := ⟨_, s.receiver.dropped, s.queue, s.taken⟩) handed)

/-- Whatever happens outside, and a whole call of work, are some deeds. -/
theorem act (h : s.Moved policy map fresh before c visits) {e : Event} (hact : s.act e = .ok t) :
    t.Moved policy map fresh before c (visits ++ visitAt s.receiver.symbols.read e) := by
  cases e with
  | symbols e =>
    obtain ⟨⟨p, r⟩, hmeet, rfl⟩ := Fault.exists_of_bind_pure hact
    obtain ⟨-, -, hread, -⟩ := h.sound.symbols.meet hmeet
    rw [visitAt, List.append_nil]
    refine ⟨h.sound.feedSymbols hmeet, fun i hi => ?_, ?_⟩
    · simp only [hread]
      exact h.visits_le i hi
    · simp only [consumed, hread, h.sound.receptions_symbols hmeet]
      exact h.core_eq
  | flags e =>
    obtain ⟨⟨p, r⟩, hmeet, rfl⟩ := Fault.exists_of_bind_pure hact
    rw [visitAt, List.append_nil]
    refine ⟨h.sound.feedFlags hmeet, h.visits_le, ?_⟩
    simp only [consumed, h.sound.receptions_flags hmeet]
    exact h.core_eq
  | derotated e =>
    obtain ⟨⟨p, r⟩, hmeet, rfl⟩ := Fault.exists_of_bind_pure hact
    rw [visitAt, List.append_nil]
    exact ⟨h.sound.readDerotated hmeet, h.visits_le, h.core_eq⟩
  | dequeue =>
    have hplaces : ∀ i ∈ visits ++ visitAt s.receiver.symbols.read .dequeue,
        i ≤ s.receiver.symbols.read := by
      intro i hi
      rcases List.mem_append.1 hi with hi | hi
      · exact h.visits_le i hi
      · exact Nat.le_of_eq (List.mem_singleton.1 hi)
    have hmore : (deeds (s.consumed map.occupied) (visits ++ visitAt s.receiver.symbols.read
        .dequeue)).foldlM Core.act c = s.core.act .visit := by
      rw [visitAt, ← length_consumed map.occupied s, deeds_visit, List.foldlM_append, h.core_eq]
      exact bind_pure (s.core.act .visit)
    simp only [Session.act] at hact
    split at hact
    next m queue hm =>
      cases hact
      refine ⟨h.sound.dequeue hm, hplaces, hmore.trans ?_⟩
      simp only [Core.act, core, hm]
    next hnone =>
      cases hact
      refine ⟨h.sound, hplaces, hmore.trans ?_⟩
      simp only [Core.act, core, hnone]
  | work =>
    obtain ⟨turn, hwork, rfl⟩ := Fault.exists_of_bind_pure hact
    rw [visitAt, List.append_nil]
    exact drain_induct
      (P := fun r q => ({ s with receiver := r, queue := q } : Session).Moved policy map fresh
        before c visits) (fun _ _ _ _ h hstep => h.step hstep) h hwork

end Moved

/-- **A session has come to the core that its deeds lead to**, whatever its calls. -/
theorem moved (hs : s.Sound policy map fresh before) (hread : s.receiver.symbols.read = 0)
    {events : List Event} (hrun : s.run events = .ok t) :
    t.Moved policy map fresh before s.core (s.visits events) := by
  induction events using List.reverseRecOn generalizing t with
  | nil =>
    cases hrun
    refine ⟨hs, fun i hi => absurd hi List.not_mem_nil, ?_⟩
    rw [consumed, hread]
    rfl
  | append_singleton events e ih =>
    obtain ⟨u, hu, hact⟩ := Fault.foldlM_concat_eq_ok_iff.1 hrun
    rw [visits_concat hu e hact]
    exact (ih hu).act hact

end Session

/-! ### The outlet -/

theorem length_shown {r : FrameReceiver} {report : Option (SymbolReport Float32 Float)}
    {xs : List Sample} (h : r.shown report = .ok xs) : xs.length = r.derotated.width := by
  cases report with
  | none =>
    cases h
    exact List.length_replicate
  | some report =>
    rw [shown, SymbolReport.spread] at h
    split at h
    next hle =>
      cases h
      rw [List.length_append, List.length_replicate]
      omega
    · cases h

/-- **What is put to the outlet** is what is to be seen of the symbol. -/
theorem shown_eq {policy : MissingTagPolicy} {map : CarrierMap} {fresh : Demapper Float32}
    {r : FrameReceiver} {burst : Option (List (List Sample))}
    (h : r.decoder.Follows policy map fresh burst) (hwidth : r.derotated.width = map.occupied)
    {flagged : Bool} {tags : List (Tag Float)} {symbol xs : List Sample}
    {result : BurstDecoder.Result} (hdecoded : r.decoder.step flagged tags symbol = .ok result)
    (hx : r.shown result.report = .ok xs) : xs = r.decoder.shows symbol := by
  rw [BurstDecoder.step] at hdecoded
  rw [BurstDecoder.shows, BurstDecoder.searching, h.map_eq]
  cases hparser : r.decoder.parser with
  | none =>
    rw [hparser] at hdecoded
    cases hdecoded
    cases hx
    rw [hwidth]
    rfl
  | some parser =>
    simp only [hparser, Fault.bind_eq_ok_iff, Fault.pure_eq_ok_iff] at hdecoded
    obtain ⟨⟨demapper, report⟩, hdemap, rfl⟩ := hdecoded
    rw [h.map_eq] at hdemap
    obtain ⟨-, -, -, hlength⟩ := Demapper.demap_frame hdemap
    rw [shown, SymbolReport.spread, hwidth, hlength] at hx
    split at hx
    · cases hx
      rw [Demapper.derotated_eq hdemap]
      rfl
    · cases hx

namespace Session

/-- **The invariant of the outlet**: it has one item for each symbol consumed, and no tags. -/
structure Overheard (map : CarrierMap) (d : BurstDecoder) (s : Session) : Prop where
  /-- Somebody listens. -/
  connected : s.receiver.derotated.connected = true
  /-- What was put out are the items of the symbols consumed, all of full width. -/
  items : ∃ results, d.trace (s.consumed map.occupied) = .ok results ∧
    s.receiver.decoder = d.reached results ∧
    s.receiver.derotated.total s.derotated =
      ⟨(d.tapped (s.consumed map.occupied) results).flatten, []⟩ ∧
    ∀ x ∈ d.tapped (s.consumed map.occupied) results, x.length = map.occupied

variable {policy : MissingTagPolicy} {map : CarrierMap} {fresh : Demapper Float32}
  {before : MessageQueue} {d : BurstDecoder} {s t : Session}

/-- **One more symbol is one more item.** -/
theorem Overheard.step (h : s.Overheard map d) (hsound : s.Sound policy map fresh before)
    {next : FrameReceiver} {queue : MessageQueue} (hstep : Step s.receiver s.queue next queue) :
    ({ s with receiver := next, queue } : Session).Overheard map d := by
  have hconnected := hstep.connected_eq
  obtain ⟨results, htrace, hdecoder, htotal, hwidths⟩ := h.items
  cases hstep with
  | @mk _ _ result _ _ _ _ _ flagged item decoded shown consumed unflagged handed =>
    obtain ⟨-, hread⟩ := Inlet.consume_frame consumed
    have hreception := hsound.reception_eq flagged item
    obtain ⟨hdeaf, -⟩ | ⟨-, xs, hxs, hput⟩ := showing_cases shown
    · rw [h.connected] at hdeaf
      cases hdeaf
    · have hseen := shown_eq hsound.follows hsound.derotated_width decoded hxs
      have hlength := BurstDecoder.length_trace htrace
      refine ⟨hconnected.trans h.connected, results ++ [result], ?_, ?_, ?_, ?_⟩
      · rw [consumed_step hread, hreception]
        refine BurstDecoder.trace_concat_eq_ok_iff.2 ⟨results, result, htrace, ?_, rfl⟩
        rw [← hdecoder]
        exact decoded
      · rw [BurstDecoder.reached_concat]
      · obtain ⟨-, -, -, hmore⟩ := hsound.derotated.put hput
        rw [consumed_step hread, hreception, BurstDecoder.tapped_concat hlength, ← hdecoder,
          List.flatten_append, List.flatten_singleton, ← hseen]
        rw [htotal] at hmore
        exact hmore
      · rw [consumed_step hread, hreception, BurstDecoder.tapped_concat hlength, ← hdecoder,
          ← hseen]
        intro x hx
        rcases List.mem_append.1 hx with hx | hx
        · exact hwidths x hx
        · rw [List.mem_singleton.1 hx, length_shown hxs, hsound.derotated_width]

/-- The listener sees one item for each symbol, however the session goes on. -/
theorem overheard (hs : s.Sound policy map fresh before) (h : s.Overheard map d)
    {events : List Event} (hrun : s.run events = .ok t) : t.Overheard map d := by
  suffices hboth : t.Sound policy map fresh before ∧ t.Overheard map d from hboth.2
  refine run_induct (P := fun t => t.Sound policy map fresh before ∧ t.Overheard map d)
    ?_ ?_ ?_ ?_ ?_ ⟨hs, h⟩ hrun
  · rintro s p r e ⟨hsound, hconnected, hitems⟩ hmeet
    obtain ⟨-, -, hread, -⟩ := hsound.symbols.meet hmeet
    refine ⟨hsound.feedSymbols hmeet, hconnected, ?_⟩
    simp only [consumed, hread, hsound.receptions_symbols hmeet]
    exact hitems
  · rintro s p r e ⟨hsound, hconnected, hitems⟩ hmeet
    refine ⟨hsound.feedFlags hmeet, hconnected, ?_⟩
    simp only [consumed, hsound.receptions_flags hmeet]
    exact hitems
  · rintro s p r e ⟨hsound, hconnected, hitems⟩ hmeet
    obtain ⟨-, -, htotal⟩ := hsound.derotated.meet hmeet
    refine ⟨hsound.readDerotated hmeet, Outlet.connected_meet hmeet hconnected, ?_⟩
    simp only [htotal]
    exact hitems
  · rintro s m queue ⟨hsound, hconnected, hitems⟩ hm
    exact ⟨hsound.dequeue hm, hconnected, hitems⟩
  · rintro s next queue ⟨hsound, hoverheard⟩ hstep
    exact ⟨hsound.step hstep, hoverheard.step hsound hstep⟩

/-- A listener who asks for room before the first symbol. -/
theorem overheard_start {o : ReceiverOptions} {r : FrameReceiver} (hbuild : o.build = .ok r)
    {queue : MessageQueue} {n : Nat} (hact : (start r queue).act (.derotated (.reserve n)) = .ok s) :
    s.Sound o.policy r.decoder.map
        (Demapper.start o.constellation r.decoder.map.size o.gains) queue ∧
      s.Overheard r.decoder.map r.decoder := by
  obtain ⟨-, hstart⟩ := sound_start hbuild queue
  have hunused := unused_of_build hbuild
  obtain ⟨⟨p, record⟩, hmeet, rfl⟩ := Fault.exists_of_bind_pure hact
  obtain ⟨-, -, htotal⟩ := hstart.derotated.meet hmeet
  refine ⟨hstart.readDerotated hmeet, Outlet.connected_reserve hmeet, [], ?_⟩
  have hnone : ({ start r queue with receiver := { r with derotated := p }, derotated := record } :
      Session).consumed r.decoder.map.occupied = [] := by
    refine List.eq_nil_of_length_eq_zero ?_
    rw [length_consumed]
    exact hunused.read_eq
  refine ⟨congrArg r.decoder.trace hnone, rfl, ?_, ?_⟩
  · rw [BurstDecoder.tapped_nil]
    exact htotal.trans hunused.total_eq
  · rw [BurstDecoder.tapped_nil]
    exact fun x hx => absurd hx List.not_mem_nil

/-- Without a listener nothing is put to the outlet. -/
theorem deaf_run (hs : s.receiver.derotated.connected = false) {events : List Event}
    (hnobody : ∀ e, Event.derotated e ∉ events) (hrun : s.run events = .ok t) :
    t.receiver.derotated = s.receiver.derotated ∧ t.derotated = s.derotated := by
  refine Fault.foldlM_induct_of_mem (P := fun t =>
    t.receiver.derotated = s.receiver.derotated ∧ t.derotated = s.derotated) ?_ ⟨rfl, rfl⟩ hrun
  rintro u e v hmem ⟨houtlet, hrecord⟩ hact
  cases e with
  | symbols e =>
    obtain ⟨_, -, rfl⟩ := Fault.exists_of_bind_pure hact
    exact ⟨houtlet, hrecord⟩
  | flags e =>
    obtain ⟨_, -, rfl⟩ := Fault.exists_of_bind_pure hact
    exact ⟨houtlet, hrecord⟩
  | derotated e => exact absurd hmem (hnobody e)
  | dequeue =>
    simp only [Session.act] at hact
    split at hact
    · cases hact
      exact ⟨houtlet, hrecord⟩
    · cases hact
      exact ⟨houtlet, hrecord⟩
  | work =>
    obtain ⟨turn, hwork, rfl⟩ := Fault.exists_of_bind_pure hact
    refine ⟨?_, hrecord⟩
    refine drain_induct (P := fun r _ => r.derotated = s.receiver.derotated)
      (fun r q next q' hr hstep => ?_) houtlet hwork
    cases hstep with
    | mk _ _ _ shown =>
      obtain ⟨-, rfl⟩ | ⟨hconnected, -⟩ := showing_cases shown
      · exact hr
      · rw [hr, hs] at hconnected
        cases hconnected

/-- Sessions through the same symbols, whose queues are visited at the same places, have come to the
same core. -/
theorem Moved.core_unique {c : Core} {visits : List Nat}
    (hs : s.Moved policy map fresh before c visits) (ht : t.Moved policy map fresh before c visits)
    (h : s.consumed map.occupied = t.consumed map.occupied) : s.core = t.core := by
  have hcore := hs.core_eq
  rw [h, ht.core_eq] at hcore
  exact (Except.ok.inj hcore).symm

end Session

/-- Sessions through the same symbols have come to the same decoder, and their queues were handed
the same messages. -/
theorem delivered_of_consumed {o : ReceiverOptions} {r : FrameReceiver} (hbuild : o.build = .ok r)
    {queue : MessageQueue} {events events' : List Event} {s t : Session}
    (hs : (Session.start r queue).run events = .ok s)
    (ht : (Session.start r queue).run events' = .ok t)
    (h : s.consumed r.decoder.map.occupied = t.consumed r.decoder.map.occupied) :
    s.receiver.decoder = t.receiver.decoder ∧
      ∃ messages, s.Delivered queue [] 0 messages ∧ t.Delivered queue [] 0 messages := by
  obtain ⟨results, htrace, hdecoder, hdelivered⟩ := exists_trace hbuild hs
  obtain ⟨results', htrace', hdecoder', hdelivered'⟩ := exists_trace hbuild ht
  rw [h, htrace'] at htrace
  cases htrace
  exact ⟨hdecoder.trans hdecoder'.symm, _, hdelivered, hdelivered'⟩

/-- **A listener changes nothing.** Two sessions of a receiver are fed the same. In one of them
somebody listens from the start, grants room and takes items at any times, and in the other nobody
does.

The listener has seen one item for each symbol consumed, and no tags. An item is as wide as a symbol,
zero for a symbol that was not demodulated, and otherwise the results on the data carriers with zeros
behind them. Without a listener nothing is put out.

If no symbol is left in either session, both have consumed the same number. Whenever they have, the
decoders are the same, down to the demapper, and the queues were handed the same messages in the same
order. If the queues were also visited at the same places, they have the same messages in them, the
same messages were taken, and as many were dropped. A call of work always returns, and stops only
where no symbol is left, or with a listener where there is no room. -/
theorem tap_is_passive {o : ReceiverOptions} {r : FrameReceiver} (hbuild : o.build = .ok r)
    {queue : MessageQueue} {n : Nat} {listened plain : List Event} {s t : Session}
    (hs : (Session.start r queue).run (.derotated (.reserve n) :: listened) = .ok s)
    (ht : (Session.start r queue).run plain = .ok t)
    (hnobody : ∀ e, Event.derotated e ∉ plain)
    (hsymbols : s.symbols = t.symbols) (hflags : s.flags = t.flags) :
    let map := r.decoder.map
    let consumed := s.consumed map.occupied
    (∃ results, r.decoder.trace consumed = .ok results ∧
      s.receiver.derotated.total s.derotated = ⟨(r.decoder.tapped consumed results).flatten, []⟩ ∧
      (r.decoder.tapped consumed results).length = s.receiver.symbols.read ∧
      ∀ x ∈ r.decoder.tapped consumed results, x.length = map.occupied) ∧
    t.receiver.derotated.total t.derotated = {} ∧
    (s.receiver.available = 0 → t.receiver.available = 0 →
      s.receiver.symbols.read = t.receiver.symbols.read) ∧
    (s.receiver.symbols.read = t.receiver.symbols.read →
      s.receiver.decoder = t.receiver.decoder ∧
      (∃ messages, s.Delivered queue [] 0 messages ∧ t.Delivered queue [] 0 messages) ∧
      ((Session.start r queue).visits (.derotated (.reserve n) :: listened) =
          (Session.start r queue).visits plain →
        s.queue = t.queue ∧ s.taken = t.taken ∧
          s.receiver.dropped = t.receiver.dropped)) ∧
    ((∀ m, o.map = some m → m.size ≤ m.occupied) →
      (∃ turn, s.receiver.work s.queue = .ok turn ∧
        (turn.block.available = 0 ∨ turn.block.derotated.room = 0)) ∧
      ∃ turn, t.receiver.work t.queue = .ok turn ∧ turn.block.available = 0) := by
  intro map consumed
  obtain ⟨hmap, hstart⟩ := Session.sound_start hbuild queue
  have hunused := unused_of_build hbuild
  have hsound := Session.sound hstart hs
  have hsound' := Session.sound hstart ht
  obtain ⟨u, hu, hrest⟩ := Fault.bind_eq_ok_iff.1 hs
  obtain ⟨hsoundu, hoverheard⟩ := Session.overheard_start hbuild hu
  have hlistening := Session.overheard hsoundu hoverheard hrest
  obtain ⟨houtlet, hrecord⟩ := Session.deaf_run hunused.deaf hnobody ht
  have hsame : s.receiver.symbols.read = t.receiver.symbols.read →
      s.consumed map.occupied = t.consumed map.occupied := by
    intro hread
    rw [Session.consumed, Session.consumed, hsymbols, hflags, hread]
  refine ⟨?_, ?_, fun hnone hnone' => ?_, fun hread => ⟨?_, ?_, fun hvisits => ?_⟩, fun hgiven => ?_⟩
  · obtain ⟨results, htrace, -, htotal, hwidths⟩ := hlistening.items
    refine ⟨results, htrace, htotal, ?_, hwidths⟩
    rw [BurstDecoder.length_tapped (BurstDecoder.length_trace htrace), Session.length_consumed]
  · rw [houtlet, hrecord]
    exact hunused.total_eq
  · rw [hsound.read_eq hnone, hsound'.read_eq hnone', hsymbols, hflags]
  · exact (delivered_of_consumed hbuild hs ht (hsame hread)).1
  · exact (delivered_of_consumed hbuild hs ht (hsame hread)).2
  · have hmoved := Session.moved hstart hunused.read_eq hs
    rw [hvisits] at hmoved
    have hcore := hmoved.core_unique (Session.moved hstart hunused.read_eq ht) (hsame hread)
    exact ⟨congrArg Core.queue hcore, congrArg Core.taken hcore, congrArg Core.dropped hcore⟩
  · have hsize := Session.size_le_of_carrierMap hmap hgiven
    obtain ⟨turn, hturn, hstop⟩ := hsound.work_returns hsize
    obtain ⟨turn', hturn', hstop'⟩ := hsound'.work_returns hsize
    refine ⟨⟨turn, hturn, hstop.imp_right And.right⟩, turn', hturn', hstop'.resolve_right ?_⟩
    rintro ⟨hconnected, -⟩
    rw [work_connected hturn', houtlet] at hconnected
    exact Bool.false_ne_true (hunused.deaf.symm.trans hconnected)

/-! ### Two symbols with room for one

The listener has room for one symbol, so the second is met in another call of work. Without a
listener the two arrive one after the other. The queue is visited behind each. -/

/-- A listener takes the first symbol before the second can be met. -/
def listening : List Event :=
  [.symbols (.push [⟨1, 0⟩, ⟨0, 1⟩, ⟨1, 1⟩, ⟨0, 0⟩] []), .flags (.push [1, 0] []), .work,
    .derotated .take, .dequeue, .work, .dequeue]

/-- The same symbols in two pieces. -/
def twoPieces : List Event :=
  [.symbols (.push [⟨1, 0⟩, ⟨0, 1⟩] []), .flags (.push [1] []), .work, .dequeue,
    .symbols (.push [⟨1, 1⟩, ⟨0, 0⟩] []), .flags (.push [0] []), .work, .dequeue]

theorem tap_is_passive_two_symbols :
    ∃ (r : FrameReceiver) (s t : Session), secondCarrier.build = .ok r ∧
      (Session.start r {}).run (.derotated (.reserve 1) :: listening) = .ok s ∧
      (Session.start r {}).run twoPieces = .ok t ∧
      s.receiver.symbols.read = 2 ∧ s.receiver.decoder.searching = false ∧
      s.receiver.decoder = t.receiver.decoder ∧ s.queue = t.queue ∧ s.taken = t.taken ∧
      s.receiver.dropped = t.receiver.dropped := by
  obtain ⟨r, hbuild, h⟩ := Fault.exists_ok_of_any (x := secondCarrier.build)
    (p := fun r =>
      (Session.start r {}).visits (.derotated (.reserve 1) :: listening) ==
        (Session.start r {}).visits twoPieces &&
      ((Session.start r {}).run (.derotated (.reserve 1) :: listening)).toOption.any fun s =>
        s.receiver.symbols.read == 2 && !s.receiver.decoder.searching &&
        ((Session.start r {}).run twoPieces).toOption.any fun t =>
          s.symbols.data == t.symbols.data && s.symbols.tags == t.symbols.tags &&
          s.flags.data == t.flags.data && s.flags.tags == t.flags.tags &&
          t.receiver.symbols.read == 2)
    (by decide +kernel)
  rw [Bool.and_eq_true, beq_iff_eq] at h
  obtain ⟨hvisits, h⟩ := h
  obtain ⟨s, hs, h⟩ := Fault.exists_ok_of_any h
  simp only [Bool.and_eq_true, beq_iff_eq, Bool.not_eq_true'] at h
  obtain ⟨⟨hread, hsearching⟩, h⟩ := h
  obtain ⟨t, ht, h⟩ := Fault.exists_ok_of_any h
  simp only [Bool.and_eq_true, beq_iff_eq] at h
  obtain ⟨⟨⟨⟨hdata, htags⟩, hflags⟩, hmarks⟩, hread'⟩ := h
  have hnobody : ∀ e, Event.derotated e ∉ twoPieces := by
    intro e he
    simp [twoPieces] at he
  have hsymbols : s.symbols = t.symbols := Record.ext hdata htags
  obtain ⟨-, -, -, hsame, -⟩ := tap_is_passive hbuild hs ht hnobody hsymbols
    (Record.ext hflags hmarks)
  obtain ⟨hdecoder, -, hqueue⟩ := hsame (hread.trans hread'.symm)
  exact ⟨r, s, t, hbuild, hs, ht, hread, hsearching, hdecoder, hqueue hvisits⟩

end FrameReceiver

end OfdmBurst
