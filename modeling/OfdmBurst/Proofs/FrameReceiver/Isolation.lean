import OfdmBurst.Proofs.Frame.Isolation
import OfdmBurst.Proofs.FrameReceiver.Refinement
import OfdmBurst.Proofs.Stream.Comparison

/-!
# What a receiver remembers

Two receivers of the same make may have been through anything: other symbols, bursts that were
completed or refused, frames that a full queue lost. If both search, and both are then fed the same,
they do the same. At least they do from the first flagged symbol on that brings a time and a carrier
offset, and before it they hand out nothing.

The two need not be at the same place of their streams, nor be fed in the same pieces, nor be called
at the same times, and one may be ahead of the other. `Session.heard` is what a receiver has
consumed since an earlier moment, with no trace of places, and `Session.Since` says what came of it,
symbol by symbol.

## Main definitions

* `Session.heard` — the receptions since an earlier moment
* `Session.Since` — what came of them

## Main results

* `Session.exists_since` — every session that goes on has such a trace
* `continuations_agree` — receivers with different pasts do not differ
-/

namespace OfdmBurst

namespace FrameReceiver

theorem length_receptions (width : Nat) (symbols : Record Sample Float)
    (flags : Record UInt8 Float) (n : Nat) : (receptions width symbols flags n).length = n := by
  rw [receptions, List.length_map, List.length_range]

/-- The tags of a reception are on its item. -/
theorem index_of_mem_reception {width : Nat} {symbols : Record Sample Float}
    {flags : Record UInt8 Float} {i : Nat} :
    ∀ t ∈ (reception width symbols flags i).tags, t.index = i :=
  fun _ ht => beq_iff_eq.1 (List.mem_filter.1 ht).2

namespace Session

/-- What a receiver has consumed since it was as in `s`, wherever in its streams. If it had nothing
left to read then, this is the beginning of what it was fed since. -/
def heard (width : Nat) (s t : Session) : List Reception :=
  ((receptions width t.symbols t.flags t.receiver.symbols.read).drop
    s.receiver.symbols.read).map Reception.unplaced

/-- A session has gone on from `s` to `t`, and these are the results of the symbols consumed in
between. The decoder is in the state behind the last one, and the queue was handed the messages. -/
structure Since (width : Nat) (s t : Session) (results : List BurstDecoder.Result) : Prop where
  /-- Nothing that was consumed comes back. -/
  read_le : s.receiver.symbols.read ≤ t.receiver.symbols.read
  /-- The results are those of the symbols heard in between. -/
  trace : s.receiver.decoder.trace (s.heard width t) = .ok results
  /-- The decoder is where they lead. -/
  decoder : t.receiver.decoder = s.receiver.decoder.reached results
  /-- The queue was handed their messages. -/
  delivered : t.Delivered s.queue s.taken s.receiver.dropped (results.filterMap (·.message))

variable {policy : MissingTagPolicy} {map : CarrierMap} {fresh : Demapper Float32}
  {before : MessageQueue} {s t : Session} {results : List BurstDecoder.Result}

theorem since_refl (width : Nat) (s : Session) : s.Since width s [] := by
  refine ⟨Nat.le_refl _, ?_, rfl, Delivered.refl s⟩
  rw [heard, List.drop_eq_nil_of_le (Nat.le_of_eq (length_receptions ..))]
  rfl

/-- **One more symbol is one more result.** -/
theorem Since.step (h : s.Since map.occupied t results) (hsound : t.Sound policy map fresh before)
    {next : FrameReceiver} {queue : MessageQueue} (hstep : Step t.receiver t.queue next queue) :
    ∃ result, s.Since map.occupied { t with receiver := next, queue } (results ++ [result]) := by
  cases hstep with
  | @mk _ _ result _ _ _ _ _ flagged item decoded shown consumed unflagged handed =>
    obtain ⟨-, hread⟩ := Inlet.consume_frame consumed
    have hreception := hsound.reception_eq flagged item
    refine ⟨result, ⟨?_, ?_, ?_, ?_⟩⟩
    · simp only [hread]
      exact Nat.le_succ_of_le h.read_le
    · have hle : s.receiver.symbols.read ≤ (receptions map.occupied t.symbols t.flags
          t.receiver.symbols.read).length := by
        rw [length_receptions]
        exact h.read_le
      simp only [heard, hread]
      rw [receptions_succ, List.drop_append_of_le_length hle, List.map_append, List.map_singleton,
        BurstDecoder.trace_concat_eq_ok_iff]
      refine ⟨results, result, h.trace, ?_, rfl⟩
      rw [← h.decoder, BurstDecoder.step_unplaced _ index_of_mem_reception, hreception]
      exact decoded
    · rw [BurstDecoder.reached_concat]
    · rw [BurstDecoder.messages_concat]
      exact h.delivered.handed handed

/-- **Every session that goes on has a trace**, whatever its events. -/
theorem exists_since (hs : s.Sound policy map fresh before) {events : List Event}
    (hrun : s.run events = .ok t) : ∃ results, s.Since map.occupied t results := by
  suffices h : t.Sound policy map fresh before ∧ ∃ results, s.Since map.occupied t results from h.2
  refine run_induct (P := fun t => t.Sound policy map fresh before ∧
    ∃ results, s.Since map.occupied t results) ?_ ?_ ?_ ?_ ?_ ⟨hs, [], since_refl _ s⟩ hrun
  · intro t p r e ⟨hsound, results, h⟩ hmeet
    obtain ⟨-, -, hread, -⟩ := hsound.symbols.meet hmeet
    refine ⟨hsound.feedSymbols hmeet, results, ⟨?_, ?_, h.decoder, h.delivered⟩⟩
    · simp only [hread]
      exact h.read_le
    · simp only [heard, hread, hsound.receptions_symbols hmeet]
      exact h.trace
  · intro t p r e ⟨hsound, results, h⟩ hmeet
    refine ⟨hsound.feedFlags hmeet, results, ⟨h.read_le, ?_, h.decoder, h.delivered⟩⟩
    simp only [heard, hsound.receptions_flags hmeet]
    exact h.trace
  · exact fun t p r e ⟨hsound, results, h⟩ hmeet =>
      ⟨hsound.readDerotated hmeet, results, ⟨h.read_le, h.trace, h.decoder, h.delivered⟩⟩
  · exact fun t m queue ⟨hsound, results, h⟩ hm =>
      ⟨hsound.dequeue hm, results, ⟨h.read_le, h.trace, h.decoder, h.delivered.dequeue hm⟩⟩
  · intro t next queue ⟨hsound, results, h⟩ hstep
    obtain ⟨result, hresult⟩ := h.step hsound hstep
    exact ⟨hsound.step hstep, _, hresult⟩

/-- A receiver that searches is between bursts. -/
theorem Sound.follows_of_searching (h : s.Sound policy map fresh before)
    (hsearching : s.receiver.decoder.searching = true) :
    s.receiver.decoder.Follows policy map fresh none := by
  have hburst := h.searching_eq
  rw [hsearching] at hburst
  have hnone := Option.isNone_iff_eq_none.1 hburst.symm
  have hfollows := h.follows
  rw [hnone] at hfollows
  exact hfollows

end Session

/-- **Receivers with different pasts do not differ.** Two receivers of the same make, both searching
after any histories, go on and consume the beginnings of common receptions, the first flagged of
which brings a time and a carrier offset. Then a symbol that both have consumed completes the same
message for both, or none. From the first flagged symbol on the results and the states behind them
are the same, and the demapper is what a fresh one becomes along the symbols of the last burst. -/
theorem continuations_agree {o₁ o₂ : ReceiverOptions} {r₁ r₂ : FrameReceiver}
    {queue₁ queue₂ : MessageQueue} {events₁ events₂ later₁ later₂ : List Event}
    {s₁ s₂ t₁ t₂ : Session} {common : List Reception}
    (hbuild₁ : o₁.build = .ok r₁) (hbuild₂ : o₂.build = .ok r₂)
    (hconstellation : o₁.constellation = o₂.constellation)
    (hmap : o₁.carrierMap = o₂.carrierMap) (hgains : o₁.gains = o₂.gains)
    (hpolicy : o₁.policy = o₂.policy)
    (hs₁ : (Session.start r₁ queue₁).run events₁ = .ok s₁)
    (hs₂ : (Session.start r₂ queue₂).run events₂ = .ok s₂)
    (hsearching₁ : s₁.receiver.decoder.searching = true)
    (hsearching₂ : s₂.receiver.decoder.searching = true)
    (ht₁ : s₁.run later₁ = .ok t₁) (ht₂ : s₂.run later₂ = .ok t₂)
    (hheard₁ : s₁.heard r₁.decoder.map.occupied t₁ <+: common)
    (hheard₂ : s₂.heard r₁.decoder.map.occupied t₂ <+: common)
    (hinformed : ∀ r, common.find? (·.flagged) = some r → BurstDecoder.Informed r.tags) :
    let map := r₁.decoder.map
    let fresh := Demapper.start o₁.constellation map.size o₁.gains
    ∃ results₁ results₂,
      s₁.Since map.occupied t₁ results₁ ∧ s₂.Since map.occupied t₂ results₂ ∧
      (∀ i a b, results₁[i]? = some a → results₂[i]? = some b →
        a.message = b.message ∧ ((∃ r ∈ common.take (i + 1), r.flagged) → a = b)) ∧
      (∀ i a, results₁[i]? = some a ∨ results₂[i]? = some a →
        (∃ r ∈ common.take (i + 1), r.flagged) →
        ∃ bytes, fresh.along map (lastBurst o₁.policy map fresh (common.take (i + 1))) =
          .ok (a.decoder.demapper, bytes)) ∧
      (results₁.length = results₂.length →
        results₁.filterMap (·.message) = results₂.filterMap (·.message) ∧
          ((∃ r ∈ common.take results₁.length, r.flagged) →
            t₁.receiver.decoder = t₂.receiver.decoder)) := by
  intro map fresh
  obtain ⟨hmap₁, hstart₁⟩ := Session.sound_start hbuild₁ queue₁
  obtain ⟨hmap₂, hstart₂⟩ := Session.sound_start hbuild₂ queue₂
  have hsame : r₂.decoder.map = map := by
    rw [hmap₁, hmap₂] at hmap
    exact (Except.ok.inj hmap).symm
  rw [hsame, ← hconstellation, ← hgains, ← hpolicy] at hstart₂
  have hsound₁ := Session.sound hstart₁ hs₁
  have hsound₂ := Session.sound hstart₂ hs₂
  have hfollows₁ := hsound₁.follows_of_searching hsearching₁
  have hfollows₂ := hsound₂.follows_of_searching hsearching₂
  obtain ⟨results₁, hsince₁⟩ := Session.exists_since hsound₁ ht₁
  obtain ⟨results₂, hsince₂⟩ := Session.exists_since hsound₂ ht₂
  have hagree : ∀ i a b, results₁[i]? = some a → results₂[i]? = some b →
      a.message = b.message ∧ ((∃ r ∈ common.take (i + 1), r.flagged) → a = b) :=
    fun i a b ha hb => hfollows₁.agree_of_isPrefix hfollows₂ hinformed hheard₁ hheard₂ hsince₁.trace
      hsince₂.trace ha hb
  refine ⟨results₁, results₂, hsince₁, hsince₂, hagree, fun i a ha hflagged => ?_,
    fun hlength => ⟨?_, fun hflagged => ?_⟩⟩
  · rcases ha with ha | ha
    · exact hfollows₁.demapper_of_isPrefix hinformed hheard₁ hsince₁.trace ha hflagged
    · exact hfollows₂.demapper_of_isPrefix hinformed hheard₂ hsince₂.trace ha hflagged
  · have hmessages : results₁.map (·.message) = results₂.map (·.message) := by
      refine List.ext_getElem (by rw [List.length_map, List.length_map, hlength]) fun i h₁ h₂ => ?_
      rw [List.getElem_map, List.getElem_map]
      rw [List.length_map] at h₁ h₂
      exact (hagree i _ _ (List.getElem?_eq_getElem h₁) (List.getElem?_eq_getElem h₂)).1
    have hpick : ∀ results : List BurstDecoder.Result,
        results.filterMap (·.message) = (results.map (·.message)).filterMap id := fun results => by
      rw [List.filterMap_map]
      rfl
    rw [hpick, hpick, hmessages]
  · obtain ⟨n, hn⟩ : ∃ n, results₁.length = n + 1 := by
      refine Nat.exists_eq_succ_of_ne_zero fun hnone => ?_
      obtain ⟨x, hx, -⟩ := hflagged
      rw [hnone, List.take_zero] at hx
      exact List.not_mem_nil hx
    have ha := List.getElem?_eq_getElem (l := results₁) (i := n) (by omega)
    have hb := List.getElem?_eq_getElem (l := results₂) (i := n) (by omega)
    have hlast := (hagree n _ _ ha hb).2 (hn ▸ hflagged)
    rw [hsince₁.decoder, hsince₂.decoder, ← List.take_length (l := results₁),
      ← List.take_length (l := results₂), ← hlength, hn, BurstDecoder.reached_take ha,
      BurstDecoder.reached_take hb, hlast]

/-! ### Two receivers, one of which has passed over a burst

The strict policy lets the first burst of the second receiver go, since it brings no offset, but its
time is remembered. What the two consume is compared by computation. -/

deriving instance DecidableEq for Reception

/-- A receiver of one carrier that passes over bursts without their tags. -/
def strict : ReceiverOptions where
  constellation := .bpsk
  occupied := 1
  map := (CarrierMap.ofCarriers [0] 1).toOption
  policy := .drop

/-- A burst that brings a time and no offset. -/
def passedOver : List Event :=
  [.symbols (.push [⟨1, 0⟩] []),
    .flags (.push [1] [{ index := 0, key := Tag.syncTime, value := .time ⟨5, 0⟩ }]), .work]

/-- A burst that brings both, and its first symbol. -/
def informed : List Event :=
  [.symbols (.push [⟨0, 1⟩, ⟨1, 0⟩] []),
    .flags (.push [1, 0] [{ index := 0, key := Tag.syncTime, value := .time ⟨7, 0⟩ },
      { index := 0, key := Tag.syncOffset, value := .double 0 }]), .work]

/-- Whether the first flagged of some receptions brings both. -/
def bringsBoth (receptions : List Reception) : Bool :=
  (receptions.find? (·.flagged)).all fun x =>
    (BurstDecoder.said x.tags Tag.syncTime Tag.time?).isSome &&
      (BurstDecoder.said x.tags Tag.syncOffset Tag.number?).isSome

theorem informed_of_bringsBoth {receptions : List Reception} (h : bringsBoth receptions = true)
    (r : Reception) (hr : receptions.find? (·.flagged) = some r) :
    BurstDecoder.Informed r.tags := by
  rw [bringsBoth, hr, Option.all_some, Bool.and_eq_true] at h
  exact h

/-- The decoders had different times before, and are the same afterwards. -/
theorem continuations_agree_passed_over :
    ∃ (r : FrameReceiver) (s t₁ t₂ : Session), strict.build = .ok r ∧
      (Session.start r {}).run passedOver = .ok s ∧
      (Session.start r {}).run informed = .ok t₁ ∧ s.run informed = .ok t₂ ∧
      r.decoder.time = none ∧ s.receiver.decoder.time = some ⟨5, 0⟩ ∧
      t₁.receiver.decoder = t₂.receiver.decoder := by
  obtain ⟨r, hbuild, h⟩ := Fault.exists_ok_of_any (x := strict.build)
    (p := fun r => r.decoder.time == none && r.decoder.searching &&
      ((Session.start r {}).run passedOver).toOption.any fun s =>
        s.receiver.decoder.time == some ⟨5, 0⟩ && s.receiver.decoder.searching &&
          ((Session.start r {}).run informed).toOption.any fun t₁ =>
            bringsBoth ((Session.start r {}).heard r.decoder.map.occupied t₁) &&
              ((Session.start r {}).heard r.decoder.map.occupied t₁).any (·.flagged) &&
              (s.run informed).toOption.any fun t₂ =>
                s.heard r.decoder.map.occupied t₂ ==
                  (Session.start r {}).heard r.decoder.map.occupied t₁)
    (by decide +kernel)
  simp only [Bool.and_eq_true, beq_iff_eq] at h
  obtain ⟨⟨htime, hsearching⟩, h⟩ := h
  obtain ⟨s, hs, h⟩ := Fault.exists_ok_of_any h
  simp only [Bool.and_eq_true, beq_iff_eq] at h
  obtain ⟨⟨htime', hsearching'⟩, h⟩ := h
  obtain ⟨t₁, ht₁, h⟩ := Fault.exists_ok_of_any h
  simp only [Bool.and_eq_true] at h
  obtain ⟨⟨hboth, hflagged⟩, h⟩ := h
  obtain ⟨t₂, ht₂, hheard⟩ := Fault.exists_ok_of_any h
  rw [beq_iff_eq] at hheard
  have hstart : (Session.start r {}).run [] = .ok (Session.start r {}) := rfl
  obtain ⟨results₁, results₂, hsince₁, hsince₂, -, -, hsame⟩ := continuations_agree hbuild hbuild
    rfl rfl rfl rfl hstart hs hsearching hsearching' ht₁ ht₂ (List.prefix_refl _)
    (hheard ▸ List.prefix_refl _) (informed_of_bringsBoth hboth)
  have hlength₁ := BurstDecoder.length_trace hsince₁.trace
  have hlength₂ := BurstDecoder.length_trace hsince₂.trace
  rw [hheard] at hlength₂
  refine ⟨r, s, t₁, t₂, hbuild, hs, ht₁, ht₂, htime, htime', (hsame ?_).2 ?_⟩
  · rw [hlength₁, hlength₂]
  · rw [hlength₁, List.take_length]
    exact List.any_eq_true.1 hflagged

end FrameReceiver

end OfdmBurst
