import OfdmBurst.Proofs.Frame.Parsing
import OfdmBurst.Proofs.Fault

/-!
# Bytes under guards

A parser takes one byte after the other. A machine goes through the bytes of a symbol with an index,
byte by byte up to the end of the header, and then takes as many bytes of the payload at once as
there are. `FrameParser.absorb` is that machine, with every index, slice and subtraction guarded, and
with a bound on the number of its rounds.

What keeps the guards from failing is said by `FrameParser.Bounded`: a header that is still open has
fewer than four bytes and they are all there is in its word, and a payload that is still open is
shorter than announced.

## Main definitions

* `FrameParser.Bounded` — the bounds between bytes
* `FrameParser.round`, `FrameParser.absorb` — the loop
* `FrameParser.RoundAgrees` — a round that does right

## Main results

* `FrameParser.Bounded.feed` — the bounds stay
* `FrameParser.round_spec` — no guard fails in a round
* `FrameParser.absorb_eq_feed` — the machine comes to the verdict of the parser
-/

namespace OfdmBurst

namespace FrameHeader

/-- No header announces more than the longest payload. -/
theorem length_ofWord_le (word : UInt32) : (ofWord word).length.toNat ≤ longest := by
  rw [ofWord, UInt32.toNat_toUInt16, UInt32.toNat_and]
  show (_ &&& 2 ^ 12 - 1) % 2 ^ 16 ≤ 2 ^ 12 - 1
  rw [Nat.and_two_pow_sub_one_eq_mod]
  omega

end FrameHeader

namespace FrameParser

/-- **The bounds of a parser between bytes.** -/
def Bounded : FrameParser → Prop
  | heading word count => count < FrameHeader.size ∧ word.toNat < 2 ^ (8 * count)
  | body header got => got.size < header.length.toNat ∧ header.length.toNat ≤ FrameHeader.longest

theorem bounded_start : start.Bounded := ⟨by decide, by decide⟩

/-- One more byte of a header. -/
theorem bounded_shiftIn {word : UInt32} {count : Nat} (h : (heading word count).Bounded)
    (b : UInt8) : word.toNat < 2 ^ 24 ∧ (FrameHeader.shiftIn word b).toNat < 2 ^ (8 * (count + 1)) := by
  obtain ⟨hcount, hword⟩ := h
  have hsmall : word.toNat < 2 ^ 24 := by
    refine Nat.lt_of_lt_of_le hword (Nat.pow_le_pow_right (by omega) ?_)
    have : count ≤ 3 := Nat.le_of_lt_succ hcount
    omega
  refine ⟨hsmall, ?_⟩
  have hb := b.toNat_lt
  have hpow : 2 ^ (8 * (count + 1)) = 2 ^ (8 * count) * 256 := by rw [Nat.mul_succ, Nat.pow_add]
  rw [FrameHeader.toNat_shiftIn b hsmall, hpow]
  omega

/-- A complete header leaves a payload that is not. -/
theorem bounded_ofWord {word : UInt32} {t : FrameParser} (h : ofWord word = .more t) : t.Bounded := by
  rw [ofWord] at h
  split at h
  · dsimp only at h
    split at h
    · cases h
    next hzero =>
      cases h
      refine ⟨Nat.pos_of_ne_zero fun hnone => hzero (UInt16.toNat.inj hnone), ?_⟩
      exact FrameHeader.length_ofWord_le word
  · cases h

namespace Bounded

variable {s t : FrameParser}

theorem byte (h : s.Bounded) {b : UInt8} (hmore : s.byte b = .more t) : t.Bounded := by
  cases s with
  | heading word count =>
    simp only [FrameParser.byte] at hmore
    split at hmore
    next hlt =>
      cases hmore
      exact ⟨hlt, (bounded_shiftIn h b).2⟩
    · exact bounded_ofWord hmore
  | body header got =>
    obtain ⟨hsize, hlength⟩ := h
    simp only [FrameParser.byte] at hmore
    split at hmore
    · cases hmore
    next hne =>
      cases hmore
      exact ⟨Nat.lt_of_le_of_ne hsize hne, hlength⟩

/-- **The bounds stay**, as long as there is no verdict. -/
theorem feed (h : s.Bounded) {bytes : List UInt8} (hmore : s.feed bytes = .more t) : t.Bounded := by
  induction bytes generalizing s with
  | nil =>
    cases hmore
    exact h
  | cons b rest ih =>
    rw [FrameParser.feed] at hmore
    cases hbyte : s.byte b with
    | more next =>
      rw [hbyte] at hmore
      exact ih (h.byte hbyte) hmore
    | refused =>
      rw [hbyte] at hmore
      cases hmore
    | frame header payload =>
      rw [hbyte] at hmore
      cases hmore

end Bounded

/-! ### The loop -/

/-- One more byte into the word of a header, without losing one that is in it. -/
def shiftInGuarded (word : UInt32) (b : UInt8) : Except Fault UInt32 :=
  if word.toNat < 2 ^ 24 then .ok (FrameHeader.shiftIn word b) else .error .overflow

/-- What a round of the loop leads to: a verdict, or the place and the parser of the next round. -/
inductive Round where
  | over (verdict : Verdict)
  | next (place : Nat) (s : FrameParser)

/-- The round at the byte at `place`. -/
def round (bytes : List UInt8) (place : Nat) : FrameParser → Except Fault Round
  | heading word count => do
    let b ← Fault.found bytes[place]?
    let word ← shiftInGuarded word b
    if count + 1 < FrameHeader.size then return .next (place + 1) (heading word (count + 1))
    else
      match ofWord word with
      | .more s => return .next (place + 1) s
      | verdict => return .over verdict
  | body header got => do
    let missing ← Guard.sub header.length.toNat got.size
    let left ← Guard.sub bytes.length place
    let piece ← Guard.slice bytes place (place + min missing left)
    let got := got.append piece
    if got.size = header.length.toNat then return .over (.frame header got.toList)
    else return .next (place + min missing left) (body header got)

/-- Go through the bytes from `place` on. -/
def absorb (bytes : List UInt8) : (rounds place : Nat) → FrameParser → Except Fault Verdict
  | 0, place, s => if bytes.length ≤ place then .ok (.more s) else .error .broken
  | rounds + 1, place, s =>
    if bytes.length ≤ place then .ok (.more s)
    else do
      match ← round bytes place s with
      | .over verdict => return verdict
      | .next place s => absorb bytes rounds place s

/-- A round that does right: it comes to the verdict on the bytes from `place` on, or it goes on
further along, within the bounds, and the verdict is still to come. -/
def RoundAgrees (bytes : List UInt8) (place : Nat) (s : FrameParser) : Prop :=
  (∃ verdict, round bytes place s = .ok (.over verdict) ∧ s.feed (bytes.drop place) = verdict) ∨
    ∃ place' t, round bytes place s = .ok (.next place' t) ∧ place < place' ∧ t.Bounded ∧
      s.feed (bytes.drop place) = t.feed (bytes.drop place')

theorem round_heading {bytes : List UInt8} {place : Nat} {word : UInt32} {count : Nat}
    (h : (heading word count).Bounded) (hplace : place < bytes.length) :
    RoundAgrees bytes place (heading word count) := by
  have hword : shiftInGuarded word bytes[place] =
      .ok (FrameHeader.shiftIn word bytes[place]) := if_pos (bounded_shiftIn h bytes[place]).1
  rw [RoundAgrees, List.drop_eq_getElem_cons hplace, feed, round]
  simp only [Fault.found_getElem? hplace, bind, Except.bind, hword]
  by_cases hopen : count + 1 < FrameHeader.size
  · have hbyte : (heading word count).byte bytes[place] =
        .more (heading (FrameHeader.shiftIn word bytes[place]) (count + 1)) := if_pos hopen
    rw [if_pos hopen, hbyte]
    exact .inr ⟨_, _, rfl, Nat.lt_succ_self _, h.byte hbyte, rfl⟩
  · have hbyte : (heading word count).byte bytes[place] =
        ofWord (FrameHeader.shiftIn word bytes[place]) := if_neg hopen
    rw [if_neg hopen, hbyte]
    cases hverdict : ofWord (FrameHeader.shiftIn word bytes[place]) with
    | more t => exact .inr ⟨_, t, rfl, Nat.lt_succ_self _, bounded_ofWord hverdict, rfl⟩
    | refused => exact .inl ⟨_, rfl, rfl⟩
    | frame header payload => exact .inl ⟨_, rfl, rfl⟩

theorem round_body {bytes : List UInt8} {place : Nat} {header : FrameHeader} {got : AppendList UInt8}
    (h : (body header got).Bounded) (hplace : place < bytes.length) :
    RoundAgrees bytes place (body header got) := by
  obtain ⟨hsize, hlength⟩ := h
  have hfit : place + min (header.length.toNat - got.size) (bytes.length - place) ≤
      bytes.length := by omega
  have htaken : (got.append ((bytes.drop place).take
      (min (header.length.toNat - got.size) (bytes.length - place)))).size =
      got.size + min (header.length.toNat - got.size) (bytes.length - place) := by
    simp only [AppendList.append, List.length_take, List.length_drop]
    omega
  rw [RoundAgrees, feed_body got hsize, List.length_drop, round]
  simp only [Guard.sub_ok (Nat.le_of_lt hsize), Guard.sub_ok (Nat.le_of_lt hplace), bind,
    Except.bind, Guard.slice_ok (Nat.le_add_right place _) hfit, Nat.add_sub_cancel_left, htaken]
  by_cases hwhole : header.length.toNat ≤ got.size + (bytes.length - place)
  · -- the payload ends in these bytes
    have hmin : min (header.length.toNat - got.size) (bytes.length - place) =
        header.length.toNat - got.size := by omega
    rw [hmin, if_pos (by omega), if_pos hwhole, AppendList.toList_append]
    exact .inl ⟨_, rfl, rfl⟩
  · have hmin : min (header.length.toNat - got.size) (bytes.length - place) =
        bytes.length - place := by omega
    have hall : (bytes.drop place).take (bytes.length - place) = bytes.drop place :=
      List.take_of_length_le (Nat.le_of_eq List.length_drop)
    have hdone : bytes.drop (place + (bytes.length - place)) = [] :=
      List.drop_eq_nil_of_le (by omega)
    rw [hmin, hall] at htaken
    have hgrown : (body header (got.append (bytes.drop place))).Bounded :=
      ⟨by rw [htaken]; omega, hlength⟩
    rw [hmin, hall, if_neg (by omega), if_neg hwhole]
    exact .inr ⟨_, _, rfl, by omega, hgrown, by rw [hdone]; rfl⟩

/-- **No guard fails in a round**, and the round does right. -/
theorem round_spec {bytes : List UInt8} {place : Nat} {s : FrameParser} (h : s.Bounded)
    (hplace : place < bytes.length) : RoundAgrees bytes place s := by
  cases s with
  | heading word count => exact round_heading h hplace
  | body header got => exact round_body h hplace

/-- **The machine comes to the verdict of the parser**, in no more rounds than there are bytes. -/
theorem absorb_eq_feed {bytes : List UInt8} {rounds place : Nat} {s : FrameParser} (h : s.Bounded)
    (hrounds : bytes.length ≤ place + rounds) :
    absorb bytes rounds place s = .ok (s.feed (bytes.drop place)) := by
  induction rounds generalizing place s with
  | zero =>
    have hend : bytes.length ≤ place := hrounds
    rw [absorb, if_pos hend, List.drop_eq_nil_of_le hend, feed]
  | succ rounds ih =>
    rw [absorb]
    by_cases hend : bytes.length ≤ place
    · rw [if_pos hend, List.drop_eq_nil_of_le hend, feed]
    · rw [if_neg hend]
      rcases round_spec h (Nat.lt_of_not_le hend) with
        ⟨verdict, hround, hfeed⟩ | ⟨place', t, hround, hmoved, hbounded, hfeed⟩
      · rw [hround, hfeed]
        rfl
      · rw [hround, hfeed, ← ih hbounded (by omega)]
        rfl

end FrameParser

end OfdmBurst
