import OfdmBurst.Frame.Decoder
import OfdmBurst.Proofs.Carrier.Demapping
import OfdmBurst.Proofs.Frame.Parsing

/-!
# From receptions to frames

A decoder meets one symbol after the other, each with its flag and the tags on the flag. This module
says which frames are in such a sequence of receptions, without a decoder: while nothing is going on,
a flagged symbol that the policy accepts begins a burst. The symbols behind it belong to the burst,
whatever their flags, until the bytes of all of them together decide about the burst.

Only the symbols of the burst are remembered. What they amount to is computed afresh from the whole
of them, by a fresh demapper and by the judgement on all bytes, so no state of a demapper or a
parser occurs in the reference.

## The simulation

`BurstDecoder.Follows` relates a decoder to a burst: the decoder has demapped the symbols of the
burst, and its parser was fed their bytes. A step of the decoder is then a step of the reference.

## Main definitions

* `Reception`, `Frame` — what is received, and what is found
* `Parse`, `Parse.next`, `parse` — the reference
* `BurstDecoder.Follows` — decoder and reference

## Main results

* `BurstDecoder.Follows.step` — a decoder finds the frames of the reference
* `BurstDecoder.Follows.step_returns` — and it never gets stuck
-/

namespace OfdmBurst

/-- A symbol with its flag and the tags on the flag. -/
structure Reception where
  flagged : Bool
  tags : List (Tag Float)
  symbol : List Sample

/-- A frame: its offset, its payload, and the number of symbols that were demapped for it. -/
structure Frame where
  offset : Nat
  payload : List UInt8
  symbols : Nat
deriving DecidableEq, Repr

/-- What a message says about the frame in it. -/
def Message.view (m : Message) : Float × List UInt8 × Nat := (m.arg1, m.payload, m.power.length)

/-- What the message of a frame is to say. -/
def Frame.view (f : Frame) : Float × List UInt8 × Nat := (Float.ofNat f.offset, f.payload, f.symbols)

/-- Whether a burst is decoded: under the strict policy it needs a time and a carrier offset. -/
def MissingTagPolicy.accepts (policy : MissingTagPolicy) (tags : List (Tag Float)) : Bool :=
  match policy with
  | .keep => true
  | .drop =>
    (BurstDecoder.said tags Tag.syncTime Tag.time?).isSome &&
      (BurstDecoder.said tags Tag.syncOffset Tag.number?).isSome

/-- What has been made of the receptions so far: the symbols of the burst that is going on, if one
is, and the frames found. -/
structure Parse where
  burst : Option (List (List Sample)) := none
  frames : List Frame := []

section Reference

variable (policy : MissingTagPolicy) (map : CarrierMap) (fresh : Demapper Float32)

/-- One more reception. -/
def Parse.next (p : Parse) (r : Reception) : Parse :=
  match p.burst with
  | none => if r.flagged && policy.accepts r.tags then { p with burst := some [] } else p
  | some before =>
    let symbols := before ++ [r.symbol]
    match judge (fresh.completed map symbols) with
    | none => { p with burst := some symbols }
    | some .refused => { p with burst := none }
    | some (.frame offset payload) =>
      { burst := none, frames := p.frames ++ [⟨offset, payload, symbols.length⟩] }

/-- **The reference.** The frames in a sequence of receptions, and the burst it ends in. -/
def parse (receptions : List Reception) : Parse := receptions.foldl (Parse.next policy map fresh) {}

theorem parse_concat (receptions : List Reception) (r : Reception) :
    parse policy map fresh (receptions ++ [r]) =
      (parse policy map fresh receptions).next policy map fresh r := by
  rw [parse, List.foldl_append]
  rfl

end Reference

/-! ### The decoder -/

theorem Demapper.reset_start (c : Constellation Float32) (n : Nat) (g : Gains Float32) :
    (start c n g).reset = start c n g := by
  simp [reset, start]

namespace BurstDecoder

/-- What a decoder holds of a burst, or that it searches. -/
def Holds (d : BurstDecoder) (fresh : Demapper Float32) : Option (List (List Sample)) → Prop
  | none => d.parser = none
  | some symbols =>
    ∃ bytes parser, fresh.along d.map symbols = .ok (d.demapper, bytes) ∧
      FrameParser.start.feed bytes = .more parser ∧ d.parser = some parser ∧
      d.quality.power.size = symbols.length

/-- A decoder of the given make is in the middle of a burst, or searches. -/
structure Follows (policy : MissingTagPolicy) (map : CarrierMap) (fresh : Demapper Float32)
    (d : BurstDecoder) (burst : Option (List (List Sample))) : Prop where
  /-- The carrier map is the given one. -/
  map_eq : d.map = map
  /-- So is the policy. -/
  policy_eq : d.policy = policy
  /-- The demapper is reset to the given one. -/
  reset_eq : d.demapper.reset = fresh
  /-- There is a tap for every data carrier. -/
  taps_eq : d.demapper.taps.length = map.size
  /-- Demapper and parser hold what the burst has led to, or the decoder searches. -/
  holds : d.Holds fresh burst

variable {policy : MissingTagPolicy} {map : CarrierMap} {fresh : Demapper Float32}
  {d : BurstDecoder} {p : Parse}

theorem meet_eq (d : BurstDecoder) (tags : List (Tag Float)) :
    d.meet tags =
      let noted := { d with
        time := (said tags Tag.syncTime Tag.time?).or d.time
        offset := (said tags Tag.syncOffset Tag.number?).or d.offset }
      if d.policy.accepts tags then
        { noted with demapper := d.demapper.reset, quality := {}, parser := some .start }
      else noted := by
  rw [meet]
  cases d.policy <;> simp [MissingTagPolicy.accepts]

/-- A searching decoder begins a burst where the reference does. -/
theorem Follows.meet (h : Follows policy map fresh d none) (tags : List (Tag Float)) :
    Follows policy map fresh (d.meet tags) (if policy.accepts tags then some [] else none) := by
  have hpolicy : d.policy.accepts tags = policy.accepts tags := by rw [h.policy_eq]
  rw [meet_eq, hpolicy]
  by_cases haccepts : policy.accepts tags
  · rw [if_pos haccepts, if_pos haccepts]
    have hreset : d.demapper.reset.reset = d.demapper.reset := Demapper.reset_start _ _ _
    refine ⟨h.map_eq, h.policy_eq, hreset.trans h.reset_eq, ?_, ?_⟩
    · simp only [Demapper.reset, Demapper.start, List.length_replicate]
      exact h.taps_eq
    · exact ⟨[], .start, by rw [← h.reset_eq]; rfl, rfl, rfl, rfl⟩
  · rw [if_neg haccepts, if_neg haccepts]
    exact ⟨h.map_eq, h.policy_eq, h.reset_eq, h.taps_eq, h.holds⟩

/-- A searching decoder, and the reference between bursts. -/
theorem Follows.step_search (h : Follows policy map fresh d none) {frames : List Frame}
    {r : Reception} {result : Result} (hstep : d.step r.flagged r.tags r.symbol = .ok result) :
    Follows policy map fresh result.decoder
        ((⟨none, frames⟩ : Parse).next policy map fresh r).burst ∧
      ((⟨none, frames⟩ : Parse).next policy map fresh r).frames.map Frame.view =
        frames.map Frame.view ++ result.message.toList.map Message.view := by
  have hparser : d.parser = none := h.holds
  simp only [BurstDecoder.step, hparser, Except.ok.injEq] at hstep
  subst hstep
  cases hflag : r.flagged with
  | false =>
    simp only [Parse.next, hflag, Bool.false_and, Bool.false_eq_true, ↓reduceIte]
    exact ⟨h, (List.append_nil _).symm⟩
  | true =>
    have hmeet := h.meet r.tags
    simp only [Parse.next, hflag, Bool.true_and, ↓reduceIte]
    by_cases haccepts : policy.accepts r.tags = true
    · rw [if_pos haccepts] at hmeet ⊢
      exact ⟨hmeet, (List.append_nil _).symm⟩
    · rw [if_neg haccepts] at hmeet ⊢
      exact ⟨hmeet, (List.append_nil _).symm⟩

/-- A decoder in a burst, and the reference with the symbols of the burst. -/
theorem Follows.step_burst {before : List (List Sample)}
    (h : Follows policy map fresh d (some before)) {frames : List Frame} {r : Reception}
    {result : Result} (hstep : d.step r.flagged r.tags r.symbol = .ok result) :
    Follows policy map fresh result.decoder
        ((⟨some before, frames⟩ : Parse).next policy map fresh r).burst ∧
      ((⟨some before, frames⟩ : Parse).next policy map fresh r).frames.map Frame.view =
        frames.map Frame.view ++ result.message.toList.map Message.view := by
  obtain ⟨bytes, parser, halong, hfeed, hparser, hpower⟩ := h.holds
  simp only [BurstDecoder.step, hparser, Fault.bind_eq_ok_iff, Fault.pure_eq_ok_iff] at hstep
  obtain ⟨⟨demapper, report⟩, hdemap, hstep⟩ := hstep
  subst hstep
  rw [h.map_eq] at halong hdemap
  obtain ⟨hconstellation, hgains, htaps, -⟩ := Demapper.demap_frame hdemap
  have hreset : demapper.reset = fresh := by
    rw [← h.reset_eq, Demapper.reset, Demapper.reset, hconstellation, hgains, htaps]
  have hmore := Demapper.along_concat halong hdemap
  have hsize : (d.quality.add report).power.size = (before ++ [r.symbol]).length := by
    rw [List.length_append, List.length_singleton, ← hpower]
    rfl
  have hfed : FrameParser.start.feed (bytes ++ report.bytes) = parser.feed report.bytes := by
    rw [FrameParser.feed_append, hfeed]
    rfl
  have hjudge := FrameParser.judgement_feed_start (bytes ++ report.bytes)
  rw [hfed] at hjudge
  simp only [Parse.next, Demapper.completed_eq hmore, ← hjudge]
  cases hverdict : parser.feed report.bytes with
  | more next =>
    simp only [FrameParser.Verdict.judgement, conclude]
    refine ⟨⟨h.map_eq, h.policy_eq, hreset, htaps.trans h.taps_eq, ?_⟩, (List.append_nil _).symm⟩
    exact ⟨_, next, by rw [h.map_eq]; exact hmore, hfed.trans hverdict, rfl, hsize⟩
  | refused =>
    simp only [FrameParser.Verdict.judgement, conclude]
    exact ⟨⟨h.map_eq, h.policy_eq, hreset, htaps.trans h.taps_eq, rfl⟩, (List.append_nil _).symm⟩
  | frame header payload =>
    simp only [FrameParser.Verdict.judgement, conclude]
    refine ⟨⟨h.map_eq, h.policy_eq, hreset, htaps.trans h.taps_eq, rfl⟩, ?_⟩
    rw [List.map_append]
    congr 1
    simp only [List.map_cons, List.map_nil, Option.toList_some, Frame.view, Message.view, message,
      ← AppendList.size_eq_length, hsize]

/-- **A decoder finds the frames of the reference**, and stays with it. -/
theorem Follows.step (h : Follows policy map fresh d p.burst) {r : Reception} {result : Result}
    (hstep : d.step r.flagged r.tags r.symbol = .ok result) :
    Follows policy map fresh result.decoder (p.next policy map fresh r).burst ∧
      (p.next policy map fresh r).frames.map Frame.view =
        p.frames.map Frame.view ++ result.message.toList.map Message.view := by
  obtain ⟨burst, frames⟩ := p
  cases burst with
  | none => exact h.step_search hstep
  | some before => exact h.step_burst hstep

theorem searching_iff : d.searching = true ↔ d.parser = none := Option.isNone_iff_eq_none

/-- A decoder searches exactly between bursts. -/
theorem Follows.searching_eq {burst : Option (List (List Sample))}
    (h : Follows policy map fresh d burst) : d.searching = burst.isNone := by
  have hholds := h.holds
  cases burst with
  | none => exact searching_iff.2 hholds
  | some symbols =>
    obtain ⟨_, parser, -, -, hparser, -⟩ := hholds
    rw [searching, hparser]
    rfl

/-- A symbol of the full width leads to a result, and what is shown of it fits the width. -/
theorem Follows.step_returns {burst : Option (List (List Sample))}
    (h : Follows policy map fresh d burst) {symbol : List Sample}
    (hsymbol : symbol.length = map.occupied) (flagged : Bool) (tags : List (Tag Float)) :
    ∃ result, d.step flagged tags symbol = .ok result ∧
      ∀ report, result.report = some report → report.derotated.length = map.size := by
  rw [BurstDecoder.step]
  cases d.parser with
  | none => exact ⟨_, rfl, fun _ hreport => by cases hreport⟩
  | some parser =>
    have hcarriers : ∀ k ∈ map.carriers, k < symbol.length := by
      intro k hk
      rw [hsymbol]
      exact map.lt_occupied k hk
    obtain ⟨demapper, report, hdemap⟩ :=
      Demapper.demap_returns hcarriers (Nat.le_of_eq h.taps_eq.symm)
    rw [← h.map_eq] at hdemap
    refine ⟨_, Fault.bind_eq_ok_iff.2 ⟨_, hdemap, rfl⟩, fun report' hreport => ?_⟩
    cases hreport
    rw [← h.map_eq]
    exact (Demapper.demap_frame hdemap).2.2.2

end BurstDecoder

end OfdmBurst
