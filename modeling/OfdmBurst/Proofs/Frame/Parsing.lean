import OfdmBurst.Frame.Parser
import OfdmBurst.Proofs.Frame.Header

/-!
# What the bytes of a burst amount to

A parser takes bytes as they come and remembers what it needs of them. Here is the same judgement as
a function of all bytes at once: nothing can be said before the fourth byte, two copies that differ
are refused, and two that agree make a frame as soon as the announced payload is there.

`FrameParser.judgement_feed_start` says that the two are one. So a statement about a parser that was
fed in pieces is a statement about the bytes put together, and the parser's states do not occur in
it.

## Main definitions

* `Judgement`, `judge` — the judgement on all bytes of a burst so far

## Main results

* `FrameParser.judgement_feed_start` — a parser comes to the same judgement
-/

namespace OfdmBurst

/-- What the bytes of a burst amount to, once that is decided. -/
inductive Judgement where
  | refused
  | frame (offset : Nat) (payload : List UInt8)
deriving DecidableEq, Repr

/-- **The judgement on all bytes of a burst so far.** With four bytes whose copies agree, the low
twelve bits of a copy are the length of the payload behind them and the high four bits the
offset. -/
def judge : List UInt8 → Option Judgement
  | b₀ :: b₁ :: b₂ :: b₃ :: rest =>
    if (b₀, b₁) = (b₂, b₃) then
      let field := b₀.toNat * 256 + b₁.toNat
      let length := field % 4096
      if length ≤ rest.length then some (.frame (field / 4096) (rest.take length)) else none
    else some .refused
  | _ => none

namespace FrameParser

/-- The judgement in a verdict. -/
def Verdict.judgement : Verdict → Option Judgement
  | .more _ => none
  | .refused => some .refused
  | .frame header payload => some (.frame header.offset.toNat payload)

/-- Behind a header, bytes are put behind those that are there, and the payload is complete with the
last of the announced ones. -/
theorem feed_body {header : FrameHeader} (got : AppendList UInt8)
    (h : got.size < header.length.toNat) (bytes : List UInt8) :
    (body header got).feed bytes =
      if header.length.toNat ≤ got.size + bytes.length then
        .frame header (got.toList ++ bytes.take (header.length.toNat - got.size))
      else .more (body header (got.append bytes)) := by
  induction bytes generalizing got with
  | nil =>
    rw [if_neg (by rw [List.length_nil]; omega)]
    rfl
  | cons b rest ih =>
    have hsize : (got.push b).size = got.size + 1 := rfl
    rw [feed, byte]
    simp only [hsize]
    by_cases hlast : got.size + 1 = header.length.toNat
    · have hone : header.length.toNat - got.size = 1 := by omega
      rw [hone, if_pos hlast, if_pos (by rw [List.length_cons]; omega)]
      simp only [AppendList.toList_push, List.take_succ_cons, List.take_zero]
    · have hmore : header.length.toNat - got.size = header.length.toNat - (got.size + 1) + 1 := by
        omega
      have hgrown : (got.push b).append rest = got.append (b :: rest) :=
        AppendList.eq_of_toList (by simp)
      rw [if_neg hlast]
      simp only
      rw [ih _ (by rw [hsize]; omega), hsize, hmore, hgrown, List.take_succ_cons,
        AppendList.toList_push, List.append_assoc, List.singleton_append, List.length_cons,
        Nat.add_assoc, Nat.add_comm 1 rest.length]

/-- Four bytes lead to the verdict on the word they make up. -/
theorem feed_four (b₀ b₁ b₂ b₃ : UInt8) :
    start.feed [b₀, b₁, b₂, b₃] = ofWord (FrameHeader.wordOf b₀ b₁ b₂ b₃) := by
  have hlast : (heading (FrameHeader.shiftIn (FrameHeader.shiftIn (FrameHeader.shiftIn 0 b₀) b₁) b₂)
      3).byte b₃ = ofWord (FrameHeader.wordOf b₀ b₁ b₂ b₃) := rfl
  show (heading _ 3).feed [b₃] = _
  rw [feed, hlast]
  cases ofWord (FrameHeader.wordOf b₀ b₁ b₂ b₃) <;> rfl

/-- **A parser comes to the same judgement** as the judgement on all its bytes. -/
theorem judgement_feed_start (bytes : List UInt8) :
    (start.feed bytes).judgement = judge bytes := by
  match bytes with
  | [] => rfl
  | [_] => rfl
  | [_, _] => rfl
  | [_, _, _] => rfl
  | b₀ :: b₁ :: b₂ :: b₃ :: rest =>
    obtain ⟨hlength, hoffset⟩ := FrameHeader.ofWord_wordOf b₀ b₁ b₂ b₃
    have hagree := FrameHeader.agrees_wordOf b₀ b₁ b₂ b₃
    have hsplit : b₀ :: b₁ :: b₂ :: b₃ :: rest = [b₀, b₁, b₂, b₃] ++ rest := rfl
    rw [hsplit, feed_append, feed_four, ofWord]
    simp only [judge, List.cons_append, List.nil_append, Prod.mk.injEq, ← hagree]
    by_cases hcopies : FrameHeader.agrees (FrameHeader.wordOf b₀ b₁ b₂ b₃) = true
    · rw [if_pos hcopies, if_pos hcopies]
      rw [FrameHeader.fieldOf] at hlength hoffset
      rw [← hlength, ← hoffset]
      generalize FrameHeader.ofWord (FrameHeader.wordOf b₀ b₁ b₂ b₃) = header
      by_cases hzero : header.length = 0
      · have hnat : header.length.toNat = 0 := by rw [hzero]; rfl
        rw [if_pos hzero, hnat, if_pos (Nat.zero_le _)]
        rfl
      · have hnat : 0 < header.length.toNat :=
          Nat.pos_of_ne_zero fun h => hzero (UInt16.toNat.inj h)
        have hempty : (AppendList.empty : AppendList UInt8).size = 0 := rfl
        have hbody := feed_body .empty hnat rest
        rw [hempty, Nat.zero_add, Nat.sub_zero] at hbody
        rw [if_neg hzero]
        show ((body header .empty).feed rest).judgement = _
        rw [hbody]
        split <;> rfl
    · rw [if_neg hcopies, if_neg hcopies]
      rfl

end FrameParser

end OfdmBurst
