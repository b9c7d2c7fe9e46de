import Mathlib.Data.Nat.Bitwise
import Mathlib.Data.Set.Function
import OfdmBurst.Proofs.Frame.Parsing

/-!
# The headers as a code

A header is written by one function, read by another, checked by a third, and on its way it is four
bytes that a receiver shifts into a word. All of them have masks and shifts of their own. Here they
are held against each other, over all words.

The code words are the words with equal halves, and every one of them is the word of exactly one
header. So nothing that a sender can say is refused or misread, and no word is read that a sender
could not have sent. What the check costs is also what it is worth: it finds every error that is not
the same in both copies, and no other.

## Main definitions

* `FrameHeader.IsMade` — the headers that can be made

## Main results

* `FrameHeader.ofWord_toWord`, `FrameHeader.toWord_ofWord` — writing and reading
* `FrameHeader.foldl_shiftIn_toBytes` — from the bytes back to the word
* `FrameHeader.agrees_xor_iff` — the errors that are not found
* `FrameHeader.corresponds_to_words` — headers and code words
-/

namespace OfdmBurst

namespace FrameHeader

variable {h : FrameHeader}

/-- A header that can be made. -/
def IsMade (h : FrameHeader) : Prop := ∃ length offset, ofParts length offset = .ok h

theorem isMade_iff : h.IsMade ↔ h.length.toNat ≤ 4095 ∧ h.offset.toNat ≤ 15 := by
  constructor
  · rintro ⟨length, offset, hparts⟩
    obtain ⟨hlength, hoffset, rfl, rfl⟩ := ofParts_eq_ok_iff.1 hparts
    exact ⟨hlength, hoffset⟩
  · rintro ⟨hlength, hoffset⟩
    exact ⟨_, _, ofParts_eq_ok_iff.2 ⟨hlength, hoffset, rfl, rfl⟩⟩

/-! ### Writing and reading -/

theorem upper_toWord (h : FrameHeader) : upper h.toWord = h.field.toNat := by
  have hlt := h.field_lt
  rw [upper, toNat_toWord]
  omega

theorem lower_toWord (h : FrameHeader) : lower h.toWord = h.field.toNat := by
  have hlt := h.field_lt
  rw [lower, toNat_toWord]
  omega

theorem agrees_toWord (h : FrameHeader) : agrees h.toWord = true := by
  rw [agrees_iff, upper_toWord, lower_toWord]

theorem eq_of_toNat {g h : FrameHeader} (hlength : g.length.toNat = h.length.toNat)
    (hoffset : g.offset.toNat = h.offset.toNat) : g = h := by
  obtain ⟨length, offset⟩ := g
  obtain ⟨length', offset'⟩ := h
  obtain rfl : length = length' := UInt16.toNat.inj hlength
  obtain rfl : offset = offset' := UInt8.toNat.inj hoffset
  rfl

/-- **What was written is read**, if it can be made. -/
theorem ofWord_toWord (hmade : h.IsMade) : ofWord h.toWord = h := by
  obtain ⟨hlength, hoffset⟩ := isMade_iff.1 hmade
  obtain ⟨hlength', hoffset'⟩ := toNat_ofWord h.toWord
  rw [upper_toWord, toNat_field] at hlength' hoffset'
  exact eq_of_toNat (by omega) (by omega)

/-- What is read can be made, whatever the word. -/
theorem isMade_ofWord (word : UInt32) : (ofWord word).IsMade := by
  obtain ⟨hlength, hoffset⟩ := toNat_ofWord word
  have hlt := upper_lt word
  exact isMade_iff.2 ⟨by omega, by omega⟩

/-- **A word with equal halves is written for what is read from it.** -/
theorem toWord_ofWord {word : UInt32} (hagree : agrees word = true) :
    (ofWord word).toWord = word := by
  have hhalves := (agrees_iff word).1 hagree
  obtain ⟨hlength, hoffset⟩ := toNat_ofWord word
  have hfield : (ofWord word).field.toNat = upper word := by
    have hlt := upper_lt word
    rw [toNat_field, hlength, hoffset]
    omega
  refine UInt32.toNat.inj ?_
  rw [toNat_toWord, hfield]
  rw [upper, lower] at hhalves
  rw [upper]
  omega

/-! ### On the way -/

/-- **The bytes of a header, shifted into a word one after the other**, are the word. -/
theorem foldl_shiftIn_toBytes (h : FrameHeader) : h.toBytes.foldl shiftIn 0 = h.toWord := by
  obtain ⟨b₀, b₁, hbytes, hfield⟩ := h.toBytes_eq
  have hword : [b₀, b₁, b₀, b₁].foldl shiftIn 0 = wordOf b₀ b₁ b₀ b₁ := rfl
  rw [hbytes, hword]
  refine UInt32.toNat.inj ?_
  rw [toNat_wordOf, toNat_toWord, hfield]

/-- A parser that gets the bytes of a header has the header. -/
theorem feed_toBytes (hmade : h.IsMade) :
    FrameParser.start.feed h.toBytes =
      if h.length = 0 then .frame h [] else .more (.body h .empty) := by
  obtain ⟨b₀, b₁, hbytes, -⟩ := h.toBytes_eq
  have hword : wordOf b₀ b₁ b₀ b₁ = h.toWord := by
    rw [← foldl_shiftIn_toBytes, hbytes]
    rfl
  rw [hbytes, FrameParser.feed_four, hword, FrameParser.ofWord, if_pos h.agrees_toWord]
  simp only [ofWord_toWord hmade]

/-! ### Errors -/

theorem upper_xor (w e : UInt32) : upper (w ^^^ e) = upper w ^^^ upper e := by
  have hdiv : (w.toNat ^^^ e.toNat) / 2 ^ 16 = w.toNat / 2 ^ 16 ^^^ e.toNat / 2 ^ 16 :=
    Nat.xor_div_two_pow
  rw [upper, UInt32.toNat_xor]
  exact hdiv

theorem lower_xor (w e : UInt32) : lower (w ^^^ e) = lower w ^^^ lower e := by
  have hmod : (w.toNat ^^^ e.toNat) % 2 ^ 16 = w.toNat % 2 ^ 16 ^^^ e.toNat % 2 ^ 16 :=
    Nat.xor_mod_two_pow
  rw [lower, UInt32.toNat_xor]
  exact hmod

/-- **An error in a code word is not found exactly if it is the same in both copies.** -/
theorem agrees_xor_iff {word : UInt32} (hagree : agrees word = true) (e : UInt32) :
    agrees (word ^^^ e) = true ↔ upper e = lower e := by
  rw [agrees_iff, upper_xor, lower_xor, (agrees_iff word).1 hagree]
  exact Nat.xor_right_inj

/-- **Headers and code words correspond one to one.** A header can be made exactly if its length and
its offset fit their fields. It is what is read from its word, which counts, and its bytes lead to
that word and to that header. A word that counts is the word of the header that is read from it. An
error in a word is not found exactly if its two halves are the same. -/
theorem corresponds_to_words :
    (∀ length offset, (∃ h, ofParts length offset = .ok h) ↔ length ≤ 4095 ∧ offset.toNat ≤ 15) ∧
    (∀ length offset h, ofParts length offset = .ok h →
      (h.length.toNat = length ∧ h.offset = offset) ∧
      ofWord h.toWord = h ∧ agrees h.toWord = true ∧ h.toBytes.foldl shiftIn 0 = h.toWord ∧
      FrameParser.start.feed h.toBytes =
        (if h.length = 0 then .frame h [] else .more (.body h .empty)) ∧
      ∀ e : UInt32, agrees (h.toWord ^^^ e) = true ↔ e.toNat / 65536 = e.toNat % 65536) ∧
    (∀ word, agrees word = true → (ofWord word).toWord = word) ∧
    Set.BijOn toWord {h | ∃ length offset, ofParts length offset = .ok h}
      {word | agrees word = true} := by
  refine ⟨fun length offset => ?_, fun length offset h hparts => ?_, fun word => toWord_ofWord, ?_⟩
  · constructor
    · rintro ⟨h, hparts⟩
      obtain ⟨hlength, hoffset, -⟩ := ofParts_eq_ok_iff.1 hparts
      exact ⟨hlength, hoffset⟩
    · rintro ⟨hlength, hoffset⟩
      refine ⟨⟨UInt16.ofNat length, offset⟩, ofParts_eq_ok_iff.2 ⟨hlength, hoffset, ?_, rfl⟩⟩
      rw [UInt16.toNat_ofNat']
      omega
  · have hmade : h.IsMade := ⟨length, offset, hparts⟩
    obtain ⟨-, -, hlength, hoffset⟩ := ofParts_eq_ok_iff.1 hparts
    exact ⟨⟨hlength, hoffset⟩, ofWord_toWord hmade, h.agrees_toWord, h.foldl_shiftIn_toBytes,
      feed_toBytes hmade, agrees_xor_iff h.agrees_toWord⟩
  · have hinverse : Set.InvOn ofWord toWord {h | ∃ length offset, ofParts length offset = .ok h}
        {word | agrees word = true} :=
      ⟨fun h hmade => ofWord_toWord hmade, fun word hagree => toWord_ofWord hagree⟩
    exact hinverse.bijOn (fun h _ => h.agrees_toWord) fun word _ => isMade_ofWord word

/-- A header that is hit by the same error in both copies is read as another one. -/
theorem corresponds_to_words_twice_hit :
    ∃ h, ofParts 1500 9 = .ok h ∧ h.toBytes.foldl shiftIn 0 = h.toWord ∧
      agrees (h.toWord ^^^ 0x00010001) = true ∧ ¬ agrees (h.toWord ^^^ 0x00010000) = true ∧
      (ofWord 0x90649064).toWord = 0x90649064 := by
  obtain ⟨-, hheaders, hwords, -⟩ := corresponds_to_words
  obtain ⟨-, -, -, hbytes, -, herrors⟩ := hheaders 1500 9 _ rfl
  exact ⟨_, rfl, hbytes, (herrors _).2 rfl, fun hagree => absurd ((herrors _).1 hagree) (by decide),
    hwords _ rfl⟩

end FrameHeader

end OfdmBurst
