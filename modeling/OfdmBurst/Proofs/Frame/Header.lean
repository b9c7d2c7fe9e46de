import Mathlib.Algebra.Group.Nat.Defs
import Mathlib.Tactic.Common
import OfdmBurst.Frame.Header

/-!
# Headers as numbers

A header travels as four bytes and is checked and read as a machine word. The lemmas here say what
each of the word operations does to the number in the word, and from then on a header is arithmetic:
the word of four bytes is the number they spell, its halves are the two copies of the field, and
field and fields determine each other.

## Main results

* `FrameHeader.toNat_wordOf` — the word of four bytes
* `FrameHeader.agrees_iff`, `FrameHeader.toNat_ofWord` — what a receiver reads from a word
* `FrameHeader.agrees_wordOf`, `FrameHeader.ofWord_wordOf` — the same for the word of four bytes
* `FrameHeader.toBytes_of_ok` — what a sender makes of a length and an offset
-/

namespace OfdmBurst

namespace FrameHeader

/-! ### From bytes to a header -/

/-- The word that four bytes are shifted into. -/
def wordOf (b₀ b₁ b₂ b₃ : UInt8) : UInt32 := shiftIn (shiftIn (shiftIn (shiftIn 0 b₀) b₁) b₂) b₃

/-- One copy of the field, from its two bytes. -/
def fieldOf (b₀ b₁ : UInt8) : Nat := b₀.toNat * 256 + b₁.toNat

theorem fieldOf_lt (b₀ b₁ : UInt8) : fieldOf b₀ b₁ < 65536 := by
  have h₀ := b₀.toNat_lt
  have h₁ := b₁.toNat_lt
  rw [fieldOf]
  omega

theorem fieldOf_inj {b₀ b₁ b₂ b₃ : UInt8} : fieldOf b₀ b₁ = fieldOf b₂ b₃ ↔ b₀ = b₂ ∧ b₁ = b₃ := by
  have h₁ := b₁.toNat_lt
  have h₃ := b₃.toNat_lt
  constructor
  · intro h
    simp only [fieldOf] at h
    exact ⟨UInt8.toNat.inj (by omega), UInt8.toNat.inj (by omega)⟩
  · rintro ⟨rfl, rfl⟩
    rfl

/-- Where a number is shifted up and still fits the word, there is room for another one. -/
theorem shiftLeft_or_eq {a b n : Nat} (ha : a * 2 ^ n < 2 ^ 32) (hb : b < 2 ^ n) :
    a <<< n % 2 ^ 32 ||| b = a * 2 ^ n + b := by
  have hfits : a <<< n < 2 ^ 32 := by rwa [Nat.shiftLeft_eq]
  rw [Nat.mod_eq_of_lt hfits, ← Nat.shiftLeft_add_eq_or_of_lt hb, Nat.shiftLeft_eq]

/-- A byte is put behind the bytes in the word as long as there is room for it. -/
theorem toNat_shiftIn {word : UInt32} (b : UInt8) (h : word.toNat < 2 ^ 24) :
    (shiftIn word b).toNat = word.toNat * 256 + b.toNat := by
  rw [shiftIn, UInt32.toNat_or, UInt32.toNat_shiftLeft, UInt8.toNat_toUInt32]
  show word.toNat <<< 8 % 2 ^ 32 ||| b.toNat = _
  exact shiftLeft_or_eq (by omega) b.toNat_lt

theorem toNat_wordOf (b₀ b₁ b₂ b₃ : UInt8) :
    (wordOf b₀ b₁ b₂ b₃).toNat = fieldOf b₀ b₁ * 65536 + fieldOf b₂ b₃ := by
  have h₀ := b₀.toNat_lt
  have h₁ := b₁.toNat_lt
  have h₂ := b₂.toNat_lt
  have e₀ : (shiftIn 0 b₀).toNat = b₀.toNat := by
    rw [toNat_shiftIn b₀ (by decide)]
    exact Nat.zero_add _
  have e₁ : (shiftIn (shiftIn 0 b₀) b₁).toNat = fieldOf b₀ b₁ := by
    rw [toNat_shiftIn b₁ (by omega), e₀, fieldOf]
  have e₂ : (shiftIn (shiftIn (shiftIn 0 b₀) b₁) b₂).toNat = fieldOf b₀ b₁ * 256 + b₂.toNat := by
    rw [toNat_shiftIn b₂ (by have := fieldOf_lt b₀ b₁; omega), e₁]
  rw [wordOf, toNat_shiftIn b₃ (by have := fieldOf_lt b₀ b₁; omega), e₂, fieldOf, fieldOf]
  omega

/-! ### The halves of a word

What a word says is said by its two halves. Each of them is a copy of the field. -/

/-- The copy that is sent first. -/
def upper (word : UInt32) : Nat := word.toNat / 65536

/-- The copy that is sent last. -/
def lower (word : UInt32) : Nat := word.toNat % 65536

theorem upper_lt (word : UInt32) : upper word < 65536 := by
  have hlt := word.toNat_lt
  rw [upper]
  omega

theorem toNat_shiftRight_sixteen (word : UInt32) : (word >>> 16).toNat = upper word := by
  rw [UInt32.toNat_shiftRight]
  show _ >>> 16 = _
  rw [Nat.shiftRight_eq_div_pow, upper]

/-- **A word counts if its halves are the same.** -/
theorem agrees_iff (word : UInt32) : agrees word = true ↔ upper word = lower word := by
  have hlow : (word &&& 0xFFFF).toNat = lower word := by
    rw [UInt32.toNat_and]
    show _ &&& 2 ^ 16 - 1 = _
    rw [Nat.and_two_pow_sub_one_eq_mod, lower]
  rw [agrees, beq_iff_eq, ← UInt32.toNat_inj, toNat_shiftRight_sixteen, hlow]

/-- **What a header says**: the low twelve bits of the first copy are the length, and the high four
bits the offset. -/
theorem toNat_ofWord (word : UInt32) :
    (ofWord word).length.toNat = upper word % 4096 ∧
      (ofWord word).offset.toNat = upper word / 4096 := by
  have hlt := upper_lt word
  constructor
  · rw [ofWord, UInt32.toNat_toUInt16, UInt32.toNat_and, toNat_shiftRight_sixteen]
    show (_ &&& 2 ^ 12 - 1) % 2 ^ 16 = _
    rw [Nat.and_two_pow_sub_one_eq_mod]
    omega
  · rw [ofWord, UInt32.toNat_toUInt8, UInt32.toNat_and, UInt32.toNat_shiftRight]
    show (_ >>> 28 &&& 2 ^ 4 - 1) % 2 ^ 8 = _
    rw [Nat.and_two_pow_sub_one_eq_mod, Nat.shiftRight_eq_div_pow]
    rw [upper] at hlt ⊢
    omega

theorem upper_wordOf (b₀ b₁ b₂ b₃ : UInt8) : upper (wordOf b₀ b₁ b₂ b₃) = fieldOf b₀ b₁ := by
  have hlt := fieldOf_lt b₂ b₃
  rw [upper, toNat_wordOf]
  omega

theorem lower_wordOf (b₀ b₁ b₂ b₃ : UInt8) : lower (wordOf b₀ b₁ b₂ b₃) = fieldOf b₂ b₃ := by
  have hlt := fieldOf_lt b₂ b₃
  rw [lower, toNat_wordOf]
  omega

/-- The copies in four bytes agree exactly if the bytes do. -/
theorem agrees_wordOf (b₀ b₁ b₂ b₃ : UInt8) :
    agrees (wordOf b₀ b₁ b₂ b₃) = true ↔ b₀ = b₂ ∧ b₁ = b₃ := by
  rw [agrees_iff, upper_wordOf, lower_wordOf, fieldOf_inj]

theorem ofWord_wordOf (b₀ b₁ b₂ b₃ : UInt8) :
    (ofWord (wordOf b₀ b₁ b₂ b₃)).length.toNat = fieldOf b₀ b₁ % 4096 ∧
      (ofWord (wordOf b₀ b₁ b₂ b₃)).offset.toNat = fieldOf b₀ b₁ / 4096 := by
  have hfields := toNat_ofWord (wordOf b₀ b₁ b₂ b₃)
  rwa [upper_wordOf] at hfields

/-! ### From a header to bytes -/

theorem toNat_field (h : FrameHeader) :
    h.field.toNat = h.offset.toNat % 16 * 4096 + h.length.toNat % 4096 := by
  rw [field, UInt32.toNat_or, UInt32.toNat_shiftLeft, UInt32.toNat_and, UInt32.toNat_and,
    UInt8.toNat_toUInt32, UInt16.toNat_toUInt32]
  show (h.offset.toNat &&& 2 ^ 4 - 1) <<< 12 % 2 ^ 32 ||| (h.length.toNat &&& 2 ^ 12 - 1) = _
  rw [Nat.and_two_pow_sub_one_eq_mod, Nat.and_two_pow_sub_one_eq_mod]
  exact shiftLeft_or_eq (by omega) (Nat.mod_lt _ (by decide))

theorem field_lt (h : FrameHeader) : h.field.toNat < 65536 := by
  rw [toNat_field]
  omega

theorem toNat_toWord (h : FrameHeader) :
    h.toWord.toNat = h.field.toNat * 65536 + h.field.toNat := by
  have hlt := h.field_lt
  rw [toWord, UInt32.toNat_or, UInt32.toNat_shiftLeft]
  show h.field.toNat <<< 16 % 2 ^ 32 ||| h.field.toNat = _
  exact shiftLeft_or_eq (by omega) hlt

/-- A header travels as the two bytes of its field, twice. -/
theorem toBytes_eq (h : FrameHeader) :
    ∃ b₀ b₁, h.toBytes = [b₀, b₁, b₀, b₁] ∧ fieldOf b₀ b₁ = h.field.toNat := by
  have hlt := h.field_lt
  have hbyte : ∀ n, (h.toWord >>> n).toUInt8.toNat =
      (h.field.toNat * 65536 + h.field.toNat) / 2 ^ (n.toNat % 32) % 256 := by
    intro n
    rw [UInt32.toNat_toUInt8, UInt32.toNat_shiftRight, toNat_toWord, Nat.shiftRight_eq_div_pow]
  have hhigh : (h.field.toNat * 65536 + h.field.toNat) / 65536 = h.field.toNat := by omega
  have h₀ : (h.toWord >>> 24).toUInt8.toNat = h.field.toNat / 256 := by
    rw [hbyte]
    show _ / (65536 * 256) % 256 = _
    rw [← Nat.div_div_eq_div_mul, hhigh]
    omega
  have h₁ : (h.toWord >>> 16).toUInt8.toNat = h.field.toNat % 256 := by
    rw [hbyte]
    show _ / 65536 % 256 = _
    rw [hhigh]
  have h₂ : (h.toWord >>> 8).toUInt8.toNat = h.field.toNat / 256 := by
    rw [hbyte]
    show _ / 256 % 256 = _
    have : (h.field.toNat * 65536 + h.field.toNat) / 256 =
        h.field.toNat * 256 + h.field.toNat / 256 := by omega
    omega
  have h₃ : h.toWord.toUInt8.toNat = h.field.toNat % 256 := by
    rw [UInt32.toNat_toUInt8, toNat_toWord]
    omega
  have e₂ : (h.toWord >>> 8).toUInt8 = (h.toWord >>> 24).toUInt8 :=
    UInt8.toNat.inj (h₂.trans h₀.symm)
  have e₃ : h.toWord.toUInt8 = (h.toWord >>> 16).toUInt8 := UInt8.toNat.inj (h₃.trans h₁.symm)
  refine ⟨(h.toWord >>> 24).toUInt8, (h.toWord >>> 16).toUInt8, ?_, ?_⟩
  · rw [toBytes, e₂, e₃]
  · rw [fieldOf, h₀, h₁]
    omega

/-- **The headers that can be made**: both fields have to fit, and are kept. -/
theorem ofParts_eq_ok_iff {length : Nat} {offset : UInt8} {h : FrameHeader} :
    ofParts length offset = .ok h ↔
      length ≤ 4095 ∧ offset.toNat ≤ 15 ∧ h.length.toNat = length ∧ h.offset = offset := by
  have hbound : offset.toNat ≤ 15 ↔ ¬ 0xF < offset := by
    rw [UInt8.not_lt, UInt8.le_iff_toNat_le]
    rfl
  rw [hbound, ofParts]
  constructor
  · intro hparts
    split at hparts
    · cases hparts
    next hlength =>
      split at hparts
      · cases hparts
      next hoffset =>
        cases hparts
        rw [longest] at hlength
        refine ⟨by omega, hoffset, ?_, rfl⟩
        rw [UInt16.toNat_ofNat']
        omega
  · rintro ⟨hlength, hoffset, rfl, rfl⟩
    rw [if_neg (by rw [longest]; omega), if_neg hoffset, UInt16.ofNat_toNat]

/-- **What a sender makes of a length and an offset**: their field twice, high byte first. -/
theorem toBytes_of_ok {length : Nat} {offset : UInt8} {h : FrameHeader}
    (hparts : ofParts length offset = .ok h) :
    length < 4096 ∧ offset.toNat < 16 ∧
      ∃ b₀ b₁, h.toBytes = [b₀, b₁, b₀, b₁] ∧ fieldOf b₀ b₁ = offset.toNat * 4096 + length := by
  obtain ⟨hlength, hoffset, rfl, rfl⟩ := ofParts_eq_ok_iff.1 hparts
  obtain ⟨b₀, b₁, hbytes, hfield⟩ := h.toBytes_eq
  refine ⟨Nat.lt_succ_of_le hlength, Nat.lt_succ_of_le hoffset, b₀, b₁, hbytes, ?_⟩
  rw [hfield, toNat_field]
  omega

end FrameHeader

end OfdmBurst
