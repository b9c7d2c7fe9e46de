import Mathlib.Algebra.Group.Nat.Defs
import Mathlib.Tactic.Common
import OfdmBurst.Carrier.BitPacker

/-!
# Packers as bit streams

A packer shifts, masks and keeps what is left over. None of that matters to what it does: bits go in
at one end and come out at the other, in order, and in groups of eight. So everything is read as a
list of bits here, low bit first, and the packer is a queue between two such lists.

`BitPacker.bits_placeAll` is the law of that queue. The bits of the completed bytes, followed by what
still waits, are what waited before, followed by the bits of the groups. Fewer than eight bits ever
wait, so the law says which bytes are complete: all that the bits are enough for.

## Main definitions

* `lowBits`, `byteBits` — numbers and bytes as bits
* `BitPacker.pending` — the bits that wait

## Main results

* `BitPacker.bits_place`, `BitPacker.bits_placeAll` — bits in, bits out
* `prefix_of_byteBits` — bytes are determined by their bits
-/

namespace OfdmBurst

/-! ### Numbers and bytes as bits -/

/-- The low `n` bits of a number, lowest first. -/
def lowBits (n value : Nat) : List Bool := (List.range n).map value.testBit

/-- The bits of bytes. -/
def byteBits (bytes : List UInt8) : List Bool := bytes.flatMap fun b => lowBits 8 b.toNat

@[simp] theorem length_lowBits (n value : Nat) : (lowBits n value).length = n := by
  rw [lowBits, List.length_map, List.length_range]

@[simp] theorem lowBits_zero (value : Nat) : lowBits 0 value = [] := rfl

theorem lowBits_add (n m value : Nat) :
    lowBits (n + m) value = lowBits n value ++ lowBits m (value >>> n) := by
  rw [lowBits, List.range_add, List.map_append, List.map_map, lowBits, lowBits]
  congr 1
  refine List.map_congr_left fun i _ => ?_
  rw [Function.comp_apply, Nat.testBit_shiftRight]

/-- Bits put above a number stand behind its own bits. -/
theorem lowBits_or_shiftLeft {filled n : Nat} (h : filled < 2 ^ n) (bits value : Nat) :
    lowBits (n + bits) (filled ||| value <<< n) = lowBits n filled ++ lowBits bits value := by
  rw [lowBits_add]
  congr 1
  · refine List.map_congr_left fun i hi => ?_
    have hlt := List.mem_range.1 hi
    rw [Nat.testBit_or, Nat.testBit_shiftLeft, decide_eq_false (by omega), Bool.false_and,
      Bool.or_false]
  · refine List.map_congr_left fun i _ => ?_
    rw [Nat.testBit_shiftRight, Nat.testBit_or, Nat.testBit_shiftLeft, decide_eq_true (by omega),
      Nat.testBit_lt_two_pow (Nat.lt_of_lt_of_le h (Nat.pow_le_pow_right (by omega) (by omega))),
      Bool.true_and, Bool.false_or, Nat.add_sub_cancel_left]

theorem lowBits_mod {n m : Nat} (h : n ≤ m) (value : Nat) :
    lowBits n (value % 2 ^ m) = lowBits n value := by
  refine List.map_congr_left fun i hi => ?_
  have hlt := List.mem_range.1 hi
  rw [Nat.testBit_mod_two_pow, decide_eq_true (by omega), Bool.true_and]

theorem lowBits_inj {n a b : Nat} (ha : a < 2 ^ n) (hb : b < 2 ^ n)
    (h : lowBits n a = lowBits n b) : a = b := by
  refine Nat.eq_of_testBit_eq fun i => ?_
  by_cases hi : i < n
  · exact List.map_inj_left.1 h i (List.mem_range.2 hi)
  · have hpow : 2 ^ n ≤ 2 ^ i := Nat.pow_le_pow_right (by omega) (by omega)
    rw [Nat.testBit_lt_two_pow (Nat.lt_of_lt_of_le ha hpow),
      Nat.testBit_lt_two_pow (Nat.lt_of_lt_of_le hb hpow)]

@[simp] theorem byteBits_nil : byteBits [] = [] := rfl

theorem byteBits_cons (b : UInt8) (bytes : List UInt8) :
    byteBits (b :: bytes) = lowBits 8 b.toNat ++ byteBits bytes := rfl

theorem byteBits_append (xs ys : List UInt8) : byteBits (xs ++ ys) = byteBits xs ++ byteBits ys :=
  List.flatMap_append

theorem length_byteBits (bytes : List UInt8) : (byteBits bytes).length = 8 * bytes.length := by
  induction bytes with
  | nil => rfl
  | cons b rest ih =>
    rw [byteBits_cons, List.length_append, length_lowBits, ih, List.length_cons]
    omega

/-- **Bytes are determined by their bits.** -/
theorem prefix_of_byteBits {xs ys : List UInt8} (h : byteBits xs <+: byteBits ys) : xs <+: ys := by
  induction xs generalizing ys with
  | nil => exact List.nil_prefix
  | cons x xs ih =>
    cases ys with
    | nil =>
      have hlength := h.length_le
      rw [length_byteBits, List.length_cons, byteBits_nil, List.length_nil] at hlength
      omega
    | cons y ys =>
      rw [byteBits_cons, byteBits_cons] at h
      obtain ⟨more, hmore⟩ := h
      rw [List.append_assoc] at hmore
      obtain ⟨hfirst, hrest⟩ := List.append_inj hmore (by simp)
      have hxy : x = y := UInt8.toNat.inj (lowBits_inj x.toNat_lt y.toNat_lt hfirst)
      rw [hxy, List.prefix_cons_inj]
      exact ih ⟨more, hrest⟩

namespace BitPacker

/-- The bits that wait for their byte to be completed. -/
def pending (b : BitPacker) : List Bool :=
  lowBits b.offset b.filled ++ lowBits b.residueBits b.residue

variable {b : BitPacker}

theorem length_pending_lt (h : b.Settled) : b.pending.length < 8 := by
  have hoffset := h.offset_lt
  have hresidue := h.residueBits_lt
  rw [pending, List.length_append, length_lowBits, length_lowBits]
  by_cases hzero : b.residueBits = 0
  · omega
  · have := h.offset_eq hzero
    omega

/-- After the residue is moved, all bits that wait are in the open byte. -/
theorem merged_spec (h : b.Settled) :
    b.merged.offset < 8 ∧ b.merged.filled < 2 ^ b.merged.offset ∧ b.merged.residueBits = 0 ∧
      b.merged.residue = 0 ∧ lowBits b.merged.offset b.merged.filled = b.pending := by
  rw [merged]
  split
  next hzero =>
    have hresidue := h.residue_lt
    rw [hzero] at hresidue
    refine ⟨h.offset_lt, h.filled_lt, hzero, Nat.lt_one_iff.1 hresidue, ?_⟩
    rw [pending, hzero, lowBits_zero, List.append_nil]
  next hzero =>
    have hoffset := h.offset_eq hzero
    have hfilled := h.filled_lt
    rw [hoffset] at hfilled
    have hfilled : b.filled = 0 := Nat.lt_one_iff.1 hfilled
    simp only [hoffset, hfilled, Nat.zero_add, Nat.zero_or]
    exact ⟨h.residueBits_lt, h.residue_lt, trivial, trivial, by rw [pending, hoffset]; rfl⟩

/-- The open byte leaves if it is full, and a residue waits only behind a full byte. -/
theorem flush_spec (hoffset : b.offset ≤ 8) (hfilled : b.filled < 2 ^ b.offset)
    (hbits : b.residueBits < 8) (hresidue : b.residue < 2 ^ b.residueBits)
    (hfull : b.residueBits ≠ 0 → b.offset = 8) :
    b.flush.2.Settled ∧ byteBits b.flush.1.toList ++ b.flush.2.pending = b.pending := by
  rw [flush]
  split
  next height =>
    refine ⟨⟨Nat.zero_lt_succ 7, Nat.one_pos, hbits, hresidue, fun _ => rfl⟩, ?_⟩
    have hbyte : (UInt8.ofNat b.filled).toNat = b.filled := by
      rw [height] at hfilled
      rw [UInt8.toNat_ofNat']
      exact Nat.mod_eq_of_lt hfilled
    simp only [Option.toList_some, byteBits_cons, byteBits_nil, List.append_nil, hbyte, pending,
      height, lowBits_zero, List.nil_append]
  next height =>
    have hzero : b.residueBits = 0 := Decidable.byContradiction fun h => height (hfull h)
    have hlt : b.offset < 8 := by omega
    exact ⟨⟨hlt, hfilled, hbits, hresidue, fun h => absurd hzero h⟩, rfl⟩

/-- **One group.** -/
theorem bits_place (h : b.Settled) {value bits : Nat} (hbits : bits ≤ 8) (hvalue : value < 2 ^ bits) :
    (b.place value bits).2.Settled ∧
      byteBits (b.place value bits).1.toList ++ (b.place value bits).2.pending =
        b.pending ++ lowBits bits value := by
  obtain ⟨hoffset, hfilled, hresidueBits, hresidue, hpending⟩ := merged_spec h
  rw [← hpending, place]
  generalize b.merged = m at *
  obtain ⟨filled, offset, residue, residueBits⟩ := m
  simp only at hoffset hfilled hresidueBits hresidue
  subst hresidueBits hresidue
  have hshifted : ∀ {v n}, v < 2 ^ n → filled ||| v <<< offset < 2 ^ (offset + n) := by
    intro v n hv
    refine Nat.or_lt_two_pow (Nat.lt_of_lt_of_le hfilled
      (Nat.pow_le_pow_right (by omega) (by omega))) ?_
    rw [Nat.shiftLeft_eq, Nat.add_comm, Nat.pow_add]
    exact Nat.mul_lt_mul_of_pos_right hv (Nat.two_pow_pos _)
  rw [append]
  split
  next hroom =>
    simp only at hroom
    obtain ⟨hsettled, hout⟩ := flush_spec
      (b := ⟨filled ||| value <<< offset, offset + bits, 0, 0⟩) (by simp only; omega)
      (hshifted hvalue) (Nat.zero_lt_succ 7) Nat.one_pos (fun h => absurd rfl h)
    refine ⟨hsettled, hout.trans ?_⟩
    rw [pending, lowBits_or_shiftLeft hfilled, lowBits_zero, List.append_nil]
  next hroom =>
    simp only at hroom
    have hlow : value % 2 ^ (8 - offset) < 2 ^ (8 - offset) := Nat.mod_lt _ (Nat.two_pow_pos _)
    have hhigh : value >>> (8 - offset) < 2 ^ (bits - (8 - offset)) := by
      rw [Nat.shiftRight_eq_div_pow]
      refine Nat.div_lt_of_lt_mul ?_
      rw [← Nat.pow_add, Nat.add_sub_cancel' (by omega)]
      exact hvalue
    have height : offset + (8 - offset) = 8 := by omega
    have hfull := hshifted hlow
    rw [height] at hfull
    obtain ⟨hsettled, hout⟩ := flush_spec
      (b := ⟨filled ||| (value % 2 ^ (8 - offset)) <<< offset, 8, value >>> (8 - offset),
        bits - (8 - offset)⟩) (Nat.le_refl 8) hfull (by simp only; omega) hhigh (fun _ => rfl)
    refine ⟨hsettled, hout.trans ?_⟩
    have hsplit : bits = 8 - offset + (bits - (8 - offset)) := by omega
    have hbyte := lowBits_or_shiftLeft hfilled (8 - offset) (value % 2 ^ (8 - offset))
    rw [height, lowBits_mod (Nat.le_refl _)] at hbyte
    rw [pending, hbyte, List.append_assoc, ← lowBits_add, ← hsplit]

/-- **Bits in, bits out.** -/
theorem bits_placeAll (h : b.Settled) {bits : Nat} (hbits : bits ≤ 8) {values : List Nat}
    (hvalues : ∀ v ∈ values, v < 2 ^ bits) :
    (placeAll bits b values).2.Settled ∧
      byteBits (placeAll bits b values).1 ++ (placeAll bits b values).2.pending =
        b.pending ++ values.flatMap (lowBits bits) := by
  induction values generalizing b with
  | nil => exact ⟨h, (List.append_nil _).symm⟩
  | cons v rest ih =>
    obtain ⟨hplaced, hone⟩ := bits_place h hbits (hvalues v List.mem_cons_self)
    obtain ⟨hsettled, hmore⟩ := ih hplaced fun w hw => hvalues w (List.mem_cons_of_mem _ hw)
    refine ⟨hsettled, ?_⟩
    rw [placeAll, byteBits_append, List.append_assoc, hmore, ← List.append_assoc, hone,
      List.append_assoc, List.flatMap_cons]

theorem placeAll_append (bits : Nat) (b : BitPacker) (xs ys : List Nat) :
    placeAll bits b (xs ++ ys) =
      ((placeAll bits b xs).1 ++ (placeAll bits (placeAll bits b xs).2 ys).1,
        (placeAll bits (placeAll bits b xs).2 ys).2) := by
  induction xs generalizing b with
  | nil => rfl
  | cons v rest ih =>
    simp only [List.cons_append, placeAll, ih, List.append_assoc]

end BitPacker

end OfdmBurst
