import OfdmBurst.Proofs.Carrier.Bits
import OfdmBurst.Proofs.Fault

/-!
# Packing under guards

A packer is written with natural numbers and one group at a time. A machine does it with bytes, and
with two nested loops: the inner one fills the open byte from the groups that are left, and the outer
one moves the residue in before and takes the full byte out after. `BitPacker.pack` is that machine.
Every subtraction, shift and mask in it is guarded, and so is the number of rounds of the outer loop.

A packer that is settled runs into none of the guards. That is more than `Fault`s of the program
would show, because natural numbers never leave their range.

## Main definitions

* `BitPacker.appendGuarded` — a group behind the filled bits
* `BitPacker.fillByte`, `BitPacker.pack` — the two loops

## Main results

* `BitPacker.fillByte_spec` — the inner loop ends, with fewer groups left
* `BitPacker.pack_eq_placeAll` — the machine packs as the program does
-/

namespace OfdmBurst

namespace BitPacker

/-- Put the low bits of a group behind the filled bits, and keep what does not fit. -/
def appendGuarded (b : BitPacker) (value bits : Nat) : Except Fault BitPacker := do
  let room ← Guard.sub 8 b.offset
  if bits ≤ room then
    let moved ← Guard.shiftUp value b.offset
    return { b with filled := b.filled ||| moved, offset := b.offset + bits }
  else
    let residueBits ← Guard.sub bits room
    let mask ← Guard.mask room
    let moved ← Guard.shiftUp (value &&& mask) b.offset
    let residue ← Guard.shiftDown value room
    return { filled := b.filled ||| moved, offset := b.offset + room, residue, residueBits }

/-- Fill the open byte from the groups, as long as it has room. What is left are the groups behind
those that were used. -/
def fillByte (bits : Nat) (b : BitPacker) : List Nat → Except Fault (BitPacker × List Nat)
  | [] => .ok (b, [])
  | v :: rest =>
    if b.offset < 8 then do fillByte bits (← b.appendGuarded v bits) rest
    else .ok (b, v :: rest)

/-- Pack all groups, filling a byte in each round. -/
def pack (bits : Nat) : (rounds : Nat) → BitPacker → List Nat →
    Except Fault (List UInt8 × BitPacker)
  | _, b, [] => .ok ([], b)
  | 0, _, _ :: _ => .error .broken
  | rounds + 1, b, v :: rest => do
    let (b, left) ← fillByte bits b.merged (v :: rest)
    let (done, b) := b.flush
    let (more, b) ← pack bits rounds b left
    return (done.toList ++ more, b)

variable {b : BitPacker} {bits : Nat}

/-- **With room in the open byte, no guard fails.** -/
theorem appendGuarded_eq (hoffset : b.offset < 8) (hbits : bits ≤ 8) {value : Nat}
    (hvalue : value < 2 ^ bits) : b.appendGuarded value bits = .ok (b.append value bits) := by
  rw [appendGuarded, append, Guard.sub_ok (Nat.le_of_lt hoffset)]
  by_cases hroom : bits ≤ 8 - b.offset
  · have hfits : value < 2 ^ (8 - b.offset) :=
      Nat.lt_of_lt_of_le hvalue (Nat.pow_le_pow_right (by omega) hroom)
    simp only [bind, Except.bind, hroom, ↓reduceIte, Guard.shiftUp_ok hoffset hfits]
    rfl
  · have hlow : value % 2 ^ (8 - b.offset) < 2 ^ (8 - b.offset) := Nat.mod_lt _ (Nat.two_pow_pos _)
    have hfull : b.offset + (8 - b.offset) = 8 := by omega
    simp only [bind, Except.bind, hroom, ↓reduceIte, Guard.sub_ok (Nat.le_of_not_le hroom),
      Guard.mask_ok (show 8 - b.offset < 16 by omega), Nat.and_two_pow_sub_one_eq_mod,
      Guard.shiftUp_ok hoffset hlow, Guard.shiftDown_ok (show 8 - b.offset < 8 by omega), hfull]
    rfl

/-- After the residue is moved, a packer is settled and has none. -/
theorem settled_merged (h : b.Settled) : b.merged.Settled ∧ b.merged.residueBits = 0 := by
  obtain ⟨hoffset, hfilled, hresidueBits, hresidue, -⟩ := merged_spec h
  refine ⟨⟨hoffset, hfilled, by omega, ?_, fun hne => absurd hresidueBits hne⟩, hresidueBits⟩
  rw [hresidue, hresidueBits]
  exact Nat.one_pos

theorem merged_of_residueBits (h : b.residueBits = 0) : b.merged = b := if_pos h

theorem place_of_residueBits (h : b.residueBits = 0) (value bits : Nat) :
    b.place value bits = (b.append value bits).flush :=
  congrArg (fun c => (append c value bits).flush) (merged_of_residueBits h)

theorem placeAll_cons (bits : Nat) (b : BitPacker) (v : Nat) (rest : List Nat) :
    placeAll bits b (v :: rest) = ((b.place v bits).1.toList ++
      (placeAll bits (b.place v bits).2 rest).1, (placeAll bits (b.place v bits).2 rest).2) := rfl

/-- The residue is moved at the next group in any case. -/
theorem placeAll_merged (h : b.Settled) (v : Nat) (rest : List Nat) :
    placeAll bits b.merged (v :: rest) = placeAll bits b (v :: rest) := by
  have hplace : b.merged.place v bits = b.place v bits :=
    place_of_residueBits (settled_merged h).2 v bits
  rw [placeAll_cons, placeAll_cons, hplace]

/-- **The inner loop ends**, with fewer groups left than there were, and the byte that it leaves is
the one that the program makes of the groups used. -/
theorem fillByte_spec (h : b.Settled) (hopen : b.residueBits = 0) (hbits : bits ≤ 8) {v : Nat}
    {rest : List Nat} (hvalues : ∀ w ∈ v :: rest, w < 2 ^ bits) :
    ∃ c left, fillByte bits b (v :: rest) = .ok (c, left) ∧ left <:+ rest ∧ c.flush.2.Settled ∧
      placeAll bits b (v :: rest) =
        (c.flush.1.toList ++ (placeAll bits c.flush.2 left).1, (placeAll bits c.flush.2 left).2) := by
  induction rest generalizing b v with
  | nil =>
    obtain ⟨hv, -⟩ := List.forall_mem_cons.1 hvalues
    have hplaced := (bits_place h hbits hv).1
    have happend := appendGuarded_eq h.offset_lt hbits hv
    rw [place_of_residueBits hopen] at hplaced
    refine ⟨b.append v bits, [], ?_, List.suffix_refl _, hplaced, ?_⟩
    · rw [fillByte, if_pos h.offset_lt, happend]
      rfl
    · rw [placeAll_cons, place_of_residueBits hopen]
  | cons w rest ih =>
    obtain ⟨hv, hrest⟩ := List.forall_mem_cons.1 hvalues
    have hplaced := (bits_place h hbits hv).1
    have happend := appendGuarded_eq h.offset_lt hbits hv
    rw [place_of_residueBits hopen] at hplaced
    by_cases hroom : (b.append v bits).offset < 8
    · -- the byte stays open, so the next group goes into it as well
      have hflush : (b.append v bits).flush = (none, b.append v bits) := by
        rw [flush, if_neg (by omega)]
      have hnone : (b.append v bits).residueBits = 0 := by
        by_cases hfits : bits ≤ 8 - b.offset
        · simp only [append, hfits, ↓reduceIte, hopen]
        · simp only [append, hfits, ↓reduceIte, Nat.lt_irrefl] at hroom
      rw [hflush] at hplaced
      obtain ⟨c, left, hfill, hleft, hsettled, hall⟩ := ih hplaced hnone hrest
      refine ⟨c, left, ?_, hleft.trans (List.suffix_cons _ _), hsettled, ?_⟩
      · rw [fillByte, if_pos h.offset_lt, happend]
        exact hfill
      · rw [placeAll_cons, place_of_residueBits hopen, hflush]
        exact hall
    · refine ⟨b.append v bits, w :: rest, ?_, List.suffix_refl _, hplaced, ?_⟩
      · rw [fillByte, if_pos h.offset_lt, happend]
        show fillByte bits (b.append v bits) (w :: rest) = _
        rw [fillByte, if_neg hroom]
      · rw [placeAll_cons, place_of_residueBits hopen]

/-- **The machine packs as the program does**, in no more rounds than there are groups. -/
theorem pack_eq_placeAll (h : b.Settled) (hbits : bits ≤ 8) {values : List Nat}
    (hvalues : ∀ v ∈ values, v < 2 ^ bits) {rounds : Nat} (hrounds : values.length ≤ rounds) :
    pack bits rounds b values = .ok (placeAll bits b values) := by
  induction rounds generalizing b values with
  | zero =>
    obtain rfl : values = [] := List.eq_nil_of_length_eq_zero (Nat.le_zero.1 hrounds)
    rfl
  | succ rounds ih =>
    cases values with
    | nil => rfl
    | cons v rest =>
      obtain ⟨hmerged, hopen⟩ := settled_merged h
      obtain ⟨c, left, hfill, hleft, hsettled, hall⟩ := fillByte_spec hmerged hopen hbits hvalues
      have hlength := hleft.length_le
      rw [List.length_cons] at hrounds
      have hmore := ih hsettled
        (fun w hw => hvalues w (List.mem_cons_of_mem _ (hleft.subset hw))) (by omega)
      rw [pack, hfill, ← placeAll_merged h, hall]
      simp only [bind, Except.bind, hmore]
      rfl

end BitPacker

end OfdmBurst
