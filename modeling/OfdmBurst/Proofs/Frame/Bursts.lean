import Mathlib.Data.List.Basic
import OfdmBurst.Frame.Burst
import OfdmBurst.Proofs.Carrier.Bits
import OfdmBurst.Proofs.Fault
import OfdmBurst.Proofs.Frame.Header

/-!
# Bursts as windows

A burst is sent by a cursor: every symbol takes its groups from the front of the bytes that are left,
and leaves behind the bytes it has sent and how many bits of the next one. Seen from outside there is
no cursor. Symbol `s` of a burst carries a window of the bits of its bytes, and behind the last byte
the bits are zero.

`Burst.At` says where a cursor stands, and `Burst.At.groups` and `Burst.At.after` that it reads the
window of its symbol and moves on to the next one.

## Main definitions

* `streamBit`, `patternsAt` — a bit of some bytes, and the groups of one symbol
* `symbolCount`, `patterns` — the groups of all symbols of a burst
* `Burst.At` — a cursor at the start of a symbol
* `Message.isSendable`, `Message.frameBytes`, `Message.symbols` — which messages have a burst, its
  bytes, and the number of its symbols

## Main results

* `byteBits_eq`, `lowBits_bitsFrom` — bytes and groups as bits of the stream
* `flatMap_patterns` — the groups of the first symbols are the first bits
* `Burst.At.groups`, `Burst.At.after`, `Burst.At.isDone`
* `Burst.frameBytes_of_isSendable` — what the bytes of a burst are
-/

namespace OfdmBurst

/-! ### Bits of a stream of bytes -/

/-- Bit `place` of bytes, and zero behind their end. -/
def streamBit (bytes : List UInt8) (place : Nat) : Bool :=
  match bytes[place / 8]? with
  | some b => b.toNat.testBit (place % 8)
  | none => false

theorem bitAt_eq (bytes : List UInt8) (place : Nat) :
    bitAt bytes.toArray place = (streamBit bytes place).toNat := by
  rw [bitAt, streamBit, List.getElem?_toArray]
  cases bytes[place / 8]? with
  | none => rfl
  | some b =>
    show b.toNat / 2 ^ (place % 8) % 2 = (b.toNat.testBit (place % 8)).toNat
    rw [Nat.toNat_testBit]

theorem byteBits_eq (bytes : List UInt8) :
    byteBits bytes = (List.range (8 * bytes.length)).map (streamBit bytes) := by
  induction bytes with
  | nil => rfl
  | cons b rest ih =>
    have hfirst : lowBits 8 b.toNat = (List.range 8).map (streamBit (b :: rest)) := by
      refine List.map_congr_left fun i hi => ?_
      have hlt := List.mem_range.1 hi
      rw [streamBit, Nat.div_eq_of_lt hlt, Nat.mod_eq_of_lt hlt]
      rfl
    have hlength : 8 * (b :: rest).length = 8 + 8 * rest.length := by
      rw [List.length_cons]
      omega
    rw [byteBits_cons, ih, hfirst, hlength, List.range_add, List.map_append, List.map_map]
    congr 1
    refine List.map_congr_left fun i _ => ?_
    have hdiv : (8 + i) / 8 = i / 8 + 1 := by omega
    rw [Function.comp_apply, streamBit, streamBit, hdiv, List.getElem?_cons_succ,
      Nat.add_mod_left]

/-- Zero bytes behind the others change no bit. -/
theorem streamBit_append_zeros (bytes : List UInt8) (n place : Nat) :
    streamBit (bytes ++ List.replicate n 0) place = streamBit bytes place := by
  rw [streamBit, streamBit]
  by_cases hlt : place / 8 < bytes.length
  · rw [List.getElem?_append_left hlt]
  · rw [List.getElem?_append_right (by omega), List.getElem?_eq_none (l := bytes) (by omega),
      List.getElem?_replicate]
    split
    next b hb =>
      split at hb
      · cases hb
        exact Nat.zero_testBit _
      · cases hb
    · rfl

theorem lowBits_succ (n value : Nat) :
    lowBits (n + 1) value = value.testBit 0 :: lowBits n (value / 2) := by
  rw [lowBits, List.range_succ_eq_map, List.map_cons, List.map_map, lowBits]
  congr 1
  refine List.map_congr_left fun i _ => ?_
  rw [Function.comp_apply, Nat.testBit_succ]

theorem bitsFrom_lt (bytes : List UInt8) (place n : Nat) : bitsFrom bytes.toArray place n < 2 ^ n := by
  induction n generalizing place with
  | zero => exact Nat.one_pos
  | succ n ih =>
    have hrest := ih (place + 1)
    have hbit : bitAt bytes.toArray place < 2 := by
      rw [bitAt_eq]
      exact Bool.toNat_lt _
    rw [bitsFrom, Nat.pow_succ]
    omega

/-- A group is a window of the stream. -/
theorem lowBits_bitsFrom (bytes : List UInt8) (place n : Nat) :
    lowBits n (bitsFrom bytes.toArray place n) =
      (List.range n).map fun i => streamBit bytes (place + i) := by
  induction n generalizing place with
  | zero => rfl
  | succ n ih =>
    have hbit : (streamBit bytes place).toNat < 2 := Bool.toNat_lt _
    have hhalf : (bitAt bytes.toArray place + 2 * bitsFrom bytes.toArray (place + 1) n) / 2 =
        bitsFrom bytes.toArray (place + 1) n := by
      rw [bitAt_eq]
      omega
    have hfirst : (bitAt bytes.toArray place + 2 * bitsFrom bytes.toArray (place + 1) n).testBit 0 =
        streamBit bytes place := by
      rw [Nat.testBit_zero, bitAt_eq, Nat.add_mul_mod_self_left, Nat.mod_eq_of_lt hbit]
      cases streamBit bytes place <;> rfl
    rw [bitsFrom, lowBits_succ, hhalf, hfirst, ih, List.range_succ_eq_map, List.map_cons,
      List.map_map]
    congr 1
    refine List.map_congr_left fun i _ => ?_
    rw [Function.comp_apply, Nat.succ_eq_add_one, Nat.add_assoc, Nat.add_comm 1 i]

/-! ### The symbols of a burst -/

/-- The groups of symbol `s`: one for each data carrier, of consecutive bits. -/
def patternsAt (bits carriers : Nat) (bytes : List UInt8) (s : Nat) : List Nat :=
  (List.range carriers).map fun i => bitsFrom bytes.toArray ((s * carriers + i) * bits) bits

/-- The number of symbols with `capacity` bits that bytes fill. -/
def symbolCount (capacity : Nat) (bytes : List UInt8) : Nat :=
  (8 * bytes.length + capacity - 1) / capacity

/-- **The groups of a burst**, symbol by symbol. -/
def patterns (bits carriers : Nat) (bytes : List UInt8) : List (List Nat) :=
  (List.range (symbolCount (carriers * bits) bytes)).map (patternsAt bits carriers bytes)

theorem lt_symbolCount_iff {capacity s : Nat} {bytes : List UInt8} (h : 0 < capacity) :
    s < symbolCount capacity bytes ↔ s * capacity < 8 * bytes.length := by
  rw [symbolCount, Nat.lt_iff_add_one_le, Nat.le_div_iff_mul_le h, Nat.succ_mul]
  omega

theorem length_patternsAt (bits carriers : Nat) (bytes : List UInt8) (s : Nat) :
    (patternsAt bits carriers bytes s).length = carriers := by
  rw [patternsAt, List.length_map, List.length_range]

theorem lt_of_mem_patternsAt {bits carriers s v : Nat} {bytes : List UInt8}
    (h : v ∈ patternsAt bits carriers bytes s) : v < 2 ^ bits := by
  obtain ⟨i, -, rfl⟩ := List.mem_map.1 h
  exact bitsFrom_lt _ _ _

/-- Windows side by side make up a window. -/
theorem flatMap_windows (f : Nat → Bool) (width n place : Nat) :
    (List.range n).flatMap (fun i => (List.range width).map fun j => f (place + i * width + j)) =
      (List.range (n * width)).map fun j => f (place + j) := by
  induction n with
  | zero => simp
  | succ n ih =>
    rw [List.range_succ, List.flatMap_append, ih, Nat.succ_mul, List.range_add, List.map_append,
      List.map_map, List.flatMap_singleton]
    congr 1
    refine List.map_congr_left fun j _ => ?_
    rw [Function.comp_apply, Nat.add_assoc]

/-- One symbol carries a window of the stream. -/
theorem flatMap_patternsAt (bits carriers : Nat) (bytes : List UInt8) (s : Nat) :
    (patternsAt bits carriers bytes s).flatMap (lowBits bits) =
      (List.range (carriers * bits)).map fun j => streamBit bytes (s * (carriers * bits) + j) := by
  rw [patternsAt, List.flatMap_map, ← flatMap_windows]
  refine List.flatMap_congr fun i _ => ?_
  rw [lowBits_bitsFrom, Nat.add_mul, Nat.mul_assoc]

/-- **The groups of the first symbols are the first bits** of the stream. -/
theorem flatMap_patterns (bits carriers : Nat) (bytes : List UInt8) (n : Nat) :
    ((List.range n).flatMap (patternsAt bits carriers bytes)).flatMap (lowBits bits) =
      (List.range (n * (carriers * bits))).map (streamBit bytes) := by
  have hwindows := flatMap_windows (streamBit bytes) (carriers * bits) n 0
  simp only [Nat.zero_add] at hwindows
  rw [List.flatMap_assoc, ← hwindows]
  refine List.flatMap_congr fun s _ => ?_
  exact flatMap_patternsAt bits carriers bytes s

/-! ### The cursor -/

namespace Burst

/-- A burst of these bytes at the start of its symbol `s`, with `capacity` bits to a symbol. -/
structure At (bytes : List UInt8) (capacity s : Nat) (b : Burst) : Prop where
  /-- The bytes that are sent in full are dropped. -/
  bytes_eq : b.bytes = bytes.drop (s * capacity / 8)
  /-- Of the first byte that is left, the bits in front of the symbol are sent. -/
  sent_eq : b.sent = s * capacity % 8
  /-- Only at its first symbol nothing has been sent. -/
  fresh_eq : b.fresh = decide (s = 0)

variable {b : Burst} {bytes : List UInt8} {bits carriers capacity s : Nat}

/-- A burst of a message starts at its first symbol. -/
theorem at_zero (h₁ : b.bytes = bytes) (h₂ : b.sent = 0) (h₃ : b.fresh = true) :
    b.At bytes capacity 0 := by
  refine ⟨?_, ?_, h₃⟩
  · rw [Nat.zero_mul, Nat.zero_div, List.drop_zero, h₁]
  · rw [Nat.zero_mul, Nat.zero_mod, h₂]

theorem bitsFrom_congr {xs ys : Array UInt8} {p q n : Nat}
    (h : ∀ i < n, bitAt xs (p + i) = bitAt ys (q + i)) : bitsFrom xs p n = bitsFrom ys q n := by
  induction n generalizing p q with
  | zero => rfl
  | succ n ih =>
    have hfirst : bitAt xs p = bitAt ys q := h 0 (Nat.succ_pos n)
    rw [bitsFrom, bitsFrom, hfirst]
    congr 2
    refine ih fun i hi => ?_
    have hnext := h (i + 1) (Nat.succ_lt_succ hi)
    rwa [Nat.add_comm i 1, ← Nat.add_assoc, ← Nat.add_assoc] at hnext

/-- **The cursor reads the window of its symbol.** -/
theorem At.groups (h : b.At bytes (carriers * bits) s) :
    b.groups bits carriers = patternsAt bits carriers bytes s := by
  rw [Burst.groups, patternsAt]
  refine List.map_congr_left fun i hi => ?_
  have hlt := List.mem_range.1 hi
  refine bitsFrom_congr fun j hj => ?_
  -- The bits of group `i` lie inside the bytes looked at, and those bytes begin at a whole byte.
  have hinside : i * bits + j < carriers * bits := by
    have hmul := Nat.mul_le_mul_right bits (Nat.succ_le_of_lt hlt)
    rw [Nat.succ_mul] at hmul
    omega
  have hplace : (s * carriers + i) * bits + j = s * (carriers * bits) + (i * bits + j) := by
    rw [Nat.add_mul, Nat.mul_assoc, Nat.add_assoc]
  rw [hplace, ahead, h.bytes_eq, h.sent_eq, bitAt, bitAt, List.getElem?_toArray,
    List.getElem?_toArray]
  generalize s * (carriers * bits) = start
  have hdiv : (start + (i * bits + j)) / 8 = start / 8 + (start % 8 + i * bits + j) / 8 := by omega
  have hmod : (start + (i * bits + j)) % 8 = (start % 8 + i * bits + j) % 8 := by omega
  rw [List.getElem?_take_of_lt (by omega), List.getElem?_drop, hdiv, hmod]

/-- **The cursor moves on** to the next symbol. -/
theorem At.after (h : b.At bytes capacity s) : (b.after capacity).At bytes capacity (s + 1) := by
  have hdiv : s * capacity / 8 + (s * capacity % 8 + capacity) / 8 = (s + 1) * capacity / 8 := by
    rw [Nat.succ_mul]
    omega
  have hmod : (s * capacity % 8 + capacity) % 8 = (s + 1) * capacity % 8 := by
    rw [Nat.succ_mul]
    omega
  refine ⟨?_, ?_, (decide_eq_false (Nat.succ_ne_zero s)).symm⟩
  · rw [Burst.after, h.bytes_eq, h.sent_eq, List.drop_drop, hdiv]
  · rw [Burst.after, h.sent_eq, hmod]

/-- **The cursor is at its end** behind the last symbol. -/
theorem At.isDone (hcapacity : 0 < capacity) (h : b.At bytes capacity s) :
    b.isDone = decide (symbolCount capacity bytes ≤ s) := by
  have hiff : s < symbolCount capacity bytes ↔ s * capacity < 8 * bytes.length :=
    lt_symbolCount_iff hcapacity
  rw [Burst.isDone, h.bytes_eq, Bool.eq_iff_iff, List.isEmpty_iff, List.drop_eq_nil_iff,
    decide_eq_true_iff]
  omega

end Burst

/-! ### Messages -/

/-- A message that does not end the stream, and that a header can describe. -/
def Message.isSendable (m : Message) : Bool :=
  m.type != Message.endOfStream && decide (m.size ≤ FrameHeader.longest) &&
    decide (m.arg1.toUInt8 ≤ 0xF)

/-- The bytes of a message's burst. -/
def Message.frameBytes (m : Message) : List UInt8 :=
  match Burst.ofMessage m with
  | .ok b => b.bytes
  | .error _ => []

namespace Burst

theorem ofMessage_of_isSendable {m : Message} (h : m.isSendable = true) :
    ∃ b, ofMessage m = .ok b := by
  simp only [Message.isSendable, Bool.and_eq_true, decide_eq_true_eq] at h
  obtain ⟨⟨-, hsize⟩, hoffset⟩ := h
  have hheader : FrameHeader.ofParts m.size m.arg1.toUInt8 =
      .ok ⟨UInt16.ofNat m.size, m.arg1.toUInt8⟩ := by
    rw [FrameHeader.ofParts, if_neg (Nat.not_lt.2 hsize), if_neg (UInt8.not_lt.2 hoffset)]
  exact ⟨_, Fault.bind_eq_ok_iff.2 ⟨_, hheader, rfl⟩⟩

theorem isSendable_of_ofMessage {m : Message} {b : Burst} (htype : m.type ≠ Message.endOfStream)
    (h : ofMessage m = .ok b) : m.isSendable = true := by
  obtain ⟨header, hheader, -⟩ := Fault.bind_eq_ok_iff.1 h
  rw [FrameHeader.ofParts] at hheader
  split at hheader
  · cases hheader
  next hsize =>
    split at hheader
    · cases hheader
    next hoffset =>
      simp only [Message.isSendable, Bool.and_eq_true, decide_eq_true_eq, bne_iff_ne]
      exact ⟨⟨htype, Nat.not_lt.1 hsize⟩, UInt8.not_lt.1 hoffset⟩

theorem frameBytes_eq {m : Message} {b : Burst} (h : ofMessage m = .ok b) :
    m.frameBytes = b.bytes := by
  rw [Message.frameBytes, h]

theorem time_of_ofMessage {m : Message} {b : Burst} (h : ofMessage m = .ok b) : b.time = m.time := by
  obtain ⟨header, -, hpure⟩ := Fault.bind_eq_ok_iff.1 h
  cases hpure
  rfl

/-- A burst has a symbol at least, and starts with the first. -/
theorem at_of_ofMessage {m : Message} {b : Burst} (h : ofMessage m = .ok b) {capacity : Nat}
    (hcapacity : 0 < capacity) :
    b.At m.frameBytes capacity 0 ∧ 0 < symbolCount capacity m.frameBytes := by
  have hbytes := frameBytes_eq h
  obtain ⟨header, -, hpure⟩ := Fault.bind_eq_ok_iff.1 h
  cases hpure
  refine ⟨at_zero hbytes.symm rfl rfl, ?_⟩
  rw [lt_symbolCount_iff hcapacity, hbytes, List.length_append, FrameHeader.length_toBytes,
    FrameHeader.size]
  omega

/-- **The bytes of a burst**: the field of the header twice, and the payload. -/
theorem frameBytes_of_isSendable {m : Message} (h : m.isSendable = true) :
    m.payload.length < 4096 ∧ m.arg1.toUInt8.toNat < 16 ∧
      ∃ b₀ b₁, m.frameBytes = b₀ :: b₁ :: b₀ :: b₁ :: m.payload ∧
        FrameHeader.fieldOf b₀ b₁ = m.arg1.toUInt8.toNat * 4096 + m.payload.length := by
  obtain ⟨b, hb⟩ := ofMessage_of_isSendable h
  have hbytes := frameBytes_eq hb
  obtain ⟨header, hheader, hpure⟩ := Fault.bind_eq_ok_iff.1 hb
  cases hpure
  obtain ⟨hlength, hoffset, b₀, b₁, hfour, hfield⟩ := FrameHeader.toBytes_of_ok hheader
  refine ⟨hlength, hoffset, b₀, b₁, ?_, hfield⟩
  rw [hbytes, hfour]
  rfl

end Burst

/-- The number of symbols of a message's burst: as many as the header and the payload fill, with
`capacity` bits to a symbol. -/
def Message.symbols (capacity : Nat) (m : Message) : Nat :=
  (8 * (4 + m.payload.length) + capacity - 1) / capacity

theorem Message.symbols_pos {capacity : Nat} (hcapacity : 0 < capacity) (m : Message) :
    0 < m.symbols capacity := by
  rw [Message.symbols]
  exact Nat.div_pos (by omega) hcapacity

theorem symbolCount_frameBytes (capacity : Nat) {m : Message} (h : m.isSendable = true) :
    symbolCount capacity m.frameBytes = m.symbols capacity := by
  obtain ⟨-, -, b₀, b₁, hbytes, -⟩ := Burst.frameBytes_of_isSendable h
  rw [symbolCount, Message.symbols, hbytes]
  simp only [List.length_cons]
  rw [show m.payload.length + 1 + 1 + 1 + 1 = 4 + m.payload.length by omega]

end OfdmBurst
