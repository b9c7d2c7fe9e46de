import Mathlib.Data.List.Forall2
import OfdmBurst.Proofs.Carrier.Decisions
import OfdmBurst.Proofs.Frame.Bursts
import OfdmBurst.Proofs.Frame.Reception

/-!
# Bursts on the air

Between a sender and a receiver a burst gets company: symbols without a flag may come before it, and
the flagged symbol that begins it stands in front of its own symbols. `Hop` is a burst with this
company. The symbols of the burst arrive as they please, and with any flags. A hop brings a message
if the groups that are decided for them are the groups of the message.

The reference for receivers then finds the frame of the message, and finds it with the last symbol
of the burst. That is arithmetic on the number of completed bytes: the symbols before the last do
not hold all bits of the burst's bytes, and the last one does, with less than a symbol of zeros
behind them.

## Main definitions

* `Hop`, `Hop.air`, `Hop.Brings` — a burst as it is received
* `Message.frame` — the frame a message is received as

## Main results

* `Demapper.completed_of_decided` — the bytes of the first symbols of a burst
* `Hop.Brings.judge_take` — a burst is decided with its last symbol
* `parse_hops`, `parse_hops_burst` — the reference, between bursts and inside of one
-/

namespace OfdmBurst

/-! ### Bytes of the first symbols -/

/-- **The bytes of the first `n` symbols of a burst** are the first bytes of the burst, and zeros
behind its end. -/
theorem Demapper.completed_of_decided {d : Demapper Float32} {map : CarrierMap}
    {xs : List (List Sample)} {bytes : List UInt8} {n : Nat}
    (h : d.decided map xs =
      .ok ((List.range n).map (patternsAt d.constellation.bits map.size bytes)))
    (hpacker : d.packer = .empty) (hbits : d.constellation.bits ≤ 8) (zeros : Nat)
    (hzeros : n * (map.size * d.constellation.bits) ≤ 8 * (bytes.length + zeros)) :
    d.completed map xs = (bytes ++ List.replicate zeros 0).take
      (n * (map.size * d.constellation.bits) / 8) := by
  have hgroups : ∀ v ∈ ((List.range n).map
      (patternsAt d.constellation.bits map.size bytes)).flatten, v < 2 ^ d.constellation.bits := by
    intro v hv
    obtain ⟨groups, hmem, hv⟩ := List.mem_flatten.1 hv
    obtain ⟨s, -, rfl⟩ := List.mem_map.1 hmem
    exact lt_of_mem_patternsAt hv
  obtain ⟨waiting, hwaiting, hout⟩ := bits_completed h hpacker hbits hgroups
  rw [← List.flatMap_def, flatMap_patterns] at hout
  have hall : byteBits (bytes ++ List.replicate zeros 0) =
      (List.range (8 * (bytes.length + zeros))).map (streamBit bytes) := by
    rw [byteBits_eq, List.length_append, List.length_replicate]
    exact List.map_congr_left fun place _ => streamBit_append_zeros bytes zeros place
  have hshort : d.completed map xs <+: bytes ++ List.replicate zeros 0 := by
    refine prefix_of_byteBits ?_
    rw [hall]
    refine (List.prefix_append _ waiting).trans ?_
    rw [hout]
    obtain ⟨k, hk⟩ := Nat.exists_eq_add_of_le hzeros
    rw [hk, List.range_add, List.map_append]
    exact List.prefix_append _ _
  have hlength := congrArg List.length hout
  rw [List.length_append, length_byteBits, List.length_map, List.length_range] at hlength
  have hsize : n * (map.size * d.constellation.bits) / 8 = (d.completed map xs).length := by omega
  rw [hsize]
  exact List.prefix_iff_eq_take.1 hshort

/-- The judgement on the first bytes of a burst, and on all of them with something behind them. -/
theorem judge_take {b₀ b₁ : UInt8} {payload zeros : List UInt8} {offset : Nat}
    (hfield : FrameHeader.fieldOf b₀ b₁ = offset * 4096 + payload.length)
    (hlength : payload.length < 4096) (n : Nat) :
    judge ((b₀ :: b₁ :: b₀ :: b₁ :: payload ++ zeros).take n) =
      if payload.length + 4 ≤ n then some (.frame offset payload) else none := by
  match n with
  | 0 => rfl
  | 1 => rfl
  | 2 => rfl
  | 3 => rfl
  | n + 4 =>
    have hlow : (b₀.toNat * 256 + b₁.toNat) % 4096 = payload.length := by
      rw [FrameHeader.fieldOf] at hfield
      omega
    have hhigh : (b₀.toNat * 256 + b₁.toNat) / 4096 = offset := by
      rw [FrameHeader.fieldOf] at hfield
      omega
    simp only [List.cons_append, List.take_succ_cons, judge, ↓reduceIte, hlow, hhigh]
    by_cases hn : payload.length ≤ n
    · rw [if_pos (by rw [List.length_take, List.length_append]; omega), if_pos (by omega),
        List.take_take, Nat.min_eq_left hn, List.take_left]
    · rw [if_neg (by rw [List.length_take]; omega), if_neg (by omega)]

/-! ### Hops -/

/-- The frame a message is received as, if a symbol has `capacity` bits. -/
def Message.frame (capacity : Nat) (m : Message) : Frame where
  offset := m.arg1.toUInt8.toNat
  payload := m.payload
  symbols := symbolCount capacity m.frameBytes

/-- A burst as it is received: symbols in front of it, the flagged symbol that begins it, and its
own symbols. -/
structure Hop where
  gap : List Reception
  sync : Reception
  burst : List Reception

namespace Hop

/-- All symbols of a hop. -/
def air (h : Hop) : List Reception := h.gap ++ h.sync :: h.burst

/-- **A hop brings a message** if the groups that a fresh demapper decides for the symbols of the
burst are the groups of the message. -/
structure Brings (map : CarrierMap) (fresh : Demapper Float32) (m : Message) (h : Hop) : Prop where
  /-- Nothing in front of the burst is flagged. -/
  gap : ∀ r ∈ h.gap, r.flagged = false
  /-- The symbol that begins it is. -/
  sync : h.sync.flagged = true
  /-- Its own symbols are decided for the groups of the message. -/
  decided : fresh.decided map (h.burst.map Reception.symbol) =
    .ok (patterns fresh.constellation.bits map.size m.frameBytes)

variable {map : CarrierMap} {fresh : Demapper Float32} {m : Message} {h : Hop}

theorem Brings.length_eq (hb : h.Brings map fresh m) :
    h.burst.length = symbolCount (map.size * fresh.constellation.bits) m.frameBytes := by
  have hlength := Demapper.length_decided hb.decided
  rw [patterns, List.length_map, List.length_range, List.length_map] at hlength
  exact hlength.symm

/-- **A burst is decided with its last symbol.** -/
theorem Brings.judge_take (hb : h.Brings map fresh m) (hm : m.isSendable = true)
    (hpacker : fresh.packer = .empty) (hbits : 0 < fresh.constellation.bits)
    (hbits' : fresh.constellation.bits ≤ 8) {n : Nat} (hn : n ≤ h.burst.length) :
    judge (fresh.completed map ((h.burst.take n).map Reception.symbol)) =
      if n = h.burst.length then some (.frame m.arg1.toUInt8.toNat m.payload) else none := by
  have hcapacity : 0 < map.size * fresh.constellation.bits := Nat.mul_pos map.size_pos hbits
  obtain ⟨hlength, -, b₀, b₁, hbytes, hfield⟩ := Burst.frameBytes_of_isSendable hm
  have hdecided := Demapper.decided_take hb.decided n
  rw [patterns, ← List.map_take, ← List.map_take, List.take_range, ← hb.length_eq,
    Nat.min_eq_left hn] at hdecided
  have hlt : n < symbolCount (map.size * fresh.constellation.bits) m.frameBytes ↔
      n * (map.size * fresh.constellation.bits) < 8 * m.frameBytes.length :=
    lt_symbolCount_iff hcapacity
  rw [← hb.length_eq] at hlt
  have hfour : m.frameBytes.length = m.payload.length + 4 := by
    rw [hbytes]
    simp only [List.length_cons]
  rw [Demapper.completed_of_decided hdecided hpacker hbits'
    (n * (map.size * fresh.constellation.bits)) (by omega), hbytes,
    OfdmBurst.judge_take hfield hlength]
  by_cases hlast : n = h.burst.length
  · rw [if_pos hlast, if_pos (by omega)]
  · rw [if_neg hlast, if_neg (by omega)]

end Hop

/-! ### The reference over hops -/

variable {map : CarrierMap} {fresh : Demapper Float32}

/-- Nothing happens between bursts. -/
theorem foldl_unflagged {policy : MissingTagPolicy} {p : Parse} (hp : p.burst = none)
    {receptions : List Reception} (h : ∀ r ∈ receptions, r.flagged = false) :
    receptions.foldl (Parse.next policy map fresh) p = p := by
  induction receptions with
  | nil => rfl
  | cons r rest ih =>
    have hsame : p.next policy map fresh r = p := by
      rw [Parse.next, hp]
      simp only [h r List.mem_cons_self, Bool.false_and, Bool.false_eq_true, ↓reduceIte]
    rw [List.foldl_cons, hsame]
    exact ih fun r' hr' => h r' (List.mem_cons_of_mem _ hr')

/-- In front of its last symbol a burst goes on, and there it ends with the frame of its message. -/
theorem Hop.Brings.foldl_burst {m : Message} {hop : Hop} (hb : hop.Brings map fresh m)
    (hm : m.isSendable = true) (hpacker : fresh.packer = .empty)
    (hbits : 0 < fresh.constellation.bits) (hbits' : fresh.constellation.bits ≤ 8)
    (policy : MissingTagPolicy) (frames : List Frame) {n : Nat} (hn : n ≤ hop.burst.length) :
    (hop.burst.take n).foldl (Parse.next policy map fresh) ⟨some [], frames⟩ =
      if n = hop.burst.length then
        ⟨none, frames ++ [m.frame (map.size * fresh.constellation.bits)]⟩
      else ⟨some ((hop.burst.take n).map Reception.symbol), frames⟩ := by
  have hlength := hb.length_eq
  induction n with
  | zero =>
    have hcapacity : 0 < map.size * fresh.constellation.bits := Nat.mul_pos map.size_pos hbits
    obtain ⟨b, hb⟩ := Burst.ofMessage_of_isSendable hm
    have hpos := (Burst.at_of_ofMessage hb hcapacity).2
    rw [if_neg (by omega)]
    rfl
  | succ n ih =>
    have hlt : n < hop.burst.length := hn
    have hsymbols : (hop.burst.take n).map Reception.symbol ++ [hop.burst[n].symbol] =
        (hop.burst.take (n + 1)).map Reception.symbol := by
      rw [← List.take_append_getElem hlt, List.map_append]
      rfl
    rw [← List.take_append_getElem hlt, List.foldl_append, ih (Nat.le_of_lt hlt),
      if_neg (Nat.ne_of_lt hlt), List.take_append_getElem hlt]
    simp only [List.foldl_cons, List.foldl_nil, Parse.next, hsymbols,
      hb.judge_take hm hpacker hbits hbits' hn]
    by_cases hlast : n + 1 = hop.burst.length
    · have hframe : m.frame (map.size * fresh.constellation.bits) =
          ⟨m.arg1.toUInt8.toNat, m.payload,
            ((hop.burst.take (n + 1)).map Reception.symbol).length⟩ := by
        rw [List.length_map, List.length_take, Nat.min_eq_left hn, hlast, hlength]
        rfl
      simp only [if_pos hlast, hframe]
    · simp only [if_neg hlast]

/-- A hop in front of which nothing was going on. -/
theorem Hop.Brings.foldl_air {m : Message} {hop : Hop} (hb : hop.Brings map fresh m)
    (frames : List Frame) (n : Nat) :
    (hop.gap ++ hop.sync :: hop.burst.take n).foldl (Parse.next .keep map fresh) ⟨none, frames⟩ =
      (hop.burst.take n).foldl (Parse.next .keep map fresh) ⟨some [], frames⟩ := by
  rw [List.foldl_append, foldl_unflagged rfl hb.gap, List.foldl_cons]
  simp only [Parse.next, hb.sync, MissingTagPolicy.accepts, Bool.and_self, ↓reduceIte]

section Hops

variable {messages : List Message} {hops : List Hop}
  (hhops : List.Forall₂ (fun m hop => hop.Brings map fresh m) messages hops)
  (hmessages : ∀ m ∈ messages, m.isSendable = true) (hpacker : fresh.packer = .empty)
  (hbits : 0 < fresh.constellation.bits) (hbits' : fresh.constellation.bits ≤ 8)

include hhops hmessages hpacker hbits hbits'

theorem foldl_hops (frames : List Frame) :
    (hops.flatMap Hop.air).foldl (Parse.next .keep map fresh) ⟨none, frames⟩ =
      ⟨none, frames ++ messages.map (Message.frame (map.size * fresh.constellation.bits))⟩ := by
  induction hhops generalizing frames with
  | nil => rw [List.map_nil, List.append_nil]; rfl
  | @cons m hop _ _ hb _ ih =>
    have hfirst : hop.air.foldl (Parse.next .keep map fresh) ⟨none, frames⟩ =
        ⟨none, frames ++ [m.frame (map.size * fresh.constellation.bits)]⟩ := by
      have hall := hb.foldl_air frames hop.burst.length
      rw [hb.foldl_burst (hmessages m List.mem_cons_self) hpacker hbits hbits' .keep frames
        (Nat.le_refl _), if_pos rfl, List.take_length] at hall
      exact hall
    rw [List.flatMap_cons, List.foldl_append, hfirst,
      ih (fun m' hm' => hmessages m' (List.mem_cons_of_mem _ hm')), List.append_assoc,
      List.map_cons, List.singleton_append]

/-- **Between bursts** the reference has found the frames of the messages so far. -/
theorem parse_hops {gap : List Reception} (hgap : ∀ r ∈ gap, r.flagged = false) :
    parse .keep map fresh (hops.flatMap Hop.air ++ gap) =
      ⟨none, messages.map (Message.frame (map.size * fresh.constellation.bits))⟩ := by
  rw [parse, List.foldl_append, foldl_hops hhops hmessages hpacker hbits hbits',
    foldl_unflagged rfl hgap, List.nil_append]

/-- **Inside of a burst** the frames of the messages before it, and with its last symbol its own. -/
theorem parse_hops_burst {m : Message} {hop : Hop} (hb : hop.Brings map fresh m)
    (hm : m.isSendable = true) {n : Nat} (hn : n ≤ hop.burst.length) :
    parse .keep map fresh (hops.flatMap Hop.air ++ (hop.gap ++ hop.sync :: hop.burst.take n)) =
      if n = hop.burst.length then
        ⟨none, (messages ++ [m]).map (Message.frame (map.size * fresh.constellation.bits))⟩
      else
        ⟨some ((hop.burst.take n).map Reception.symbol),
          messages.map (Message.frame (map.size * fresh.constellation.bits))⟩ := by
  rw [parse, List.foldl_append, foldl_hops hhops hmessages hpacker hbits hbits', List.nil_append,
    hb.foldl_air, hb.foldl_burst hm hpacker hbits hbits' .keep _ hn, List.map_append]
  rfl

end Hops

end OfdmBurst
