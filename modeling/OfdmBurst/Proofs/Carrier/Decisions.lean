import OfdmBurst.Proofs.Carrier.Bits
import OfdmBurst.Proofs.Carrier.Demapping

/-!
# Decisions and bytes

Which point a carrier is decided for depends on what a demapper has learnt from the symbols before:
on the phase it tracks and on the tap of the carrier. `Demapper.slice` is the outcome of these
decisions for one symbol, as a group of bits for each data carrier, and `Demapper.decided` for
symbols that follow one another.

Everything behind the decisions is packing. So what a demapper completes is known once the groups
are known, whatever was received, and whatever the tracking has made of it.

## Main definitions

* `Demapper.slice`, `Demapper.decided` — the groups that were decided

## Main results

* `Demapper.along_of_decided` — the bytes of symbols are their groups, packed
* `Demapper.decided_take` — fewer symbols
-/

namespace OfdmBurst

namespace Demapper

/-- The groups decided for the data carriers of one symbol. -/
def slice (d : Demapper Float32) (map : CarrierMap) (symbol : List Sample) :
    Except Fault (List Nat) := do
  let carriers ← carriersOf symbol d.taps map
  return carriers.map fun (received, tap) =>
    (decideOne d.constellation d.gains.equalizer (Phasor.turn d.phase) received tap).value.toNat

/-- The groups decided for symbols, one after the other. -/
def decided (d : Demapper Float32) (map : CarrierMap) :
    List (List Sample) → Except Fault (List (List Nat))
  | [] => .ok []
  | x :: rest => do
    let groups ← d.slice map x
    let (next, _) ← d.demap (σ := Float) map x
    let more ← next.decided map rest
    return groups :: more

variable {d e : Demapper Float32} {map : CarrierMap}

/-- A symbol is demapped to its groups, packed. -/
theorem demap_of_slice {x : List Sample} {groups : List Nat} {report : SymbolReport Float32 Float}
    (hslice : d.slice map x = .ok groups) (h : d.demap map x = .ok (e, report)) :
    (report.bytes, e.packer) = d.packer.placeAll d.constellation.bits groups := by
  obtain ⟨carriers, hcarriers, hgroups⟩ := Fault.bind_eq_ok_iff.1 hslice
  cases hgroups
  rw [demap, hcarriers] at h
  cases h
  rw [List.map_map]
  rfl

/-- **The bytes of symbols are their groups, packed.** -/
theorem along_of_decided {xs : List (List Sample)} {groups : List (List Nat)}
    (h : d.decided map xs = .ok groups) :
    ∃ e bytes, d.along map xs = .ok (e, bytes) ∧
      (bytes, e.packer) = d.packer.placeAll d.constellation.bits groups.flatten := by
  induction xs generalizing d groups with
  | nil =>
    cases h
    exact ⟨d, [], rfl, rfl⟩
  | cons x rest ih =>
    simp only [decided, Fault.bind_eq_ok_iff, Fault.pure_eq_ok_iff] at h
    obtain ⟨first, hfirst, ⟨next, report⟩, hdemap, more, hmore, rfl⟩ := h
    obtain ⟨e, bytes, halong, hpacked⟩ := ih hmore
    obtain ⟨hconstellation, -⟩ := demap_frame hdemap
    have hone := demap_of_slice hfirst hdemap
    refine ⟨e, report.bytes ++ bytes, ?_, ?_⟩
    · exact Fault.bind_eq_ok_iff.2 ⟨_, hdemap, Fault.bind_eq_ok_iff.2 ⟨_, halong, rfl⟩⟩
    · rw [hconstellation] at hpacked
      rw [List.flatten_cons, BitPacker.placeAll_append, ← hone, ← hpacked]

theorem decided_take {xs : List (List Sample)} {groups : List (List Nat)}
    (h : d.decided map xs = .ok groups) (n : Nat) :
    d.decided map (xs.take n) = .ok (groups.take n) := by
  induction xs generalizing d groups n with
  | nil =>
    cases h
    rw [List.take_nil, List.take_nil]
    rfl
  | cons x rest ih =>
    simp only [decided, Fault.bind_eq_ok_iff, Fault.pure_eq_ok_iff] at h
    obtain ⟨first, hfirst, next, hdemap, more, hmore, rfl⟩ := h
    cases n with
    | zero => rfl
    | succ n =>
      exact Fault.bind_eq_ok_iff.2 ⟨first, hfirst, Fault.bind_eq_ok_iff.2 ⟨next, hdemap,
        Fault.bind_eq_ok_iff.2 ⟨_, ih hmore n, rfl⟩⟩⟩

theorem length_decided {xs : List (List Sample)} {groups : List (List Nat)}
    (h : d.decided map xs = .ok groups) : groups.length = xs.length := by
  induction xs generalizing d groups with
  | nil =>
    cases h
    rfl
  | cons x rest ih =>
    simp only [decided, Fault.bind_eq_ok_iff, Fault.pure_eq_ok_iff] at h
    obtain ⟨first, -, next, -, more, hmore, rfl⟩ := h
    rw [List.length_cons, List.length_cons, ih hmore]

/-- The bits of the completed bytes, and those that wait, are the bits of the groups. -/
theorem bits_completed {xs : List (List Sample)} {groups : List (List Nat)}
    (h : d.decided map xs = .ok groups) (hpacker : d.packer = .empty)
    (hbits : d.constellation.bits ≤ 8)
    (hgroups : ∀ v ∈ groups.flatten, v < 2 ^ d.constellation.bits) :
    ∃ waiting : List Bool, waiting.length < 8 ∧
      byteBits (d.completed map xs) ++ waiting =
        groups.flatten.flatMap (lowBits d.constellation.bits) := by
  obtain ⟨e, bytes, halong, hpacked⟩ := along_of_decided h
  obtain ⟨hsettled, hout⟩ := BitPacker.bits_placeAll BitPacker.settled_empty hbits hgroups
  rw [hpacker] at hpacked
  rw [← hpacked] at hsettled hout
  exact ⟨e.packer.pending, BitPacker.length_pending_lt hsettled, by
    rw [completed_eq halong]
    exact hout⟩

end Demapper

end OfdmBurst
