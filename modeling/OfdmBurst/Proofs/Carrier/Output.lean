import Mathlib.Algebra.GroupWithZero.Nat
import OfdmBurst.Proofs.Carrier.Constellation
import OfdmBurst.Proofs.Carrier.Demapping
import OfdmBurst.Proofs.Carrier.Packing
import OfdmBurst.Proofs.Stream.Items

/-!
# What a demapper puts out

A demapper is called for one symbol after the other, and each time it is told the map. The bytes it
completes go behind those that are there already, and each call counts its own. A byte that is begun
in one call may be completed in a later one, so what a call adds depends on all the calls before.

What it depends on is little: how many bits wait. The groups that were decided are one string of
bits from the first call to the last, and the bytes are cut off its front. `Demapper.puts_out` says
that of every run of calls behind a reset, for every constellation that can be built.

## Scope

The bytes of one burst are in `Demapper.along_of_decided` already, where all symbols have one map
and the packer is the one of the program. Here the map may change from call to call, the groups are
read off what a call shows, and the loops are those of a machine, with a list that grows and a
counter that starts at zero in each call.

## Main definitions

* `BitPacker.packOnto`, `Demapper.demapOnto` — packing and demapping behind what is there
* `Demapper.Call`, `Demapper.through`, `Demapper.onto` — calls one after the other
* `SymbolReport.groups` — what was decided, in the order of the map

## Main results

* `Demapper.through_returns_iff` — the calls that lead to a result
* `Demapper.through_bits` — bits in, bits out, over any number of calls
* `Demapper.puts_out` — the bytes of calls behind a reset
-/

namespace OfdmBurst

/-! ### Packing behind other bytes -/

namespace BitPacker

/-- Pack all groups, a byte in each round. Completed bytes go behind `out`, and `count` counts
them. -/
def packOnto (bits : Nat) : (rounds : Nat) → BitPacker → (out : List UInt8) → (count : Nat) →
    List Nat → Except Fault (BitPacker × List UInt8 × Nat)
  | _, b, out, count, [] => .ok (b, out, count)
  | 0, _, _, _, _ :: _ => .error .broken
  | rounds + 1, b, out, count, v :: rest => do
    let (b, left) ← fillByte bits b.merged (v :: rest)
    match b.flush with
    | (some byte, b) => packOnto bits rounds b (out ++ [byte]) (count + 1) left
    | (none, b) => packOnto bits rounds b out count left

/-- What was there stays, and the counter goes up by what is added. -/
theorem packOnto_of_pack {bits rounds : Nat} {b e : BitPacker} {values : List Nat}
    {bytes : List UInt8} (h : pack bits rounds b values = .ok (bytes, e)) (out : List UInt8)
    (count : Nat) :
    packOnto bits rounds b out count values = .ok (e, out ++ bytes, count + bytes.length) := by
  induction rounds generalizing b values bytes out count with
  | zero =>
    cases values with
    | nil =>
      cases h
      rw [packOnto, List.append_nil, List.length_nil, Nat.add_zero]
    | cons v rest => cases h
  | succ rounds ih =>
    cases values with
    | nil =>
      cases h
      rw [packOnto, List.append_nil, List.length_nil, Nat.add_zero]
    | cons v rest =>
      rw [pack, Fault.bind_eq_ok_iff] at h
      obtain ⟨⟨c, left⟩, hfill, h⟩ := h
      refine Fault.bind_eq_ok_iff.2 ⟨(c, left), hfill, ?_⟩
      dsimp only at h ⊢
      generalize c.flush = flushed at h ⊢
      obtain ⟨done, next⟩ := flushed
      obtain ⟨⟨more, last⟩, hmore, h⟩ := Fault.bind_eq_ok_iff.1 h
      cases h
      cases done with
      | none => exact ih hmore out count
      | some byte =>
        have hstep := ih hmore (out ++ [byte]) (count + 1)
        rw [List.append_assoc, Nat.add_assoc, Nat.add_comm 1] at hstep
        exact hstep

end BitPacker

/-! ### One call -/

/-- The groups that were decided, in the order of the map. -/
def SymbolReport.groups (c : Constellation Float32) (r : SymbolReport Float32 Float) : List Nat :=
  r.derotated.map fun x => (c.valueAt (c.nearest x)).toNat

namespace Demapper

/-- A call: the map, and a symbol. -/
structure Call where
  map : CarrierMap
  symbol : List Sample

/-- There is a value on every carrier of the map, and there is a tap for each. -/
def Call.Fits (call : Call) (taps : Nat) : Prop :=
  call.map.size ≤ taps ∧ ∀ k ∈ call.map.carriers, k < call.symbol.length

instance (call : Call) (taps : Nat) : Decidable (call.Fits taps) :=
  inferInstanceAs (Decidable (_ ∧ _))

/-- What is decided for the carriers of a symbol. -/
def decisionsOf (d : Demapper Float32) (carriers : List (Sample × Sample)) :
    List (Decision d.constellation) :=
  carriers.map fun (received, tap) =>
    decideOne d.constellation d.gains.equalizer (Phasor.turn d.phase) received tap

/-- The demapper after a symbol, with what is left to pack. -/
def adapted (d : Demapper Float32) (decisions : List (Decision d.constellation))
    (packer : BitPacker) : Demapper Float32 :=
  { d.track (sum (· + ·) Phasor.zero (fun x => x.turned * x.point.conj) decisions).angle with
    taps := decisions.map (·.tap) ++ d.taps.drop decisions.length
    packer }

/-- Demap one symbol with the loops of a machine. Completed bytes go behind `out`, and they are
counted from zero. -/
def demapOnto (d : Demapper Float32) (call : Call) (out : List UInt8) :
    Except Fault (Demapper Float32 × List UInt8 × Nat) := do
  let decisions := d.decisionsOf (← carriersOf call.symbol d.taps call.map)
  let (packer, out, count) ← d.packer.packOnto d.constellation.bits decisions.length out 0
    (decisions.map fun x => x.value.toNat)
  return (d.adapted decisions packer, out, count)

variable {d e : Demapper Float32} {call : Call} {report : SymbolReport Float32 Float}

/-- A symbol is decided, and the decisions are packed. -/
theorem demap_cases (h : d.demap call.map call.symbol = .ok (e, report)) :
    ∃ carriers, carriersOf call.symbol d.taps call.map = .ok carriers ∧
      ∃ packer, d.packer.placeAll d.constellation.bits
          ((d.decisionsOf carriers).map fun x => x.value.toNat) = (report.bytes, packer) ∧
        e = d.adapted (d.decisionsOf carriers) packer ∧
        report = Demapper.report report.bytes (d.decisionsOf carriers) := by
  obtain ⟨carriers, hcarriers, h⟩ := Fault.bind_eq_ok_iff.1 h
  cases h
  exact ⟨carriers, hcarriers, _, rfl, rfl, rfl⟩

/-- A decision is for the nearest point, so what a call shows tells what it has decided. -/
theorem groups_report (carriers : List (Sample × Sample)) (bytes : List UInt8) :
    (Demapper.report bytes (d.decisionsOf carriers) : SymbolReport Float32 Float).groups
        d.constellation =
      (d.decisionsOf carriers).map fun x => x.value.toNat := by
  rw [SymbolReport.groups, Demapper.report, decisionsOf, List.map_map, List.map_map, List.map_map]
  rfl

theorem groups_lt {c : Constellation Float32} (hc : c.Valid) (report : SymbolReport Float32 Float) :
    ∀ v ∈ report.groups c, v < 2 ^ c.bits := by
  intro v hv
  obtain ⟨x, -, rfl⟩ := List.mem_map.1 hv
  exact hc.valueAt_lt _

/-- **Bits in, bits out, in one call.** -/
theorem demap_bits (hc : d.constellation.Valid) (hp : d.packer.Settled)
    (h : d.demap call.map call.symbol = .ok (e, report)) :
    e.packer.Settled ∧ byteBits report.bytes ++ e.packer.pending =
      d.packer.pending ++ (report.groups d.constellation).flatMap (lowBits d.constellation.bits) := by
  have hgroups := groups_lt hc report
  obtain ⟨carriers, -, packer, hplaced, rfl, hreport⟩ := demap_cases h
  rw [hreport, groups_report] at hgroups ⊢
  have hbits := BitPacker.bits_placeAll hp hc.bits_le hgroups
  rw [hplaced] at hbits
  exact hbits

/-- The loops of a machine demap as the program does, behind what is there. -/
theorem demapOnto_of_demap (hc : d.constellation.Valid) (hp : d.packer.Settled)
    (h : d.demap call.map call.symbol = .ok (e, report)) (out : List UInt8) :
    d.demapOnto call out = .ok (e, out ++ report.bytes, report.bytes.length) := by
  have hgroups := groups_lt hc report
  obtain ⟨carriers, hcarriers, packer, hplaced, rfl, hreport⟩ := demap_cases h
  rw [hreport, groups_report] at hgroups
  have hpack := BitPacker.pack_eq_placeAll hp hc.bits_le hgroups (Nat.le_of_eq (List.length_map _))
  rw [hplaced] at hpack
  have honto := BitPacker.packOnto_of_pack hpack out 0
  rw [Nat.zero_add] at honto
  exact Fault.bind_eq_ok_iff.2 ⟨carriers, hcarriers, Fault.bind_eq_ok_iff.2 ⟨_, honto, rfl⟩⟩

/-- **A call leads to a result if it fits, and only then.** -/
theorem demap_returns_iff (d : Demapper Float32) (call : Call) :
    (∃ e, ∃ report : SymbolReport Float32 Float, d.demap call.map call.symbol = .ok (e, report)) ↔
      call.Fits d.taps.length := by
  refine ⟨?_, fun hfits => demap_returns hfits.2 hfits.1⟩
  rintro ⟨e, report, h⟩
  obtain ⟨carriers, hcarriers, -⟩ := demap_cases h
  refine ⟨(length_carriersOf hcarriers).2, fun k hk => ?_⟩
  obtain ⟨received, hreceived, -⟩ := Fault.bind_eq_ok_iff.1 hcarriers
  obtain ⟨x, hx⟩ := Fault.ok_of_mapM hreceived k hk
  rw [List.getElem?_toArray] at hx
  exact Nat.lt_of_not_le fun hle => by
    rw [List.getElem?_eq_none hle] at hx
    cases hx

/-! ### Calls one after the other -/

/-- Demap symbols one after the other, each with its own map, and keep what each shows. -/
def through (d : Demapper Float32) :
    List Call → Except Fault (Demapper Float32 × List (SymbolReport Float32 Float))
  | [] => .ok (d, [])
  | call :: rest => do
    let (next, report) ← d.demap call.map call.symbol
    let (last, reports) ← next.through rest
    return (last, report :: reports)

/-- The same with the loops of a machine, behind what is there, and with the count of each call. -/
def onto (d : Demapper Float32) (out : List UInt8) :
    List Call → Except Fault (Demapper Float32 × List UInt8 × List Nat)
  | [] => .ok (d, out, [])
  | call :: rest => do
    let (next, out, count) ← d.demapOnto call out
    let (last, out, counts) ← next.onto out rest
    return (last, out, count :: counts)

variable {calls : List Call} {reports : List (SymbolReport Float32 Float)}

theorem through_cons (h : d.through (call :: calls) = .ok (e, reports)) :
    ∃ next report more, d.demap call.map call.symbol = .ok (next, report) ∧
      next.through calls = .ok (e, more) ∧ reports = report :: more := by
  obtain ⟨⟨next, report⟩, hcall, h⟩ := Fault.bind_eq_ok_iff.1 h
  obtain ⟨⟨last, more⟩, hmore, h⟩ := Fault.bind_eq_ok_iff.1 h
  cases h
  exact ⟨next, report, more, hcall, hmore, rfl⟩

/-- **Calls lead to a result if all of them fit**, and only then. -/
theorem through_returns_iff (d : Demapper Float32) (calls : List Call) :
    (∃ e reports, d.through calls = .ok (e, reports)) ↔ ∀ call ∈ calls, call.Fits d.taps.length := by
  induction calls generalizing d with
  | nil => exact ⟨fun _ call hcall => absurd hcall List.not_mem_nil, fun _ => ⟨d, [], rfl⟩⟩
  | cons call rest ih =>
    rw [List.forall_mem_cons, ← demap_returns_iff]
    constructor
    · rintro ⟨e, reports, h⟩
      obtain ⟨next, report, more, hcall, hmore, -⟩ := through_cons h
      obtain ⟨-, -, htaps, -⟩ := demap_frame hcall
      exact ⟨⟨next, report, hcall⟩, htaps ▸ (ih next).1 ⟨e, more, hmore⟩⟩
    · rintro ⟨⟨next, report, hcall⟩, hrest⟩
      obtain ⟨-, -, htaps, -⟩ := demap_frame hcall
      obtain ⟨e, more, hmore⟩ := (ih next).2 (htaps ▸ hrest)
      exact ⟨e, report :: more,
        Fault.bind_eq_ok_iff.2 ⟨_, hcall, Fault.bind_eq_ok_iff.2 ⟨_, hmore, rfl⟩⟩⟩

/-- **Bits in, bits out, over any number of calls.** -/
theorem through_bits (hc : d.constellation.Valid) (hp : d.packer.Settled)
    (h : d.through calls = .ok (e, reports)) :
    e.packer.Settled ∧ byteBits (reports.flatMap (·.bytes)) ++ e.packer.pending =
      d.packer.pending ++
        (reports.flatMap (·.groups d.constellation)).flatMap (lowBits d.constellation.bits) := by
  induction calls generalizing d reports with
  | nil =>
    cases h
    exact ⟨hp, (List.append_nil _).symm⟩
  | cons call rest ih =>
    obtain ⟨next, report, more, hcall, hmore, rfl⟩ := through_cons h
    obtain ⟨hconstellation, -⟩ := demap_frame hcall
    obtain ⟨hsettled, hone⟩ := demap_bits hc hp hcall
    rw [← hconstellation] at hc hone ⊢
    obtain ⟨hlast, hbits⟩ := ih hc hsettled hmore
    refine ⟨hlast, ?_⟩
    rw [List.flatMap_cons, byteBits_append, List.append_assoc, hbits, ← List.append_assoc, hone,
      List.append_assoc, List.flatMap_cons, List.flatMap_append]

/-- Each call puts its bytes behind those of the calls before, and counts them. -/
theorem onto_of_through (hc : d.constellation.Valid) (hp : d.packer.Settled)
    (h : d.through calls = .ok (e, reports)) (out : List UInt8) :
    d.onto out calls =
      .ok (e, out ++ reports.flatMap (·.bytes), reports.map (·.bytes.length)) := by
  induction calls generalizing d reports out with
  | nil =>
    cases h
    rw [onto, List.flatMap_nil, List.append_nil, List.map_nil]
  | cons call rest ih =>
    obtain ⟨next, report, more, hcall, hmore, rfl⟩ := through_cons h
    obtain ⟨hconstellation, -⟩ := demap_frame hcall
    obtain ⟨hsettled, -⟩ := demap_bits hc hp hcall
    have hone := demapOnto_of_demap hc hp hcall out
    have hrest := ih (hconstellation ▸ hc) hsettled hmore (out ++ report.bytes)
    rw [List.flatMap_cons, ← List.append_assoc]
    exact Fault.bind_eq_ok_iff.2 ⟨_, hone, Fault.bind_eq_ok_iff.2 ⟨_, hrest, rfl⟩⟩

/-- There is a decision for each carrier of each map. -/
theorem length_groups_through (c : Constellation Float32) (h : d.through calls = .ok (e, reports)) :
    (reports.flatMap (·.groups c)).length = (calls.map (·.map.size)).sum := by
  induction calls generalizing d reports with
  | nil =>
    cases h
    rfl
  | cons call rest ih =>
    obtain ⟨next, report, more, hcall, hmore, rfl⟩ := through_cons h
    obtain ⟨-, -, -, hsize⟩ := demap_frame hcall
    rw [List.flatMap_cons, List.length_append, ih hmore, List.map_cons, List.sum_cons,
      SymbolReport.groups, List.length_map, hsize]

/-- **What a demapper puts out behind a reset.** Of the groups that were decided so far, in the
order of the maps, as many bytes are there as their bits are enough for, the low bits first. The
bits behind them are those of the open byte, or of the residue if the byte is empty. Each call
counts the bytes it adds. -/
theorem puts_out {points : List Sample} {values : List UInt8} {c : Constellation Float32}
    (hc : Constellation.ofTables points values = .ok c) (hd : d.constellation = c)
    (calls : List Call) :
    (0 < c.bits ∧ c.bits ≤ 8) ∧
    ((∃ e reports, d.reset.through calls = .ok (e, reports)) ↔
      ∀ call ∈ calls, call.Fits d.taps.length) ∧
    ∀ e reports, d.reset.through calls = .ok (e, reports) → ∀ out,
      d.reset.onto out calls =
        .ok (e, out ++ reports.flatMap (·.bytes), reports.map (·.bytes.length)) ∧
      (reports.flatMap (·.bytes)).length = (calls.map (·.map.size)).sum * c.bits / 8 ∧
      byteBits (reports.flatMap (·.bytes)) ++ e.packer.pending =
        (reports.flatMap (·.groups c)).flatMap (lowBits c.bits) ∧
      e.packer.Settled := by
  have hvalid := Constellation.valid_of_ofTables hc
  subst hd
  have htaps : d.reset.taps.length = d.taps.length := List.length_replicate
  refine ⟨⟨hvalid.bits_pos, hvalid.bits_le⟩, htaps ▸ through_returns_iff d.reset calls, ?_⟩
  intro e reports h out
  have hsettled : d.reset.packer.Settled := BitPacker.settled_empty
  obtain ⟨hlast, hbits⟩ := through_bits (d := d.reset) hvalid hsettled h
  refine ⟨onto_of_through (d := d.reset) hvalid hsettled h out, ?_, hbits, hlast⟩
  have hlength := congrArg List.length hbits
  rw [List.length_append, List.length_append, length_byteBits,
    length_flatMap_of_length fun v _ => length_lowBits _ v, length_groups_through _ h] at hlength
  have hwaiting := BitPacker.length_pending_lt hlast
  have hnone : d.reset.packer.pending.length = 0 := rfl
  have hconstellation : d.reset.constellation = d.constellation := rfl
  rw [hnone, hconstellation] at hlength
  omega

/-- Five points, so three bits to a carrier. -/
def fivePoints : Constellation Float32 where
  points := [⟨1, 0⟩, ⟨0, 1⟩, ⟨-1, 0⟩, ⟨0, -1⟩, ⟨0, 0⟩]
  values := [0, 1, 3, 2, 6]
  length_eq := rfl
  points_ne := List.cons_ne_nil _ _

/-- Three symbols with three, two and four data carriers. -/
def changingMaps : List Call :=
  [⟨⟨[0, 1, 2], 4, by decide, by decide⟩, [⟨1, 0⟩, ⟨0, 1⟩, ⟨0, 0⟩, ⟨1, 1⟩]⟩,
    ⟨⟨[3, 1], 4, by decide, by decide⟩, [⟨0, 0⟩, ⟨-1, 0⟩, ⟨0, 0⟩, ⟨0, -1⟩]⟩,
    ⟨⟨[0, 1, 2, 3], 4, by decide, by decide⟩, [⟨1, 0⟩, ⟨1, 0⟩, ⟨0, 1⟩, ⟨0, 1⟩]⟩]

/-- Nine groups of three bits are three bytes, and three bits wait. -/
theorem puts_out_changingMaps :
    Constellation.ofTables fivePoints.points fivePoints.values = .ok fivePoints ∧
      (∀ call ∈ changingMaps, call.Fits 4) ∧
      ∃ e reports, (start fivePoints 4 ⟨0, 0, 0⟩).reset.through changingMaps = .ok (e, reports) ∧
        (reports.flatMap (·.bytes)).length = 3 ∧
        byteBits (reports.flatMap (·.bytes)) ++ e.packer.pending =
          (reports.flatMap (·.groups fivePoints)).flatMap (lowBits 3) := by
  have htables : Constellation.ofTables fivePoints.points fivePoints.values = .ok fivePoints := rfl
  have hfits : ∀ call ∈ changingMaps, call.Fits 4 := by decide
  obtain ⟨-, hreturns, hall⟩ :=
    puts_out (d := start fivePoints 4 ⟨0, 0, 0⟩) htables rfl changingMaps
  obtain ⟨e, reports, hcalls⟩ := hreturns.2 hfits
  obtain ⟨-, hlength, hbits, -⟩ := hall e reports hcalls []
  exact ⟨htables, hfits, e, reports, hcalls, hlength, hbits⟩

end Demapper

end OfdmBurst
