import OfdmBurst.Carrier.Demapper
import OfdmBurst.Proofs.Fault

/-!
# Demapping several symbols

The bytes that a demapper completes belong to a burst and not to a symbol: a byte may be begun in
one symbol and completed in the next. `Demapper.along` demaps the symbols of a burst one after the
other and puts their bytes together, and `Demapper.completed` gives just the bytes.

Demapping changes what adapts and nothing else. The constellation, the gains and the number of taps
stay, so a demapper that is reset is the one it was in the beginning.

What a symbol leads to follows from its decisions, one for each data carrier, which do not depend on
one another.

## Main definitions

* `Demapper.decisions`, `Demapper.lag` — what is decided, and by which angle it is off
* `Demapper.along`, `Demapper.completed` — the symbols of a burst, and their bytes

## Main results

* `Demapper.demap_eq` — a symbol is its decisions, and what they lead to
* `Demapper.derotated_eq` — what is shown of a symbol
* `Demapper.along_concat` — one more symbol
* `Demapper.demap_frame`, `Demapper.demap_returns` — what stays, and that there is a result
-/

namespace OfdmBurst

namespace Demapper

/-! ### Decisions

The decisions of a symbol, apart from what is packed and learnt from them. -/

section Decisions

variable {ρ σ : Type} [Elementary ρ] [Scalar σ] [Widened ρ σ]

/-- What is decided for the data carriers of a symbol. -/
def decisions (d : Demapper ρ) (map : CarrierMap) (symbol : List (Phasor ρ)) :
    Except Fault (List (Decision d.constellation)) := do
  let carriers ← carriersOf symbol d.taps map
  return carriers.map fun (received, tap) =>
    decideOne d.constellation d.gains.equalizer (Phasor.turn d.phase) received tap

/-- The angle by which the results of a symbol are off, all together. -/
def lag {c : Constellation ρ} (ds : List (Decision c)) : ρ :=
  (sum (· + ·) Phasor.zero (fun x => x.turned * x.point.conj) ds).angle

/-- **A symbol is its decisions, and what they lead to.** -/
theorem demap_eq (d : Demapper ρ) (map : CarrierMap) (symbol : List (Phasor ρ)) :
    d.demap (σ := σ) map symbol = do
      let ds ← d.decisions map symbol
      let packed := d.packer.placeAll d.constellation.bits (ds.map fun x => x.value.toNat)
      return ({ d.track (lag ds) with
          taps := ds.map (·.tap) ++ d.taps.drop ds.length
          packer := packed.2 },
        Demapper.report packed.1 ds) := by
  rw [demap, decisions, bind_assoc]
  rfl

theorem demap_eq_ok_iff {d e : Demapper ρ} {map : CarrierMap} {symbol : List (Phasor ρ)}
    {report : SymbolReport ρ σ} :
    d.demap map symbol = .ok (e, report) ↔
      ∃ ds, d.decisions map symbol = .ok ds ∧
        e = { d.track (lag ds) with
          taps := ds.map (·.tap) ++ d.taps.drop ds.length
          packer :=
            (d.packer.placeAll d.constellation.bits (ds.map fun x => x.value.toNat)).2 } ∧
        report = Demapper.report
          (d.packer.placeAll d.constellation.bits (ds.map fun x => x.value.toNat)).1 ds := by
  rw [demap_eq, Fault.bind_eq_ok_iff]
  constructor
  · rintro ⟨ds, hds, h⟩
    cases h
    exact ⟨ds, hds, rfl, rfl⟩
  · rintro ⟨ds, hds, rfl, rfl⟩
    exact ⟨ds, hds, rfl⟩

theorem received_eq {symbol : List (Phasor ρ)} {carriers : List Nat} {received : List (Phasor ρ)}
    (h : (carriers.mapM fun k => Fault.found symbol.toArray[k]?) = .ok received) :
    received = carriers.map (symbol.getD · Phasor.zero) := by
  induction carriers generalizing received with
  | nil =>
    cases h
    rfl
  | cons k rest ih =>
    obtain ⟨y, ys, hy, hys, rfl⟩ := Fault.mapM_cons_eq_ok_iff.1 h
    rw [List.getElem?_toArray] at hy
    rw [List.map_cons, ← ih hys, List.getD_eq_getElem?_getD]
    cases hvalue : symbol[k]? with
    | none =>
      rw [hvalue] at hy
      cases hy
    | some x =>
      rw [hvalue] at hy
      cases hy
      rfl

/-- **What is shown of a symbol**: the values on the data carriers in the order of the map, each
turned by the phase from before the symbol and multiplied by the tap of its carrier. -/
theorem derotated_eq {d e : Demapper ρ} {map : CarrierMap} {symbol : List (Phasor ρ)}
    {report : SymbolReport ρ σ} (h : d.demap map symbol = .ok (e, report)) :
    report.derotated = (map.carriers.zip d.taps).map fun (k, tap) =>
      symbol.getD k Phasor.zero * Phasor.turn d.phase * tap := by
  obtain ⟨ds, hds, -, rfl⟩ := demap_eq_ok_iff.1 h
  obtain ⟨carriers, hcarriers, rfl⟩ := Fault.exists_of_bind_pure hds
  obtain ⟨received, hreceived, hzip⟩ := Fault.bind_eq_ok_iff.1 hcarriers
  split at hzip
  · cases hzip
    show List.map _ (List.map _ (received.zip d.taps)) = _
    rw [received_eq hreceived, List.zip_map_left, List.map_map, List.map_map]
    rfl
  · cases hzip

end Decisions

/-! ### Several symbols -/

/-- Demap symbols one after the other. -/
def along (d : Demapper Float32) (map : CarrierMap) :
    List (List Sample) → Except Fault (Demapper Float32 × List UInt8)
  | [] => .ok (d, [])
  | x :: rest => do
    let (next, report) ← d.demap (σ := Float) map x
    let (last, bytes) ← next.along map rest
    return (last, report.bytes ++ bytes)

/-- The bytes that symbols complete. -/
def completed (d : Demapper Float32) (map : CarrierMap) (symbols : List (List Sample)) :
    List UInt8 :=
  match d.along map symbols with
  | .ok (_, bytes) => bytes
  | .error _ => []

variable {d e f : Demapper Float32} {map : CarrierMap} {bytes : List UInt8}

/-- One more symbol adds its bytes. -/
theorem along_concat {xs : List (List Sample)} {x : List Sample} {report : SymbolReport Float32 Float}
    (h : d.along map xs = .ok (e, bytes)) (hx : e.demap map x = .ok (f, report)) :
    d.along map (xs ++ [x]) = .ok (f, bytes ++ report.bytes) := by
  induction xs generalizing d bytes with
  | nil =>
    cases h
    simp [along, hx, bind, Except.bind, pure, Except.pure]
  | cons y rest ih =>
    simp only [along, Fault.bind_eq_ok_iff, Fault.pure_eq_ok_iff] at h
    obtain ⟨⟨next, report'⟩, hy, ⟨last, bytes'⟩, hrest, h⟩ := h
    cases h
    have hmore := ih hrest
    rw [List.cons_append, along, hy]
    simp [hmore, bind, Except.bind, pure, Except.pure]

theorem completed_eq {xs : List (List Sample)} (h : d.along map xs = .ok (e, bytes)) :
    d.completed map xs = bytes := by
  rw [completed, h]

/-! ### One symbol -/

theorem length_carriersOf {symbol taps : List Sample} {carriers : List (Sample × Sample)}
    (h : carriersOf symbol taps map = .ok carriers) :
    carriers.length = map.size ∧ map.size ≤ taps.length := by
  simp only [carriersOf, Fault.bind_eq_ok_iff] at h
  obtain ⟨received, hreceived, h⟩ := h
  have hlength := Fault.length_mapM hreceived
  split at h
  next hle =>
    cases h
    rw [List.length_zip, CarrierMap.size]
    omega
  · cases h

/-- Demapping changes neither the constellation nor the gains nor the number of taps, and gives a
result for each data carrier. -/
theorem demap_frame {x : List Sample} {report : SymbolReport Float32 Float}
    (h : d.demap map x = .ok (e, report)) :
    e.constellation = d.constellation ∧ e.gains = d.gains ∧ e.taps.length = d.taps.length ∧
      report.derotated.length = map.size := by
  simp only [demap, Fault.bind_eq_ok_iff, Fault.pure_eq_ok_iff] at h
  obtain ⟨carriers, hcarriers, h⟩ := h
  obtain ⟨hlength, hle⟩ := length_carriersOf hcarriers
  cases h
  refine ⟨rfl, rfl, ?_, ?_⟩
  · simp only [List.length_append, List.length_map, List.length_drop]
    omega
  · simp only [Demapper.report, List.length_map, hlength]

/-- A symbol with a value on every carrier of the map can be demapped. -/
theorem demap_returns {x : List Sample} (hx : ∀ k ∈ map.carriers, k < x.length)
    (htaps : map.size ≤ d.taps.length) :
    ∃ e, ∃ report : SymbolReport Float32 Float, d.demap map x = .ok (e, report) := by
  have hfound : ∀ k ∈ map.carriers, ∃ y, Fault.found x.toArray[k]? = .ok y := by
    intro k hk
    have hlt := hx k hk
    have hget : x.toArray[k]? = some x[k] := by
      rw [List.getElem?_toArray, List.getElem?_eq_getElem hlt]
    exact ⟨_, congrArg Fault.found hget⟩
  obtain ⟨received, hreceived⟩ := Fault.mapM_returns hfound
  have hle : received.length ≤ d.taps.length := by
    rw [Fault.length_mapM hreceived]
    exact htaps
  refine ⟨_, _, Fault.bind_eq_ok_iff.2 ⟨received.zip d.taps, ?_, rfl⟩⟩
  rw [carriersOf, hreceived]
  simp only [bind, Except.bind, hle, ↓reduceIte]
  rfl

end Demapper

end OfdmBurst
