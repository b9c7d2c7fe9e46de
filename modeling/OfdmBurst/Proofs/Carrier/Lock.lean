import OfdmBurst.Proofs.Carrier.Tracking

/-!
# Symbols without noise

A demapper adapts all the time: its taps to what they should have been, its phase and frequency to
the angle by which a symbol was off. If what is received are exactly the points that were sent,
there is nothing to adapt to, and none of the loops may move. A loop with a sign the wrong way
round, or a quotient upside down, moves on perfect input, a little in each symbol, and spoils long
bursts only.

`Locked` is the state in which nothing is turned and nothing is equalised. It is the state behind a
reset, and a symbol without noise leaves it as it is: every result is the point that was sent, the
nearest point to it is that point, the tap that would have been right is one, and the products of
results and decisions lie on the positive axis, where the angle is zero.

## Scope

The arithmetic is exact, and the constellation has no point twice. It may have the origin, whose
result is too weak to adapt a tap, and the gains may be anything. What is on the other carriers of a
symbol does not matter.

## Main definitions

* `Demapper.Sent` — a symbol with points of the table on its data carriers
* `Demapper.Outcome`, `Demapper.outcomes` — what comes of symbols
* `Demapper.Locked`, `Demapper.Faultless` — the state, and an outcome without an error

## Main results

* `Demapper.decideOne_pointAt` — a point is decided for itself
* `Demapper.Locked.symbol` — a symbol without noise leaves the state as it is
* `Demapper.locks` — and so any number of them, behind a reset
-/

namespace OfdmBurst

variable {τ : Type} [Field τ] [LinearOrder τ] [CircleFunctions τ]

/-! ### One carrier -/

section OneCarrier

variable [IsStrictOrderedRing τ]

theorem Phasor.power_nonneg (x : Phasor τ) : 0 ≤ x.power :=
  add_nonneg (mul_self_nonneg x.re) (mul_self_nonneg x.im)

/-- Two different points are some way apart. -/
theorem Phasor.power_sub_pos {x y : Phasor τ} (h : x ≠ y) : 0 < (x - y).power := by
  refine lt_of_le_of_ne (Phasor.power_nonneg _) fun hzero => h ?_
  have hsum : (x.re - y.re) * (x.re - y.re) + (x.im - y.im) * (x.im - y.im) = 0 := hzero.symm
  obtain ⟨hre, him⟩ := mul_self_add_mul_self_eq_zero.1 hsum
  obtain ⟨xre, xim⟩ := x
  obtain ⟨yre, yim⟩ := y
  rw [Phasor.mk.injEq]
  exact ⟨sub_eq_zero.1 hre, sub_eq_zero.1 him⟩

/-- A point is the nearest to itself, and no other is as near. -/
theorem Constellation.nearest_pointAt {c : Constellation τ} (hdistinct : c.points.Nodup)
    (i : Fin c.size) : c.nearest (c.pointAt i) = i := by
  have hzero : (c.pointAt i - c.pointAt i).power = 0 := by
    rw [Phasor.sub_self_eq, Phasor.power_zero]
  have hothers : ∀ j, j ≠ i → 0 < (c.pointAt i - c.pointAt j).power := fun j hj =>
    Phasor.power_sub_pos fun hsame => hj (List.nodup_iff_injective_get.1 hdistinct hsame).symm
  refine Constellation.nearest_eq (fun j hj => ?_) fun j hj => ?_
  · rw [hzero]
    exact hothers j (ne_of_lt hj)
  · rw [hzero]
    exact not_lt.2 (hothers j (ne_of_gt hj)).le

namespace Demapper

/-- A tap of one that was right stays one. -/
theorem adaptedTap_self (gain : τ) (x : Phasor τ) : adaptedTap gain Phasor.one x x = Phasor.one := by
  rw [adaptedTap]
  split
  next hloud =>
    have hpower : x.power ≠ 0 := by
      have hsilence : (silence : τ) = 1 / 1000 := by
        show ((1 : ℕ) : τ) / ((1000 : ℕ) : τ) = 1 / 1000
        norm_num
      rw [hsilence] at hloud
      exact (lt_trans (by norm_num) hloud).ne'
    rw [Phasor.div_self_eq hpower, Phasor.sub_self_eq, Phasor.zero_eq, Phasor.one_eq]
    show (⟨1 + 0 * gain, 0 + 0 * gain⟩ : Phasor τ) = ⟨1, 0⟩
    simp
  · rfl

/-- **A point is decided for itself**, and there is nothing to adapt. -/
theorem decideOne_pointAt {c : Constellation τ} (hdistinct : c.points.Nodup) (gain : τ)
    (i : Fin c.size) :
    decideOne c gain Phasor.one (c.pointAt i) Phasor.one =
      ⟨c.pointAt i, c.pointAt i, i, Phasor.one⟩ := by
  simp only [decideOne, Phasor.mul_one_eq, Constellation.nearest_pointAt hdistinct,
    adaptedTap_self]

end Demapper

end OneCarrier

/-! ### One symbol -/

namespace Demapper

/-- A symbol with points of the table on its data carriers. The other carriers hold anything. -/
structure Sent (c : Constellation τ) where
  map : CarrierMap
  values : List (Phasor τ)
  places : List (Fin c.size)
  holds : List.Forall₂ (fun k i => values[k]? = some (c.pointAt i)) map.carriers places

/-- What comes of a symbol: the places of the points that were decided for, the report, and the
demapper behind it. -/
structure Outcome (τ : Type) where
  places : List Nat
  report : SymbolReport τ τ
  next : Demapper τ

/-- Decide and demap a symbol. -/
def outcome (d : Demapper τ) (map : CarrierMap) (values : List (Phasor τ)) :
    Except Fault (Outcome τ) := do
  let ds ← d.decisions map values
  let (next, report) ← d.demap map values
  return ⟨ds.map fun x => x.place, report, next⟩

/-- Decide and demap symbols one after the other. -/
def outcomes (d : Demapper τ) : List (CarrierMap × List (Phasor τ)) → Except Fault (List (Outcome τ))
  | [] => .ok []
  | (map, values) :: rest => do
    let o ← d.outcome map values
    return o :: (← o.next.outcomes rest)

/-- Nothing is turned and nothing is equalised. -/
structure Locked (c : Constellation τ) (n : Nat) (d : Demapper τ) : Prop where
  /-- The constellation stays. -/
  constellation_eq : d.constellation = c
  /-- Every tap is one. -/
  taps_eq : d.taps = List.replicate n Phasor.one
  /-- The phase is zero. -/
  phase_eq : d.phase = 0
  /-- The frequency is zero. -/
  frequency_eq : d.frequency = 0

/-- An outcome without an error: every point is decided for itself, the results are what was
received on the data carriers, and the demapper is as it was. -/
structure Faultless {c : Constellation τ} (n : Nat) (x : Sent c) (o : Outcome τ) : Prop where
  /-- Every data carrier is decided for the point on it. -/
  places_eq : o.places = x.places.map (·.val)
  /-- The results are what was received. -/
  received : List.Forall₂ (fun k y => x.values[k]? = some y) x.map.carriers o.report.derotated
  /-- No result is off. -/
  error_eq : o.report.errorPower = 0
  /-- The demapper has not moved. -/
  locked : o.next.Locked c n

variable {c : Constellation τ} {d : Demapper τ} {n : Nat}

/-- The decision for a point that was received as it was sent. -/
def exactDecision (i : Fin c.size) : Decision c := ⟨c.pointAt i, c.pointAt i, i, Phasor.one⟩

theorem locked_reset (d : Demapper τ) : d.reset.Locked d.constellation d.taps.length where
  constellation_eq := rfl
  taps_eq := rfl
  phase_eq := Nat.cast_zero
  frequency_eq := Nat.cast_zero

omit [Field τ] [LinearOrder τ] [CircleFunctions τ] in
theorem Sent.length_places (x : Sent c) : x.places.length = x.map.size := x.holds.length_eq.symm

/-- The data carriers hold the points, and there is a tap of one for each. -/
theorem carriersOf_sent (x : Sent c) (hn : x.map.size ≤ n) :
    carriersOf x.values (List.replicate n Phasor.one) x.map =
      .ok (x.places.map fun i => (c.pointAt i, Phasor.one)) := by
  have hreceived : x.map.carriers.mapM (fun k => Fault.found x.values.toArray[k]?) =
      .ok (x.places.map c.pointAt) := by
    refine Fault.mapM_of_forall₂ (List.forall₂_map_right_iff.2 (x.holds.imp fun k i hk => ?_))
    rw [List.getElem?_toArray, hk]
    rfl
  have hle : (x.places.map c.pointAt).length ≤ (List.replicate n (Phasor.one : Phasor τ)).length := by
    rw [List.length_map, List.length_replicate, x.length_places]
    exact hn
  rw [carriersOf, hreceived]
  show (if _ then _ else _) = _
  rw [if_pos hle]
  refine congrArg Except.ok (List.ext_getElem ?_ fun i _ _ => ?_)
  · rw [List.length_zip, Nat.min_eq_left hle, List.length_map, List.length_map]
  · rw [List.getElem_zip, List.getElem_map, List.getElem_map, List.getElem_replicate]

section Exact

variable [IsStrictOrderedRing τ]

theorem decisions_sent (h : CircleFunctions.Level τ) (hdistinct : c.points.Nodup)
    (x : Sent c) (g : Gains τ) (packer : BitPacker) (hn : x.map.size ≤ n) :
    decisions ⟨c, g, List.replicate n Phasor.one, 0, 0, packer⟩ x.map x.values =
      .ok (x.places.map exactDecision) := by
  rw [decisions, carriersOf_sent x hn]
  show Except.ok _ = Except.ok _
  rw [List.map_map, Phasor.turn_zero h]
  refine congrArg Except.ok (List.map_congr_left fun i _ => ?_)
  exact decideOne_pointAt hdistinct g.equalizer i

/-- The products of points with themselves lie on the positive axis, and so does their sum. -/
theorem lag_exactDecision (h : CircleFunctions.Level τ) (places : List (Fin c.size)) :
    lag (places.map exactDecision) = 0 := by
  have hsum : ∀ total : Phasor τ, total.im = 0 → 0 ≤ total.re →
      (sum (· + ·) total (fun x : Decision c => x.turned * x.point.conj)
        (places.map exactDecision)).angle = 0 := by
    induction places with
    | nil =>
      intro total him hre
      show CircleFunctions.angle total.im total.re = 0
      rw [him]
      exact h.angle_of_nonneg total.re hre
    | cons i rest ih =>
      intro total him hre
      refine ih (total + c.pointAt i * (c.pointAt i).conj) ?_ ?_
      · rw [Phasor.mul_conj_eq]
        show total.im + 0 = 0
        rw [add_zero, him]
      · rw [Phasor.mul_conj_eq]
        exact add_nonneg hre (Phasor.power_nonneg _)
  refine hsum Phasor.zero ?_ ?_
  · rw [Phasor.zero_eq]
  · rw [Phasor.zero_eq]

omit [IsStrictOrderedRing τ] in
theorem errorPower_exactDecision (bytes : List UInt8) (places : List (Fin c.size)) :
    (report (σ := τ) bytes (places.map (exactDecision (c := c)))).errorPower = 0 := by
  have hsum : ∀ total : τ,
      sum (· + ·) total (fun x : Decision c => (x.turned - x.point).power)
        (places.map exactDecision) = total := by
    induction places with
    | nil => exact fun total => rfl
    | cons i rest ih =>
      intro total
      have hnone : total + (c.pointAt i - c.pointAt i).power = total := by
        rw [Phasor.sub_self_eq, Phasor.power_zero, add_zero]
      exact (ih _).trans hnone
  exact (hsum _).trans Nat.cast_zero

theorem track_zero (h : CircleFunctions.Level τ) (hphase : d.phase = 0)
    (hfrequency : d.frequency = 0) : (d.track 0).phase = 0 ∧ (d.track 0).frequency = 0 := by
  have hstay : (d.track 0).frequency = 0 := by
    show d.frequency - d.gains.frequency * 0 = 0
    rw [hfrequency, mul_zero, sub_zero]
  have hmoved : d.phase + ((d.track 0).frequency - d.gains.phase * 0) = 0 := by
    rw [hstay, hphase, mul_zero, sub_zero, add_zero]
  have hpi := h.pi_pos
  refine ⟨?_, hstay⟩
  show wrapped (d.phase + ((d.track 0).frequency - d.gains.phase * 0)) = 0
  rw [hmoved, wrapped_eq, if_neg (by linarith), if_neg (lt_irrefl 0)]

/-- **A symbol without noise** leaves the state as it is. -/
theorem Locked.symbol (hd : d.Locked c n) (h : CircleFunctions.Level τ)
    (hdistinct : c.points.Nodup) (x : Sent c) (hn : x.map.size ≤ n) :
    ∃ o, d.outcome x.map x.values = .ok o ∧ Faultless n x o := by
  obtain ⟨c, g, taps, phase, frequency, packer⟩ := d
  obtain ⟨rfl, rfl, rfl, rfl⟩ := hd
  have hds := decisions_sent h hdistinct x g packer hn
  obtain ⟨hphase, hfrequency⟩ := track_zero (d := ⟨_, g, List.replicate n Phasor.one, 0, 0, packer⟩)
    h rfl rfl
  rw [outcome, demap_eq, hds]
  refine ⟨_, rfl, ?_, ?_, ?_, ?_, ?_, ?_, ?_⟩
  · exact List.map_map
  · show List.Forall₂ _ _ (List.map _ (List.map exactDecision x.places))
    rw [List.map_map]
    exact List.forall₂_map_right_iff.2 x.holds
  · exact errorPower_exactDecision _ x.places
  · rfl
  · show List.map _ (List.map exactDecision x.places) ++ List.drop _ _ = _
    have hones : x.places.map ((·.tap) ∘ exactDecision) = List.replicate x.map.size Phasor.one := by
      rw [← x.length_places]
      exact List.map_const'
    rw [List.map_map, hones, List.length_map, x.length_places, List.drop_replicate,
      List.replicate_append_replicate, Nat.add_sub_cancel' hn]
  · show (track _ (lag _)).phase = 0
    rw [lag_exactDecision h]
    exact hphase
  · show (track _ (lag _)).frequency = 0
    rw [lag_exactDecision h]
    exact hfrequency

/-- **Symbols without noise.** Behind a reset, a demapper whose constellation has no point twice,
with any gains, is locked, and it stays locked over symbols of any number and on any maps it has taps
for, as long as their data carriers hold points of the table. All of them are demapped, each point
is decided for itself, the results are what was received, and there is no error. -/
theorem locks (h : CircleFunctions.Level τ) (d : Demapper τ)
    (hdistinct : d.constellation.points.Nodup) (sent : List (Sent d.constellation))
    (htaps : ∀ x ∈ sent, x.map.size ≤ d.taps.length) :
    d.reset.Locked d.constellation d.taps.length ∧
    ∃ os, d.reset.outcomes (sent.map fun x => (x.map, x.values)) = .ok os ∧
      List.Forall₂ (Faultless d.taps.length) sent os := by
  have hrun : ∀ e : Demapper τ, e.Locked d.constellation d.taps.length →
      ∃ os, e.outcomes (sent.map fun x => (x.map, x.values)) = .ok os ∧
        List.Forall₂ (Faultless d.taps.length) sent os := by
    induction sent with
    | nil => exact fun e he => ⟨[], rfl, .nil⟩
    | cons x rest ih =>
      intro e he
      obtain ⟨o, ho, hfaultless⟩ := he.symbol h hdistinct x (htaps x List.mem_cons_self)
      obtain ⟨os, hos, hrest⟩ :=
        ih (fun y hy => htaps y (List.mem_cons_of_mem x hy)) o.next hfaultless.locked
      refine ⟨o :: os, ?_, .cons hfaultless hrest⟩
      rw [List.map_cons, outcomes, ho]
      show (do return o :: (← o.next.outcomes _)) = _
      rw [hos]
      rfl
  exact ⟨locked_reset d, hrun d.reset (locked_reset d)⟩

end Exact

/-- Both points of the axis, one after the other. -/
theorem locks_axis :
    ∃ os, (start axis 1 ⟨1 / 4, 1 / 64, 1 / 20⟩).reset.outcomes
      [(soleCarrier, [⟨1, 0⟩]), (soleCarrier, [⟨-1, 0⟩])] = .ok os ∧
      List.Forall₂ (fun i o => o.places = [i] ∧ o.report.errorPower = 0) [1, 0] os := by
  have hdistinct : axis.points.Nodup := by
    show [(⟨-1, 0⟩ : Phasor ℝ), ⟨1, 0⟩].Nodup
    rw [List.nodup_cons, List.mem_singleton, Phasor.mk.injEq]
    exact ⟨fun hsame => absurd hsame.1 (by norm_num), List.nodup_singleton _⟩
  obtain ⟨-, os, hos, hfaultless⟩ := locks CircleFunctions.level_real
    (start axis 1 ⟨1 / 4, 1 / 64, 1 / 20⟩) hdistinct
    [⟨soleCarrier, [⟨1, 0⟩], [⟨1, by decide⟩], .cons rfl .nil⟩,
      ⟨soleCarrier, [⟨-1, 0⟩], [⟨0, by decide⟩], .cons rfl .nil⟩]
    (fun x hx => by
      obtain rfl | rfl := List.mem_pair.1 hx
      · exact le_refl 1
      · exact le_refl 1)
  refine ⟨os, hos, ?_⟩
  obtain _ | ⟨hfirst, hrest⟩ := hfaultless
  obtain _ | ⟨hsecond, hnone⟩ := hrest
  cases hnone
  exact .cons ⟨hfirst.places_eq, hfirst.error_eq⟩
    (.cons ⟨hsecond.places_eq, hsecond.error_eq⟩ .nil)

end Demapper

end OfdmBurst
