import Mathlib.Algebra.Group.Nat.Defs
import Mathlib.Data.List.Nodup
import OfdmBurst.Block.FrameMapper
import OfdmBurst.Proofs.Fault
import OfdmBurst.Proofs.FrameMapper.Points

/-!
# The symbols of a mapper

A symbol starts out as zero everywhere, and the points of its groups are put on its data carriers
one after the other. If no carrier is listed twice, none is overwritten, so in the end every data
carrier holds the point of its own group, and all others are zero as in the beginning.

A complete constellation has a point for every group, and the data carriers lie inside the symbol,
so there is always a result.

## Main definitions

* `Carries` — a symbol has the points of some groups on its data carriers
* `HoldsLast` — of the groups that go to one carrier, a symbol has the point of the last

## Main results

* `holdsLast_of_symbolOf`, `carries_of_symbolOf` — what a symbol holds
* `symbolOf_returns` — there is a symbol for any groups
-/

namespace OfdmBurst

namespace FrameMapper

/-- The symbol holds the points of the groups on the data carriers, and zero elsewhere. -/
structure Carries (m : FrameMapper) (groups : List Nat) (symbol : List Sample) : Prop where
  /-- The symbol has its full length. -/
  length_eq : symbol.length = m.fft
  /-- On every data carrier is the point of its group. -/
  point : ∀ p ∈ m.map.carriers.zip groups, ∃ x,
    m.constellation.point? (UInt8.ofNat p.2) = some x ∧ symbol[m.leading + p.1]? = some x
  /-- All other carriers are zero. -/
  zero : ∀ k < m.fft, (∀ p ∈ m.map.carriers.zip groups, k ≠ m.leading + p.1) →
    symbol[k]? = some Phasor.zero

variable {m : FrameMapper}

/-- A symbol is a matter of the constellation, the map and the width. -/
theorem symbolOf_congr {m' : FrameMapper} (hconstellation : m.constellation = m'.constellation)
    (hmap : m.map = m'.map) (hfft : m.fft = m'.fft) (groups : List Nat) :
    m.symbolOf groups = m'.symbolOf groups := by
  have hpoints : m.points = m'.points := by rw [m.points_eq, m'.points_eq, hconstellation]
  cases m
  cases m'
  cases hconstellation
  cases hmap
  cases hfft
  cases hpoints
  rfl

theorem place_eq_ok {symbol out : Array Sample} {carrier group : Nat}
    (h : m.place symbol carrier group = .ok out) :
    out.size = symbol.size ∧
      (∃ x, m.constellation.point? (UInt8.ofNat group) = some x ∧
        out[m.leading + carrier]? = some x) ∧
      ∀ k, k ≠ m.leading + carrier → out[k]? = symbol[k]? := by
  rw [place] at h
  split at h
  next x hx =>
    split at h
    next hlt =>
      cases h
      refine ⟨Array.size_set .., ⟨x, point?_of_points hx, ?_⟩, fun k hk => ?_⟩
      · rw [Array.getElem?_set_self]
      · rw [Array.getElem?_set_ne _ (Ne.symm hk)]
    · cases h
  · cases h

/-- A symbol has the width it was built for. -/
theorem length_symbolOf {groups : List Nat} {symbol : List Sample}
    (h : m.symbolOf groups = .ok symbol) : symbol.length = m.fft := by
  simp only [symbolOf, Fault.bind_eq_ok_iff, Fault.pure_eq_ok_iff] at h
  obtain ⟨out, hout, rfl⟩ := h
  exact Fault.foldlM_induct (P := fun symbol => symbol.size = m.fft)
    (fun _ _ _ hsize hplace => (place_eq_ok hplace).1.trans hsize) Array.size_replicate hout

/-- What no group goes to stays as it is. -/
theorem foldlM_place_frame {pairs : List (Nat × Nat)} {symbol out : Array Sample}
    (h : pairs.foldlM (fun symbol p => m.place symbol p.1 p.2) symbol = .ok out) :
    out.size = symbol.size ∧
      ∀ k, (∀ p ∈ pairs, k ≠ m.leading + p.1) → out[k]? = symbol[k]? := by
  induction pairs generalizing symbol with
  | nil =>
    rw [List.foldlM_nil, Fault.pure_eq_ok_iff] at h
    subst h
    exact ⟨rfl, fun _ _ => rfl⟩
  | cons p rest ih =>
    rw [List.foldlM_cons, Fault.bind_eq_ok_iff] at h
    obtain ⟨next, hnext, hrest⟩ := h
    obtain ⟨hsize, -, hkept⟩ := place_eq_ok hnext
    obtain ⟨hsize', hkept'⟩ := ih hrest
    refine ⟨hsize'.trans hsize, fun k hk => ?_⟩
    rw [hkept' k fun q hq => hk q (List.mem_cons_of_mem _ hq), hkept k (hk p List.mem_cons_self)]

/-- The last group that goes to a carrier is the one that stays there. -/
theorem foldlM_place_last {before after : List (Nat × Nat)} {carrier group : Nat}
    {symbol out : Array Sample} (hafter : ∀ q ∈ after, q.1 ≠ carrier)
    (h : (before ++ (carrier, group) :: after).foldlM (fun symbol p => m.place symbol p.1 p.2)
      symbol = .ok out) :
    ∃ x, m.constellation.point? (UInt8.ofNat group) = some x ∧
      out[m.leading + carrier]? = some x := by
  rw [List.foldlM_append, Fault.bind_eq_ok_iff] at h
  obtain ⟨reached, -, h⟩ := h
  rw [List.foldlM_cons, Fault.bind_eq_ok_iff] at h
  obtain ⟨placed, hplace, hrest⟩ := h
  obtain ⟨-, ⟨x, hx, hplaced⟩, -⟩ := place_eq_ok hplace
  refine ⟨x, hx, ?_⟩
  rw [(foldlM_place_frame hrest).2 _ fun q hq heq => ?_, hplaced]
  exact hafter q hq (Nat.add_left_cancel heq).symm

/-- On the bin of every data carrier a symbol holds the point of the last of the groups that go
there. -/
def HoldsLast (m : FrameMapper) (groups : List Nat) (symbol : List Sample) : Prop :=
  ∀ i carrier : Nat, m.map.carriers[i]? = some carrier →
    (∀ j, i < j → m.map.carriers[j]? ≠ some carrier) →
    ∃ group x, groups[i]? = some group ∧
      m.constellation.point? (UInt8.ofNat group) = some x ∧ symbol[m.leading + carrier]? = some x

/-- **What a symbol holds on its data carriers**, whatever the map. -/
theorem holdsLast_of_symbolOf {groups : List Nat} (hlength : groups.length = m.map.size)
    {symbol : List Sample} (h : m.symbolOf groups = .ok symbol) : m.HoldsLast groups symbol := by
  simp only [symbolOf, Fault.bind_eq_ok_iff, Fault.pure_eq_ok_iff] at h
  obtain ⟨out, hout, rfl⟩ := h
  intro i carrier hcarrier hlast
  obtain ⟨hi, rfl⟩ := List.getElem?_eq_some_iff.1 hcarrier
  have hgroup : i < groups.length := hlength ▸ hi
  have hplace : i < (m.map.carriers.zip groups).length := by
    rw [List.length_zip]
    omega
  have hpair : (m.map.carriers.zip groups)[i] = (m.map.carriers[i], groups[i]) := List.getElem_zip
  have hafter : ∀ q ∈ (m.map.carriers.zip groups).drop (i + 1), q.1 ≠ m.map.carriers[i] := by
    intro q hq heq
    obtain ⟨n, hn, rfl⟩ := List.getElem_of_mem hq
    rw [List.getElem_drop, List.getElem_zip] at heq
    have hlater : i + 1 + n < m.map.carriers.length := by
      rw [List.length_drop, List.length_zip] at hn
      omega
    exact hlast (i + 1 + n) (by omega) (by rw [List.getElem?_eq_getElem hlater, ← heq])
  rw [← List.take_append_drop i (m.map.carriers.zip groups), List.drop_eq_getElem_cons hplace,
    hpair] at hout
  obtain ⟨x, hx, hplaced⟩ := foldlM_place_last hafter hout
  refine ⟨groups[i], x, List.getElem?_eq_getElem hgroup, hx, ?_⟩
  rw [Array.getElem?_toList, hplaced]

/-- A bin that is not that of a data carrier stays as it was in the beginning. -/
theorem getElem?_symbolOf_free {groups : List Nat} {symbol : List Sample}
    (h : m.symbolOf groups = .ok symbol) {bin : Nat}
    (hfree : ∀ carrier ∈ m.map.carriers, bin ≠ m.leading + carrier) :
    symbol[bin]? = (List.replicate m.fft Phasor.zero)[bin]? := by
  simp only [symbolOf, Fault.bind_eq_ok_iff, Fault.pure_eq_ok_iff] at h
  obtain ⟨out, hout, rfl⟩ := h
  rw [Array.getElem?_toList, (foldlM_place_frame hout).2 bin fun p hp =>
    hfree p.1 (List.of_mem_zip hp).1, Array.getElem?_replicate, List.getElem?_replicate]

/-- **What a symbol holds** if no carrier is listed twice: no group goes to the carrier of a later
one. -/
theorem carries_of_symbolOf (hnodup : m.map.carriers.Nodup) {groups : List Nat}
    (hlength : groups.length = m.map.size) {symbol : List Sample}
    (h : m.symbolOf groups = .ok symbol) : m.Carries groups symbol := by
  refine ⟨length_symbolOf h, fun p hp => ?_, fun bin hbin hfree => ?_⟩
  · obtain ⟨i, hi, rfl⟩ := List.getElem_of_mem hp
    have hcarrier : i < m.map.carriers.length := by
      rw [List.length_zip] at hi
      omega
    have hplace := List.getElem?_eq_getElem hcarrier
    have hlast : ∀ j, i < j → m.map.carriers[j]? ≠ some m.map.carriers[i] := fun j hj hsame =>
      Nat.ne_of_lt hj ((List.getElem?_inj hcarrier hnodup).1 (hplace.trans hsame.symm))
    obtain ⟨group, x, hgroup, hx, hplaced⟩ := holdsLast_of_symbolOf hlength h i _ hplace hlast
    obtain ⟨hi', rfl⟩ := List.getElem?_eq_some_iff.1 hgroup
    rw [List.getElem_zip]
    exact ⟨x, hx, hplaced⟩
  · rw [getElem?_symbolOf_free h fun carrier hcarrier => ?_, List.getElem?_replicate, if_pos hbin]
    obtain ⟨i, hi, rfl⟩ := List.getElem_of_mem hcarrier
    have hpair : i < (m.map.carriers.zip groups).length := by
      rw [List.length_zip, hlength]
      exact Nat.lt_min.2 ⟨hi, hi⟩
    have hne := hfree _ (List.getElem_mem hpair)
    rwa [List.getElem_zip] at hne

/-! ### There is always a symbol -/

/-- A data carrier lies inside the symbol. -/
theorem leading_add_lt (m : FrameMapper) {carrier : Nat} (h : carrier ∈ m.map.carriers) :
    m.leading + carrier < m.fft := by
  have hlt := m.map.lt_occupied carrier h
  have hle := m.occupied_le
  rw [leading]
  omega

theorem symbolOf_returns {groups : List Nat} (h : ∀ g ∈ groups, g < 2 ^ m.constellation.bits) :
    ∃ symbol, m.symbolOf groups = .ok symbol := by
  have hpairs : ∀ p ∈ m.map.carriers.zip groups,
      p.1 ∈ m.map.carriers ∧ p.2 < 2 ^ m.constellation.bits := fun p hp =>
    ⟨(List.of_mem_zip hp).1, h p.2 (List.of_mem_zip hp).2⟩
  suffices hfold : ∀ (pairs : List (Nat × Nat)) (symbol : Array Sample), symbol.size = m.fft →
      (∀ p ∈ pairs, p.1 ∈ m.map.carriers ∧ p.2 < 2 ^ m.constellation.bits) →
      ∃ out, pairs.foldlM (fun symbol p => m.place symbol p.1 p.2) symbol = .ok out by
    obtain ⟨out, hout⟩ := hfold _ (Array.replicate m.fft Phasor.zero) Array.size_replicate hpairs
    exact ⟨out.toList, Fault.bind_eq_ok_iff.2 ⟨out, hout, rfl⟩⟩
  intro pairs
  induction pairs with
  | nil => exact fun symbol _ _ => ⟨symbol, rfl⟩
  | cons p rest ih =>
    intro symbol hsize hall
    obtain ⟨hcarrier, hgroup⟩ := hall p List.mem_cons_self
    obtain ⟨x, hx⟩ := Option.isSome_iff_exists.1 (point?_isSome hgroup)
    rw [← m.getElem?_points hgroup] at hx
    have hlt : m.leading + p.1 < symbol.size := hsize ▸ m.leading_add_lt hcarrier
    have hplace : m.place symbol p.1 p.2 = .ok (symbol.set (m.leading + p.1) x hlt) := by
      rw [place, hx]
      simp only [hlt, ↓reduceDIte]
    obtain ⟨out, hout⟩ := ih (symbol.set (m.leading + p.1) x hlt) (by rw [Array.size_set, hsize])
      fun q hq => hall q (List.mem_cons_of_mem _ hq)
    exact ⟨out, by rw [List.foldlM_cons, hplace]; exact hout⟩

end FrameMapper

end OfdmBurst
