import OfdmBurst.Proofs.Carrier.Map
import OfdmBurst.Proofs.FrameMapper.Reference

/-!
# Groups kept apart

A mapper puts the groups of a symbol on the data carriers one after the other and does not look at
what is there. Each group arrives exactly if each data carrier has a bin of its own, and because the
bins are the carriers moved by a constant, that is so exactly if the map lists no carrier twice.

A mask cannot list a carrier twice, and the centred map does not. A list that is handed in is
checked for its length, its range and for being empty, but not for carriers that come again. A map
of such a list is built like any other, and all but the last of the groups that share a carrier are
lost from every symbol.

## Main definitions

* `CarrierMap.Form` — the ways to write down a map
* `CarrierMap.Form.Distinct` — no carrier is written down twice

## Main results

* `separates_groups` — what the maps that are built have in common, and what mappers make of them
* `shared_carrier_loses_group` — two messages' groups that give the same symbol
-/

namespace OfdmBurst

namespace CarrierMap

/-- The ways to write down a map. -/
inductive Form where
  | list (carriers : List Nat)
  | mask (digits : String)
  | centred

/-- The map that is written down, for a number of occupied carriers. -/
def Form.build (occupied : Nat) : Form → Except FramingError CarrierMap
  | .list carriers => ofCarriers carriers occupied
  | .mask digits => ofMask digits occupied
  | .centred => CarrierMap.centred occupied

/-- No carrier is written down twice. -/
def Form.Distinct : Form → Prop
  | .list carriers => carriers.Nodup
  | _ => True

variable {form : Form} {occupied : Nat} {map : CarrierMap}

/-- What is checked of every map. -/
theorem exists_of_build (h : form.build occupied = .ok map) :
    ∃ carriers, ofCarriers carriers occupied = .ok map := by
  cases form with
  | list carriers => exact ⟨carriers, h⟩
  | mask digits =>
    obtain ⟨digits, hcarriers⟩ := exists_of_ofMask h
    exact ⟨_, hcarriers⟩
  | centred => exact ⟨_, exists_of_centred h⟩

/-- A map lists a carrier twice only if it was written down twice. -/
theorem nodup_iff_distinct (h : form.build occupied = .ok map) :
    map.carriers.Nodup ↔ form.Distinct := by
  cases form with
  | list carriers =>
    rw [(ofCarriers_eq_ok_iff.1 h).2.2.2.1]
    rfl
  | mask digits => exact iff_of_true (pairwise_of_ofMask h).nodup trivial
  | centred => exact iff_of_true (pairwise_of_centred h).nodup trivial

end CarrierMap

namespace FrameMapper

/-- Whatever occurs in a list has a last place. -/
theorem exists_last_place {xs : List Nat} {x : Nat} (h : x ∈ xs) :
    ∃ i : Nat, xs[i]? = some x ∧ ∀ j, i < j → xs[j]? ≠ some x := by
  induction xs with
  | nil => cases h
  | cons y rest ih =>
    by_cases hrest : x ∈ rest
    · obtain ⟨i, hi, hlast⟩ := ih hrest
      refine ⟨i + 1, hi, fun j hj => ?_⟩
      obtain ⟨j, rfl⟩ := Nat.exists_eq_add_of_lt hj
      exact hlast _ (by omega)
    · obtain rfl := (List.mem_cons.1 h).resolve_right hrest
      refine ⟨0, rfl, fun j hj hagain => hrest ?_⟩
      obtain ⟨j, rfl⟩ := Nat.exists_eq_add_of_lt hj
      exact List.mem_of_getElem? hagain

section Lost

variable {m : FrameMapper}

/-- A symbol is a matter of the last group on each carrier. -/
theorem symbolOf_eq_of_last {groups groups' : List Nat} {symbol symbol' : List Sample}
    (hlength : groups.length = m.map.size) (hlength' : groups'.length = m.map.size)
    (h : m.symbolOf groups = .ok symbol) (h' : m.symbolOf groups' = .ok symbol')
    (hlast : ∀ i carrier : Nat, m.map.carriers[i]? = some carrier →
      (∀ j, i < j → m.map.carriers[j]? ≠ some carrier) → groups[i]? = groups'[i]?) :
    symbol = symbol' := by
  refine List.ext_getElem? fun bin => ?_
  by_cases hbin : ∃ carrier ∈ m.map.carriers, bin = m.leading + carrier
  · obtain ⟨carrier, hcarrier, rfl⟩ := hbin
    obtain ⟨i, hi, hno⟩ := exists_last_place hcarrier
    obtain ⟨group, x, hgroup, hx, hplaced⟩ := holdsLast_of_symbolOf hlength h i carrier hi hno
    obtain ⟨group', x', hgroup', hx', hplaced'⟩ :=
      holdsLast_of_symbolOf hlength' h' i carrier hi hno
    rw [hlast i carrier hi hno, hgroup'] at hgroup
    cases hgroup
    rw [hplaced, hplaced', ← hx, ← hx']
  · have hfree : ∀ carrier ∈ m.map.carriers, bin ≠ m.leading + carrier :=
      fun carrier hcarrier heq => hbin ⟨carrier, hcarrier, heq⟩
    rw [getElem?_symbolOf_free h hfree, getElem?_symbolOf_free h' hfree]

/-- A group that goes to the carrier of a later one is lost. -/
theorem symbolOf_set_of_shared {i j : Nat} (hij : i < j)
    (hshared : m.map.carriers[i]? = m.map.carriers[j]?) {groups : List Nat}
    (hlength : groups.length = m.map.size)
    (hgroups : ∀ g ∈ groups, g < 2 ^ m.constellation.bits) {group : Nat}
    (hgroup : group < 2 ^ m.constellation.bits) :
    m.symbolOf (groups.set i group) = m.symbolOf groups := by
  obtain ⟨symbol, hsymbol⟩ := symbolOf_returns hgroups
  have hchanged : ∀ g ∈ groups.set i group, g < 2 ^ m.constellation.bits := fun g hg =>
    (List.mem_or_eq_of_mem_set hg).elim (hgroups g) fun heq => heq ▸ hgroup
  obtain ⟨symbol', hsymbol'⟩ := symbolOf_returns hchanged
  rw [hsymbol, hsymbol']
  refine congrArg Except.ok (symbolOf_eq_of_last (by rw [List.length_set, hlength]) hlength hsymbol'
    hsymbol fun k carrier hk hno => ?_)
  refine List.getElem?_set_ne fun heq => ?_
  subst heq
  exact hno j hij (hshared ▸ hk)

end Lost

/-- **When a mapper keeps the groups of a symbol apart.** A map that was built has data carriers,
and all of them are occupied. It lists none twice exactly if none was written down twice, and then
no two carriers share a bin of a mapper's symbols. In every symbol that was emitted for the messages
so far, the last group that goes to a bin is the one that stays there. So each group is on the bin
of its own carrier, and all other bins are zero, if no carrier was written down twice. -/
theorem separates_groups {form : CarrierMap.Form} {occupied : Nat} {map : CarrierMap}
    (hmap : form.build occupied = .ok map) :
    map.carriers ≠ [] ∧ map.occupied = occupied ∧ (∀ k ∈ map.carriers, k < occupied) ∧
      (map.carriers.Nodup ↔ form.Distinct) ∧
      ∀ (constellation : Constellation Float32) (fft : Nat) (made : FrameMapper),
        ofParts constellation map fft = .ok made →
          (∀ k ∈ map.carriers, made.leading + k < fft) ∧
          ((map.carriers.map (made.leading + ·)).Nodup ↔ form.Distinct) ∧
          (¬ form.Distinct → ∃ i < map.size, ∀ groups group, groups.length = map.size →
            (∀ g ∈ group :: groups, g < 2 ^ constellation.bits) →
              made.symbolOf (groups.set i group) = made.symbolOf groups) ∧
          ∀ (limit : Nat) (events : List Event) (s : Session), 0 < constellation.bits →
            (Session.start made limit).run events = .ok s →
              ∃ items symbols, items <+: itemsOf constellation.bits map.size s.accepted ∧
                s.symbolsOut = symbols.flatten ∧
                List.Forall₂ (fun i x => made.HoldsLast i.groups x ∧
                  (form.Distinct → made.Carries i.groups x)) items symbols := by
  obtain ⟨carriers, hcarriers⟩ := CarrierMap.exists_of_build hmap
  obtain ⟨-, hlt, hne, rfl, rfl⟩ := CarrierMap.ofCarriers_eq_ok_iff.1 hcarriers
  have hdistinct := CarrierMap.nodup_iff_distinct hmap
  refine ⟨hne, rfl, hlt, hdistinct, fun constellation fft made hmade => ?_⟩
  obtain ⟨-, rfl, rfl, rfl⟩ := Session.sound_start hmade 0
  refine ⟨fun k hk => made.leading_add_lt hk, ?_, fun hshared => ?_,
    fun limit events s hbits hrun => ?_⟩
  · rw [List.nodup_map_iff fun i j hij => Nat.add_left_cancel hij, hdistinct]
  · rw [← hdistinct, List.nodup_iff_getElem?_ne_getElem?] at hshared
    push Not at hshared
    obtain ⟨i, j, hij, hj, heq⟩ := hshared
    refine ⟨i, Nat.lt_trans hij hj, fun groups group hlength hgroups => ?_⟩
    rw [List.forall_mem_cons] at hgroups
    exact symbolOf_set_of_shared hij heq hlength hgroups.2 hgroups.1
  · obtain ⟨items, rest, hsound⟩ := Session.sound (Session.sound_start hmade limit).1 hbits hrun
    obtain ⟨symbols, hsymbols, hout⟩ := hsound.made_of
    have hemitted : items <+: itemsOf made.constellation.bits made.map.size s.accepted :=
      hsound.whole ▸ (List.prefix_append _ _).trans (List.prefix_append _ _)
    refine ⟨items, symbols, hemitted, hout, ?_⟩
    refine List.forall₂_iff_get.2 ⟨hsymbols.length_eq, fun n hn hn' => ?_⟩
    have hlength := length_groups_of_mem (hemitted.subset (List.get_mem items ⟨n, hn⟩))
    have hsymbol := (List.forall₂_iff_get.1 hsymbols).2 n hn hn'
    exact ⟨holdsLast_of_symbolOf hlength hsymbol,
      fun hall => carries_of_symbolOf (hdistinct.2 hall) hlength hsymbol⟩

/-- A message, and room for its symbols if there are two groups to a symbol. -/
def oneMessage : List Event :=
  [.enqueue {}, .symbols (.reserve 16), .flags (.reserve 16), .ends (.reserve 16), .work "mapper"]

theorem separates_groups_shared :
    ∃ map made s, (CarrierMap.Form.list [1, 1]).build 2 = .ok map ∧
      ofParts .bpsk map 3 = .ok made ∧ (Session.start made 0).run oneMessage = .ok s ∧
      s.symbolsOut.length = 48 ∧ ¬ map.carriers.Nodup ∧
      ∃ items symbols, s.symbolsOut = symbols.flatten ∧
        List.Forall₂ (fun (i : Item) x => made.HoldsLast i.groups x) items symbols := by
  obtain ⟨map, hmap, h⟩ := Fault.exists_ok_of_any (x := (CarrierMap.Form.list [1, 1]).build 2)
    (p := fun map => (ofParts .bpsk map 3).toOption.any fun made =>
      ((Session.start made 0).run oneMessage).toOption.any fun s : Session =>
        s.symbolsOut.length == 48)
    (by decide +kernel)
  obtain ⟨made, hmade, h⟩ := Fault.exists_ok_of_any h
  obtain ⟨s, hs, hlength⟩ := Fault.exists_ok_of_any h
  obtain ⟨-, -, -, hdistinct, hmappers⟩ := separates_groups hmap
  obtain ⟨-, -, -, hsessions⟩ := hmappers .bpsk 3 made hmade
  obtain ⟨items, symbols, -, hout, hsymbols⟩ := hsessions 0 oneMessage s (by decide) hs
  have hshared : ¬ (CarrierMap.Form.list [1, 1]).Distinct := by
    show ¬ [1, 1].Nodup
    decide
  exact ⟨map, made, s, hmap, hmade, hs, by simpa using hlength, fun h => hshared (hdistinct.1 h),
    items, symbols, hout, hsymbols.imp fun _ _ h => h.1⟩

/-- **A map with a shared carrier loses groups.** It is built, a mapper is built with it, and two
different pairs of groups become the same symbol. -/
theorem shared_carrier_loses_group :
    ∃ map made, CarrierMap.ofCarriers [0, 0] 2 = .ok map ∧ ofParts .bpsk map 2 = .ok made ∧
      ¬ map.carriers.Nodup ∧ made.symbolOf [0, 1] = made.symbolOf [1, 1] := by
  obtain ⟨map, hmap, h⟩ := Fault.exists_ok_of_any (x := CarrierMap.ofCarriers [0, 0] 2)
    (p := fun map => (ofParts .bpsk map 2).toOption.any fun _ => true) (by decide +kernel)
  obtain ⟨made, hmade, -⟩ := Fault.exists_ok_of_any h
  obtain ⟨-, -, -, hcarriers, -⟩ := CarrierMap.ofCarriers_eq_ok_iff.1 hmap
  obtain ⟨-, hconstellation, rfl, -⟩ := Session.sound_start hmade 0
  have hbits : made.constellation.bits = 1 := hconstellation ▸ rfl
  have hshared : made.map.carriers[0]? = made.map.carriers[1]? := by
    rw [hcarriers]
    rfl
  have hlength : [1, 1].length = made.map.size := by
    rw [CarrierMap.size, hcarriers]
    rfl
  have hfit : ∀ g ∈ [1, 1], g < 2 ^ made.constellation.bits := by
    rw [hbits]
    decide
  have hzero : 0 < 2 ^ made.constellation.bits := Nat.two_pow_pos _
  have hlost := symbolOf_set_of_shared Nat.zero_lt_one hshared hlength hfit hzero
  exact ⟨made.map, made, hmap, hmade, by rw [hcarriers]; decide, hlost⟩

end FrameMapper

end OfdmBurst
