import Mathlib.Algebra.Group.Int.Defs
import OfdmBurst.Proofs.CyclicPrefixer.Emission

/-!
# Prefixes of every length

A symbol behind a copy of its end is the symbol continued to the left with its own length as the
period: the sample at place `j` of the output is the one at place `j - prefixLength` of the symbol,
counted around. This holds as long as the copy is no longer than the symbol.

A prefixer can be built with longer prefixes. It works as long as there is nothing to do, and the
first symbol that there is room for is a fault. So such a prefixer never emits anything, and what is
said here of the symbols that were extended holds for every prefixer that can be built.

## Main definitions

* `origin` — where a sample of the output comes from

## Main results

* `getElem?_extension` — an extension goes around its symbol
* `Session.Sound.work_fault_iff` — a call of work is a fault exactly if there is a symbol to do and
  the prefix is longer than it
* `Session.extends_cyclically` — both for every session of every prefixer that can be built
-/

namespace OfdmBurst

namespace CyclicPrefixer

variable {α τ : Type}

/-- The place of a symbol whose sample stands at place `j` of what is emitted for it, if the symbol
is thought to go on to the left periodically. -/
def origin (inputSize outputSize j : Nat) : Nat :=
  (((j : ℤ) - (outputSize - inputSize)) % inputSize).toNat

theorem origin_lt {inputSize : Nat} (h : 0 < inputSize) (outputSize j : Nat) :
    origin inputSize outputSize j < inputSize := by
  have hnonneg := Int.emod_nonneg ((j : ℤ) - (outputSize - inputSize))
    (Int.natCast_ne_zero.2 (Nat.ne_of_gt h))
  have hlt := Int.emod_lt_of_pos ((j : ℤ) - (outputSize - inputSize)) (Int.natCast_pos.2 h)
  rw [origin]
  omega

/-- In the prefix the symbol has gone around once. -/
theorem origin_of_lt {inputSize outputSize j : Nat} (hle : outputSize ≤ 2 * inputSize)
    (hj : j < outputSize - inputSize) :
    origin inputSize outputSize j = 2 * inputSize - outputSize + j := by
  rw [origin, ← Int.add_emod_right, Int.emod_eq_of_lt (by omega) (by omega)]
  omega

/-- Behind the prefix stands the symbol itself. -/
theorem origin_of_le {inputSize outputSize j : Nat} (hle : inputSize ≤ outputSize)
    (hj : outputSize - inputSize ≤ j) (hlt : j < outputSize) :
    origin inputSize outputSize j = j - (outputSize - inputSize) := by
  rw [origin, Int.emod_eq_of_lt (by omega) (by omega)]
  omega

/-- **An extension goes around its symbol.** -/
theorem getElem?_extension {b : CyclicPrefixer α τ} (hfits : b.prefixLength ≤ b.inputSize)
    {symbol : List α} (hsymbol : symbol.length = b.inputSize) {j : Nat} (hj : j < b.outputSize) :
    (extension b.prefixLength symbol)[j]? = symbol[origin b.inputSize b.outputSize j]? := by
  have hle := b.input_le
  have hend : (symbol.drop (symbol.length - b.prefixLength)).length = b.prefixLength := by
    rw [List.length_drop]
    omega
  rw [prefixLength] at hfits hend ⊢
  rw [extension]
  by_cases hcopied : j < b.outputSize - b.inputSize
  · rw [List.getElem?_append_left (by rw [hend]; exact hcopied), List.getElem?_drop,
      origin_of_lt (by omega) hcopied]
    congr 1
    omega
  · have hsuffix := Nat.le_of_not_lt hcopied
    rw [List.getElem?_append_right (by rw [hend]; exact hsuffix), hend,
      origin_of_le hle hsuffix hj]

/-- A symbol that was extended is no shorter than its prefix. -/
theorem length_le_of_extended {length : Nat} {symbol samples : List α}
    (h : extended length symbol = .ok samples) : length ≤ symbol.length := by
  by_contra hlong
  rw [extended, if_neg hlong] at h
  cases h

/-- Nothing is done if there is nothing to do. -/
theorem work_of_none_ready [Inhabited α] {b : CyclicPrefixer α τ} {source : String}
    (hready : b.ready = 0) (htags : ∀ t ∈ b.input.tags, b.input.read ≤ t.index) :
    b.work source = .ok (b, b.input.closed && b.input.items == 0) := by
  have hmoved : b.movedTags 0 = [] := by
    rw [movedTags, List.map_eq_nil_iff, List.filter_eq_nil_iff]
    exact fun t ht => by simpa using htags t ht
  have hmarks : b.marks source 0 = [] := by
    rw [marks, endTags, Inlet.front, Nat.zero_mul, List.take_zero]
    split <;> rfl
  rw [work_eq_ok_iff, hready, hmoved, hmarks]
  refine ⟨[], [], b.output, b.input, b.ends, ?_, rfl, ?_, if_pos rfl, ?_, rfl, rfl⟩
  · exact Inlet.firstItems_ok (Nat.zero_le _)
  · exact Outlet.put_attachAll_eq_ok_iff.2 ⟨Nat.dvd_zero _, Nat.zero_le _, rfl⟩
  · split
    · exact if_pos rfl
    · rfl

namespace Session

variable {made : CyclicPrefixer α τ} {s : Session α τ}

namespace Sound

/-- A sample that was emitted is one of the symbol that it was emitted for. -/
theorem getElem?_total (h : s.Sound made) (hfits : made.prefixLength ≤ made.inputSize) {i j : Nat}
    (hi : i < s.prefixer.input.read) (hj : j < made.outputSize) :
    ∃ x, (s.prefixer.output.total s.output).data[i * made.outputSize + j]? = some x ∧
      s.input.data[i * made.inputSize + origin made.inputSize made.outputSize j]? = some x := by
  have hread : s.prefixer.input.read * made.inputSize ≤ s.input.data.length :=
    h.input_width ▸ h.input.read_le
  have hlengths := Record.length_of_mem_firstItems hread
  have hitem := Record.getElem?_firstItems s.input made.inputSize hi
  have horigin := origin_lt made.input_pos made.outputSize j
  have hlt : i * made.inputSize + origin made.inputSize made.outputSize j <
      s.input.data.length := by
    have hle := Nat.mul_le_mul_right made.inputSize (Nat.succ_le_of_lt hi)
    rw [Nat.succ_mul] at hle
    omega
  refine ⟨s.input.data[i * made.inputSize + origin made.inputSize made.outputSize j], ?_,
    List.getElem?_eq_getElem hlt⟩
  rw [h.data_eq, getElem?_flatMap_of_length
    (fun x hx => length_of_extension hfits (hlengths x hx)) i hj, hitem, Option.bind_some,
    getElem?_extension hfits (hlengths _ (List.mem_of_getElem? hitem)) hj,
    List.getElem?_take_of_lt horigin, List.getElem?_drop, List.getElem?_eq_getElem hlt]

/-- The tags at hand are those of the symbols at hand. -/
theorem read_le_of_mem (h : s.Sound made) :
    ∀ t ∈ s.prefixer.input.tags, s.prefixer.input.read ≤ t.index := by
  intro t ht
  rw [h.input.tags] at ht
  exact of_decide_eq_true (List.mem_filter.1 ht).2

section Work

variable [Inhabited α]

/-- With prefixes longer than the symbols a call of work only returns if it has nothing to do. -/
theorem ready_of_long (h : s.Sound made) (hlong : made.inputSize < made.prefixLength)
    {d : CyclicPrefixer α τ} {finished : Bool}
    (hwork : s.prefixer.work s.source = .ok (d, finished)) : s.prefixer.ready = 0 := by
  obtain ⟨symbols, samples, -, -, -, hsymbols, hsamples, -⟩ := work_eq_ok_iff.1 hwork
  obtain ⟨symbols', hsymbols', hcount, hlengths, -⟩ := h.firstItems_eq
  obtain rfl : symbols' = symbols := Except.ok.inj (hsymbols'.symm.trans hsymbols)
  by_contra hready
  obtain ⟨x, hx⟩ := List.exists_mem_of_length_pos (hcount ▸ Nat.pos_of_ne_zero hready)
  obtain ⟨y, hy⟩ := Fault.ok_of_mapM hsamples x hx
  have hfits := length_le_of_extended hy
  rw [h.prefixLength_eq, hlengths x hx] at hfits
  omega

/-- **When a call of work is a fault.** -/
theorem work_fault_iff (h : s.Sound made) :
    (∃ fault, s.prefixer.work s.source = .error fault) ↔
      made.inputSize < made.prefixLength ∧ 0 < s.prefixer.ready := by
  constructor
  · rintro ⟨fault, hfault⟩
    refine ⟨Nat.lt_of_not_le fun hfits => ?_, Nat.pos_of_ne_zero fun hready => ?_⟩
    · obtain ⟨d, finished, hwork, -⟩ := h.work_returns hfits
      rw [hfault] at hwork
      cases hwork
    · rw [work_of_none_ready hready h.read_le_of_mem] at hfault
      cases hfault
  · rintro ⟨hlong, hready⟩
    cases hwork : s.prefixer.work s.source with
    | error fault => exact ⟨fault, rfl⟩
    | ok result => exact absurd (h.ready_of_long hlong hwork) (Nat.ne_of_gt hready)

end Work

end Sound

/-- **Every session of every prefixer is sound**, and no symbol is ever extended if the prefixes are
longer than the symbols. -/
theorem exists_sound_of_any [Inhabited α] {inputSize outputSize : Nat}
    (h : ofSizes inputSize outputSize = .ok made) {source : String} {events : List (Event α τ)}
    (hrun : (start made source).run events = .ok s) :
    s.Sound made ∧ (made.inputSize < made.prefixLength → s.prefixer.input.read = 0) := by
  obtain ⟨hstart, hinput, houtput⟩ := sound_start h source
  by_cases hfits : outputSize ≤ 2 * inputSize
  · obtain ⟨hsound, hshort⟩ := exists_sound h hfits hrun
    exact ⟨hsound, fun hlong => absurd hshort (Nat.not_le_of_lt hlong)⟩
  · have hlong : made.inputSize < made.prefixLength := by
      rw [prefixLength, hinput, houtput]
      omega
    have hfresh : (start made source).prefixer.input.read = 0 := by
      have hle := hstart.input.read_le_items
      rw [show (start made source).input.data.length = 0 from rfl, Nat.zero_div] at hle
      exact Nat.le_zero.1 hle
    have hboth : s.Sound made ∧ s.prefixer.input.read = 0 := by
      refine run_induct (P := fun s => s.Sound made ∧ s.prefixer.input.read = 0) ?_ ?_ ?_ ?_
        ⟨hstart, hfresh⟩ hrun
      · exact fun s p r e h hmeet => ⟨h.1.feedInput hmeet, (h.1.input.meet hmeet).2.2.1.trans h.2⟩
      · exact fun s p r e h hmeet => ⟨h.1.feedEnds hmeet, h.2⟩
      · exact fun s p r e h hmeet => ⟨h.1.readOutput hmeet, h.2⟩
      · intro s d finished h hwork
        have hready := h.1.ready_of_long hlong hwork
        rw [work_of_none_ready hready h.1.read_le_of_mem] at hwork
        cases hwork
        exact h
    exact ⟨hboth.1, fun _ => hboth.2⟩

/-- **Every session of every prefixer goes around the symbols.** For each symbol that it has
consumed it has emitted `outputSize` samples, and the one at place `j` is the sample at place
`j - (outputSize - inputSize)` of the symbol, counted around. The next call of work returns, unless
there is a symbol to do and the prefix is longer than it. Such a symbol is never consumed. -/
theorem extends_cyclically [Inhabited α] {inputSize outputSize : Nat}
    (h : ofSizes inputSize outputSize = .ok made) {source : String} {events : List (Event α τ)}
    (hrun : (start made source).run events = .ok s) :
    ((∃ fault, s.prefixer.work s.source = .error fault) ↔
        2 * inputSize < outputSize ∧ 0 < s.prefixer.ready) ∧
      (2 * inputSize < outputSize → s.prefixer.input.read = 0) ∧
      (s.prefixer.output.total s.output).data.length = s.prefixer.input.read * outputSize ∧
      ∀ i < s.prefixer.input.read, ∀ j < outputSize, ∃ x,
        (s.prefixer.output.total s.output).data[i * outputSize + j]? = some x ∧
        s.input.data[i * inputSize + origin inputSize outputSize j]? = some x := by
  obtain ⟨hsound, hnone⟩ := exists_sound_of_any h hrun
  obtain ⟨-, rfl, rfl⟩ := sound_start h source
  have hlong : 2 * made.inputSize < made.outputSize ↔ made.inputSize < made.prefixLength := by
    have hle := made.input_le
    rw [prefixLength]
    omega
  rw [hlong]
  refine ⟨hsound.work_fault_iff, hnone, ?_⟩
  by_cases hfits : made.prefixLength ≤ made.inputSize
  · exact ⟨hsound.length_total hfits, fun i hi j hj => hsound.getElem?_total hfits hi hj⟩
  · have hread := hnone (Nat.lt_of_not_le hfits)
    refine ⟨?_, fun i hi => absurd (hread ▸ hi) (Nat.not_lt_zero i)⟩
    rw [hsound.data_eq, hread, Nat.zero_mul]
    rfl

theorem extends_cyclically_whole :
    ∃ (made : CyclicPrefixer Nat Nat) (s : Session Nat Nat), ofSizes 2 4 = .ok made ∧
      (start made "prefixer").run
          [.input (.push [1, 2, 3, 4] []), .output (.reserve 8), .work] = .ok s ∧
      (s.prefixer.output.total s.output).data.length = 8 ∧
      (s.prefixer.output.total s.output).data[4]? = some 3 ∧
      ¬ ∃ fault, s.prefixer.work s.source = .error fault := by
  obtain ⟨made, hmade, h⟩ := Fault.exists_ok_of_any (x := ofSizes 2 4)
    (p := fun made : CyclicPrefixer Nat Nat => ((start made "prefixer").run
      [.input (.push [1, 2, 3, 4] []), .output (.reserve 8), .work]).toOption.any
        fun s : Session Nat Nat => decide
          (s.input.data = [1, 2, 3, 4] ∧ s.prefixer.input.read = 2))
    (by decide +kernel)
  obtain ⟨s, hs, h⟩ := Fault.exists_ok_of_any h
  obtain ⟨hinput, hread⟩ := of_decide_eq_true h
  obtain ⟨hfault, -, hlength, hplaces⟩ := extends_cyclically hmade hs
  rw [hread] at hlength
  rw [hread, hinput] at hplaces
  obtain ⟨x, hx, hthird⟩ := hplaces 1 (by decide) 0 (by decide)
  cases hthird
  exact ⟨made, s, hmade, hs, hlength, hx, fun h => absurd (hfault.1 h).1 (by decide)⟩

/-- **A prefix that goes around its symbol twice is a fault**, although the prefixer was built. -/
theorem twofold_prefix_faults :
    ∃ (made : CyclicPrefixer Nat Nat) (s : Session Nat Nat), ofSizes 1 3 = .ok made ∧
      (start made "prefixer").run [.input (.push [7] []), .output (.reserve 3)] = .ok s ∧
      ∃ fault, s.prefixer.work s.source = .error fault := by
  obtain ⟨made, hmade, h⟩ := Fault.exists_ok_of_any (x := ofSizes 1 3)
    (p := fun made : CyclicPrefixer Nat Nat => ((start made "prefixer").run
      [.input (.push [7] []), .output (.reserve 3)]).toOption.any fun s : Session Nat Nat =>
        decide (0 < s.prefixer.ready))
    (by decide +kernel)
  obtain ⟨s, hs, hready⟩ := Fault.exists_ok_of_any h
  obtain ⟨hsound, -⟩ := exists_sound_of_any hmade hs
  obtain ⟨-, hinput, houtput⟩ := sound_start hmade "prefixer"
  have hlong : made.inputSize < made.prefixLength := by
    rw [prefixLength, hinput, houtput]
    decide
  exact ⟨made, s, hmade, hs, hsound.work_fault_iff.2 ⟨hlong, of_decide_eq_true hready⟩⟩

end Session

end CyclicPrefixer

end OfdmBurst
