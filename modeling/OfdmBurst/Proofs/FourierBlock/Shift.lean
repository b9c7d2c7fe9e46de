import OfdmBurst.Proofs.FourierBlock.Emission
import OfdmBurst.Proofs.Signal.Fourier
import OfdmBurst.Proofs.Stream.Comparison

/-!
# There and back with the zero frequency in the middle

A shifted block turns its symbols by half their length, on the side of the transform where the
frequencies are. Behind a block into the frequency domain, a block back into the time domain makes
the same turn a second time, before its own transform. The second turn undoes the first one if the
length is even or one, and only then is the zero frequency in the middle. For every other length a
symbol comes back turned by one place, and the zero frequency stands one place behind the middle.

What the plans compute is left open. It does not matter, because nothing stands between the two
turns but a gain, which treats all samples alike.

## Main definitions

* `Chained` — sessions of two blocks, one fed with what the other has put out

## Main results

* `symbol_frequency`, `symbol_time` — where a shifted block turns its symbols
* `Chained.emitted_eq`, `Chained.tags_eq` — what comes out of the second block
* `shifts_cancel` — when shifted blocks there and back do the same as blocks without a shift
-/

namespace OfdmBurst

namespace FourierBlock

variable {length : Nat} {plan plan' : Plan length} {gain gain' : Option Float32}
  {forward inverse plainForward plainInverse : FourierBlock}

instance : Nontrivial Sample := ⟨Phasor.zero, Phasor.one, by decide⟩

/-! ### Symbols -/

/-- A block into the frequency domain turns its results. -/
theorem symbol_frequency (h : withPlan length .frequency true gain plan = .ok forward)
    (hplain : withPlan length .frequency false gain plan = .ok plainForward) (xs : List Sample) :
    forward.symbol xs = Fourier.rotated (plainForward.symbol xs) := by
  obtain ⟨-, rfl⟩ := withPlan_eq_ok_iff.1 h
  obtain ⟨-, rfl⟩ := withPlan_eq_ok_iff.1 hplain
  cases gain with
  | none => rfl
  | some factor => exact Fourier.map_rotated _ _

/-- A block into the time domain turns what it is given. -/
theorem symbol_time (h : withPlan length .time true gain plan = .ok inverse)
    (hplain : withPlan length .time false gain plan = .ok plainInverse) (xs : List Sample) :
    inverse.symbol xs = plainInverse.symbol (Fourier.rotated xs) := by
  obtain ⟨-, rfl⟩ := withPlan_eq_ok_iff.1 h
  obtain ⟨-, rfl⟩ := withPlan_eq_ok_iff.1 hplain
  rfl

/-- There and back, the two turns are one turn by twice half the length. -/
theorem symbol_there_and_back
    (hforward : withPlan length .frequency true gain plan = .ok forward)
    (hinverse : withPlan length .time true gain' plan' = .ok inverse)
    (hplainForward : withPlan length .frequency false gain plan = .ok plainForward)
    (hplainInverse : withPlan length .time false gain' plan' = .ok plainInverse)
    {x : List Sample} (hx : x.length = length) :
    inverse.symbol (forward.symbol x) =
      plainInverse.symbol ((plainForward.symbol x).rotate (2 * (length / 2))) := by
  have hsize := length_of_withPlan hplainForward
  rw [symbol_frequency hforward hplainForward, symbol_time hinverse hplainInverse,
    Fourier.rotated_rotated, plainForward.length_symbol (hx.trans hsize.symm), hsize]

/-! ### Streams of symbols -/

/-- Sessions of two blocks, the second of which is fed with what the first has put out. Some of it
may still be on its way. -/
structure Chained (first second : FourierBlock) (f v : Session) : Prop where
  /-- The first session is a run of the first block. -/
  ran_first : ∃ events, (Session.start first).run events = .ok f
  /-- The second session is a run of the second block. -/
  ran_second : ∃ events, (Session.start second).run events = .ok v
  /-- What the second one was fed is the beginning of what the first one has put out. -/
  fed : v.input.data <+: f.emitted.data
  /-- The symbols it was fed have the tags they were put out with. -/
  fed_tags : ∀ i, i * second.length < v.input.data.length →
    v.input.tags.filter (·.index == i) = f.emitted.tags.filter (·.index == i)

namespace Chained

variable {domain domain' : Domain} {shifted shifted' : Bool} {first second : FourierBlock}
  {f v : Session}

theorem exists_sound (h : Chained first second f v)
    (hfirst : withPlan length domain shifted gain plan = .ok first)
    (hsecond : withPlan length domain' shifted' gain' plan' = .ok second) :
    f.Sound first ∧ v.Sound second := by
  obtain ⟨_, hrunFirst⟩ := h.ran_first
  obtain ⟨_, hrunSecond⟩ := h.ran_second
  exact ⟨Session.exists_sound hfirst hrunFirst, Session.exists_sound hsecond hrunSecond⟩

theorem works (h : Chained first second f v)
    (hfirst : withPlan length domain shifted gain plan = .ok first)
    (hsecond : withPlan length domain' shifted' gain' plan' = .ok second) : f.Works ∧ v.Works := by
  obtain ⟨hf, hv⟩ := h.exists_sound hfirst hsecond
  exact ⟨hf.works, hv.works⟩

/-- **What comes out of the second block** are the symbols of the stream, each transformed twice. -/
theorem emitted_eq (h : Chained first second f v)
    (hfirst : withPlan length domain shifted gain plan = .ok first)
    (hsecond : withPlan length domain' shifted' gain' plan' = .ok second)
    {stream : List (List Sample)} (hstream : ∀ x ∈ stream, x.length = length)
    (hfed : f.input.data <+: stream.flatten) :
    v.emitted.data = (stream.take v.block.input.read).flatMap
      fun x => second.symbol (first.symbol x) := by
  obtain ⟨hf, hv⟩ := h.exists_sound hfirst hsecond
  have hsize := length_of_withPlan hfirst
  rw [← hsize] at hstream
  have hbetween : v.input.data <+: (stream.map first.symbol).flatten := by
    rw [← List.flatMap_def]
    refine h.fed.trans ?_
    rw [hf.emitted_of_stream hstream hfed]
    have htaken : stream.take f.block.input.read <+: stream := List.take_prefix _ _
    exact htaken.flatMap _
  have hmapped : ∀ x ∈ stream.map first.symbol, x.length = second.length :=
    List.forall_mem_map.2 fun x hx => by
      rw [first.length_symbol (hstream x hx), hsize, length_of_withPlan hsecond]
  rw [hv.emitted_of_stream hmapped hbetween, ← List.map_take, List.flatMap_map]

/-- The tags of a symbol go with it through both blocks. -/
theorem tags_eq (h : Chained first second f v)
    (hfirst : withPlan length domain shifted gain plan = .ok first)
    (hsecond : withPlan length domain' shifted' gain' plan' = .ok second) (i : Nat) :
    v.emitted.tags.filter (·.index == i) =
      if i < v.block.input.read then f.input.tags.filter (·.index == i) else [] := by
  obtain ⟨hf, hv⟩ := h.exists_sound hfirst hsecond
  have hsize : first.length = second.length :=
    (length_of_withPlan hfirst).trans (length_of_withPlan hsecond).symm
  have hgiven : v.block.input.read * second.length ≤ v.input.data.length :=
    hv.input_width ▸ hv.input.read_le
  have hread : v.block.input.read ≤ f.block.input.read := by
    refine Nat.le_of_mul_le_mul_right (hgiven.trans ?_) hv.length_pos
    rw [← hsize, ← hf.length_emitted]
    exact h.fed.length_le
  rw [hv.tags_on i]
  split
  next hi =>
    have hpassed := Nat.lt_of_lt_of_le (Nat.mul_lt_mul_of_pos_right hi hv.length_pos) hgiven
    rw [h.fed_tags i hpassed, hf.tags_on i, if_pos (Nat.lt_of_lt_of_le hi hread)]
  · rfl

end Chained

/-- **Shifts there and back.** The second turn undoes the first one exactly if the length of the
symbols is even or one. Exactly then the zero frequency is in the middle. It is always half the
length, rounded up, ahead. Two shifted blocks, one fed with what the other has put out, transform
every symbol of a stream as two blocks without a shift do, but turn it by twice half its length in
between. So if the length is even or one, the same comes out of them. The tags of a symbol stay on
it either way. -/
theorem shifts_cancel (hforward : withPlan length .frequency true gain plan = .ok forward)
    (hinverse : withPlan length .time true gain' plan' = .ok inverse)
    (hplainForward : withPlan length .frequency false gain plan = .ok plainForward)
    (hplainInverse : withPlan length .time false gain' plan' = .ok plainInverse) :
    ((∀ xs : List Sample, xs.length = length → Fourier.rotated (Fourier.rotated xs) = xs) ↔
        length % 2 = 0 ∨ length = 1) ∧
      ((∀ xs : List Sample, xs.length = length → (Fourier.rotated xs)[length / 2]? = xs[0]?) ↔
        length % 2 = 0 ∨ length = 1) ∧
      (∀ xs : List Sample, xs.length = length →
        (Fourier.rotated xs)[(length + 1) / 2 % length]? = xs[0]?) ∧
      (∀ xs, forward.symbol xs = Fourier.rotated (plainForward.symbol xs)) ∧
      (∀ xs, inverse.symbol xs = plainInverse.symbol (Fourier.rotated xs)) ∧
      ∀ (stream : List (List Sample)) (f v f' v' : Session), (∀ x ∈ stream, x.length = length) →
        Chained forward inverse f v → f.input.data <+: stream.flatten →
        Chained plainForward plainInverse f' v' → f'.input.data <+: stream.flatten →
          (f.Works ∧ v.Works) ∧ (f'.Works ∧ v'.Works) ∧
          v.emitted.data = ((stream.take v.block.input.read).flatMap fun x =>
            plainInverse.symbol ((plainForward.symbol x).rotate (2 * (length / 2)))) ∧
          v'.emitted.data = ((stream.take v'.block.input.read).flatMap fun x =>
            plainInverse.symbol (plainForward.symbol x)) ∧
          (∀ i, v.emitted.tags.filter (·.index == i) =
            if i < v.block.input.read then f.input.tags.filter (·.index == i) else []) ∧
          (∀ i, v'.emitted.tags.filter (·.index == i) =
            if i < v'.block.input.read then f'.input.tags.filter (·.index == i) else []) ∧
          (length % 2 = 0 ∨ length = 1 → v.block.input.read = v'.block.input.read →
            v.emitted.data = v'.emitted.data) := by
  have hsize := length_of_withPlan hplainForward
  obtain ⟨hpos, -⟩ := withPlan_eq_ok_iff.1 hforward
  refine ⟨Fourier.rotated_rotated_iff hpos, Fourier.centred_iff hpos, fun xs hxs => ?_,
    symbol_frequency hforward hplainForward, symbol_time hinverse hplainInverse,
    fun stream f v f' v' hstream hchain hfed hchain' hfed' => ?_⟩
  · rw [← hxs]
    exact Fourier.getElem?_rotated_first (hxs.symm ▸ hpos)
  have hworks := hchain.works hforward hinverse
  have hworks' := hchain'.works hplainForward hplainInverse
  have hshifted : v.emitted.data = ((stream.take v.block.input.read).flatMap fun x =>
      plainInverse.symbol ((plainForward.symbol x).rotate (2 * (length / 2)))) := by
    rw [hchain.emitted_eq hforward hinverse hstream hfed]
    refine List.flatMap_congr fun x hx => ?_
    exact symbol_there_and_back hforward hinverse hplainForward hplainInverse
      (hstream x (List.mem_of_mem_take hx))
  have hplain := hchain'.emitted_eq hplainForward hplainInverse hstream hfed'
  refine ⟨hworks, hworks', hshifted, hplain, hchain.tags_eq hforward hinverse,
    hchain'.tags_eq hplainForward hplainInverse, fun hlength hread => ?_⟩
  rw [hshifted, hplain, hread]
  refine List.flatMap_congr fun x hx => ?_
  have hlengthX := (hstream x (List.mem_of_mem_take hx)).trans hsize.symm
  have hsymbol := (plainForward.length_symbol hlengthX).trans hsize
  rw [← hsymbol, ← Fourier.rotated_rotated, (Fourier.rotated_rotated_iff hpos).2 hlength _ hsymbol]

/-- The transform of two samples, which is the same into either domain. -/
def sumAndDifference : Plan 2 where
  apply
    | [x, y] => [x + y, x - y]
    | xs => xs
  length_apply xs h := by
    obtain ⟨x, y, rfl⟩ := List.length_eq_two.1 h
    rfl

/-- One symbol, and room for what becomes of it. -/
def oneSymbol (xs : List Sample) : List Event :=
  [.input (.push xs []), .output (.reserve 1), .work]

theorem shifts_cancel_two_samples :
    ∃ (forward inverse : FourierBlock) (f v : Session),
      withPlan 2 .frequency true none sumAndDifference = .ok forward ∧
      withPlan 2 .time true none sumAndDifference = .ok inverse ∧
      Chained forward inverse f v ∧ f.input.data = [Phasor.zero, Phasor.one] ∧
      v.emitted.data = [Phasor.zero, Phasor.one + Phasor.one] := by
  have hruns : ∀ shifted : Bool,
      (withPlan 2 .frequency shifted none sumAndDifference).toOption.any fun forward =>
        (withPlan 2 .time shifted none sumAndDifference).toOption.any fun inverse =>
          ((Session.start forward).run (oneSymbol [Phasor.zero, Phasor.one])).toOption.any fun f =>
            ((Session.start inverse).run (oneSymbol f.emitted.data)).toOption.any fun v => decide
              (f.input.data = [Phasor.zero, Phasor.one] ∧ v.input = f.emitted ∧
                v.block.input.read = 1 ∧
                (shifted = false → v.emitted.data = [Phasor.zero, Phasor.one + Phasor.one])) := by
    decide +kernel
  obtain ⟨forward, hforward, h⟩ := Fault.exists_ok_of_any (hruns true)
  obtain ⟨inverse, hinverse, h⟩ := Fault.exists_ok_of_any h
  obtain ⟨f, hf, h⟩ := Fault.exists_ok_of_any h
  obtain ⟨v, hv, h⟩ := Fault.exists_ok_of_any h
  obtain ⟨hinput, hfed, hread, -⟩ := of_decide_eq_true h
  obtain ⟨plainForward, hplainForward, h⟩ := Fault.exists_ok_of_any (hruns false)
  obtain ⟨plainInverse, hplainInverse, h⟩ := Fault.exists_ok_of_any h
  obtain ⟨f', hf', h⟩ := Fault.exists_ok_of_any h
  obtain ⟨v', hv', h⟩ := Fault.exists_ok_of_any h
  obtain ⟨hinput', hfed', hread', hdata⟩ := of_decide_eq_true h
  have hchain : Chained forward inverse f v :=
    ⟨⟨_, hf⟩, ⟨_, hv⟩, hfed ▸ List.prefix_refl _, fun _ _ => hfed ▸ rfl⟩
  have hchain' : Chained plainForward plainInverse f' v' :=
    ⟨⟨_, hf'⟩, ⟨_, hv'⟩, hfed' ▸ List.prefix_refl _, fun _ _ => hfed' ▸ rfl⟩
  obtain ⟨-, -, -, -, -, hstreams⟩ :=
    shifts_cancel hforward hinverse hplainForward hplainInverse
  obtain ⟨-, -, -, -, -, -, hsame⟩ := hstreams [[Phasor.zero, Phasor.one]] f v f' v' (by simp)
    hchain (by rw [hinput]; exact List.prefix_refl _)
    hchain' (by rw [hinput']; exact List.prefix_refl _)
  refine ⟨forward, inverse, f, v, hforward, hinverse, hchain, hinput, ?_⟩
  rw [hsame (.inl rfl) (hread.trans hread'.symm), hdata rfl]

/-- **Three samples come back turned by one place**, and the first of them goes behind the middle,
where two blocks without a shift leave them as they are. -/
theorem shifts_turn_three_samples :
    ∃ (plan : Plan 3) (forward inverse plainForward plainInverse : FourierBlock),
      withPlan 3 .frequency true none plan = .ok forward ∧
      withPlan 3 .time true none plan = .ok inverse ∧
      withPlan 3 .frequency false none plan = .ok plainForward ∧
      withPlan 3 .time false none plan = .ok plainInverse ∧
      let symbol : List Sample := [Phasor.one, Phasor.zero, Phasor.zero]
      plainForward.symbol symbol = symbol ∧
      forward.symbol symbol = [Phasor.zero, Phasor.zero, Phasor.one] ∧
      plainInverse.symbol (plainForward.symbol symbol) = symbol ∧
      inverse.symbol (forward.symbol symbol) = [Phasor.zero, Phasor.one, Phasor.zero] ∧
      inverse.symbol (forward.symbol symbol) ≠ plainInverse.symbol (plainForward.symbol symbol) :=
  ⟨⟨id, fun _ h => h⟩, _, _, _, _, withPlan_eq_ok_iff.2 ⟨by decide, rfl⟩,
    withPlan_eq_ok_iff.2 ⟨by decide, rfl⟩, withPlan_eq_ok_iff.2 ⟨by decide, rfl⟩,
    withPlan_eq_ok_iff.2 ⟨by decide, rfl⟩, rfl, rfl, rfl, rfl, by decide⟩

end FourierBlock

end OfdmBurst
