import Mathlib.Algebra.Order.Field.Basic
import Mathlib.Order.Interval.Set.Basic
import OfdmBurst.Proofs.Carrier.Constellation
import OfdmBurst.Proofs.Carrier.Demapping
import OfdmBurst.Proofs.Carrier.Map
import OfdmBurst.Proofs.Signal.Circle

/-!
# The tracked phase

The angle by which the results of a symbol are off moves the frequency, and the frequency together
with the angle moves the phase. The phase is meant to be an angle of the first turn, from zero to
two times half a turn. So a phase that was moved out of the turn is put back, by one whole turn.

One turn is enough as long as a symbol moves the phase by no more than that. Nothing sees to it. An
angle is at most half a turn, but the gains that multiply it are any numbers that are not negative,
and the frequency is a sum over all symbols since the last reset. With a phase gain of nine a single
symbol that is off by a quarter turn moves the phase by nine quarter turns, and five quarter turns
are left of them.

This module says for every run exactly when the phase is where it is meant to be. The step is
`wrapped_mem_firstTurn_iff`, and `Paced` is what a run keeps: the frequency has grown by at most one
frequency gain times half a turn in each symbol.

## Main definitions

* `Demapper.Event`, `Demapper.run` — symbols and resets in any order
* `Demapper.movedBy` — where a symbol moves the phase before it is put back

## Main results

* `Demapper.wrapped_mem_firstTurn_iff` — what one turn can put back
* `Demapper.phase_mem_turn_iff` — when the phase is in the first turn
* `Demapper.phase_leaves_turn` — a symbol that moves it out
-/

namespace OfdmBurst

namespace Demapper

/-! ### One turn -/

section Exact

variable {τ : Type} [Field τ] [LinearOrder τ] [CircleFunctions τ]

/-- The angles of the first turn. -/
def firstTurn (τ : Type) [Field τ] [LinearOrder τ] [CircleFunctions τ] : Set τ :=
  Set.Ico 0 (2 * CircleFunctions.pi)

/-- Where a symbol whose results are off by an angle moves the phase, before it is put back. -/
def movedBy (d : Demapper τ) (angle : τ) : τ :=
  d.phase + ((d.frequency - d.gains.frequency * angle) - d.gains.phase * angle)

theorem whole_two_mul_pi :
    (Scalar.whole 2 * Elementary.pi : τ) = 2 * CircleFunctions.pi := by
  show ((2 : ℕ) : τ) * CircleFunctions.pi = 2 * CircleFunctions.pi
  rw [Nat.cast_ofNat]

/-- A phase is put back by one turn, if it is outside. -/
theorem wrapped_eq [IsStrictOrderedRing τ] (phase : τ) :
    wrapped phase =
      if 2 * CircleFunctions.pi ≤ phase then phase - 2 * CircleFunctions.pi
      else if phase < 0 then phase + 2 * CircleFunctions.pi else phase := by
  have hzero : (Scalar.whole 0 : τ) = 0 := Nat.cast_zero
  rw [wrapped, whole_two_mul_pi, hzero]
  by_cases hle : 2 * CircleFunctions.pi ≤ phase
  · have hnonneg : ¬ phase - 2 * CircleFunctions.pi < 0 := not_lt.2 (sub_nonneg.2 hle)
    simp only [if_pos hle]
    exact if_neg hnonneg
  · simp only [if_neg hle]

/-- **What one turn can put back**: a phase that is less than a turn above the first one, or at most
a turn below it. -/
theorem wrapped_mem_firstTurn_iff [IsStrictOrderedRing τ] (hpi : 0 < (CircleFunctions.pi : τ))
    (phase : τ) :
    wrapped phase ∈ firstTurn τ ↔
      -(2 * CircleFunctions.pi) ≤ phase ∧ phase < 2 * (2 * CircleFunctions.pi) := by
  rw [wrapped_eq, firstTurn, Set.mem_Ico]
  split_ifs with habove hbelow
  · constructor
    · rintro ⟨-, hlt⟩
      constructor <;> linarith
    · rintro ⟨-, hlt⟩
      constructor <;> linarith
  · constructor
    · rintro ⟨hle, -⟩
      constructor <;> linarith
    · rintro ⟨hle, -⟩
      constructor <;> linarith
  · exact ⟨fun _ => ⟨by linarith, by linarith⟩, fun _ => ⟨by linarith, by linarith⟩⟩

/-! ### Runs -/

/-- What happens to a demapper. -/
inductive Event (τ : Type) where
  | reset
  | symbol (map : CarrierMap) (values : List (Phasor τ))

/-- A demapper after an event. -/
def act (d : Demapper τ) : Event τ → Except Fault (Demapper τ)
  | .reset => .ok d.reset
  | .symbol map values => do return (← d.demap (σ := τ) map values).1

/-- A demapper after several events. -/
def run (d : Demapper τ) (events : List (Event τ)) : Except Fault (Demapper τ) :=
  events.foldlM act d

/-- The number of symbols since the last reset, or since the start if there was none. -/
def symbolsSince (events : List (Event τ)) : Nat :=
  events.foldl (fun n e => match e with
    | .reset => 0
    | .symbol _ _ => n + 1) 0

/-- What the tracking has come to after `n` symbols. -/
structure Paced (g : Gains τ) (n : Nat) (d : Demapper τ) : Prop where
  /-- The gains stay. -/
  gains_eq : d.gains = g
  /-- Every symbol moves the frequency by at most the gain times half a turn. -/
  frequency_le : |d.frequency| ≤ n * (g.frequency * CircleFunctions.pi)
  /-- As long as it moves by no more than a turn, the phase is wrapped into the first one. -/
  phase_mem : n = 0 ∨ n * g.frequency + g.phase ≤ 2 → d.phase ∈ firstTurn τ

variable {d e : Demapper τ} {g : Gains τ} {n : Nat}

omit [Field τ] [LinearOrder τ] [CircleFunctions τ] in
theorem symbolsSince_concat (events : List (Event τ)) (e : Event τ) :
    symbolsSince (events ++ [e]) = match e with
      | .reset => 0
      | .symbol _ _ => symbolsSince events + 1 := by
  rw [symbolsSince, List.foldl_append]
  rfl

theorem run_concat_eq_ok_iff {events : List (Event τ)} {event : Event τ} :
    d.run (events ++ [event]) = .ok e ↔
      ∃ f, d.run events = .ok f ∧ f.act event = .ok e := Fault.foldlM_concat_eq_ok_iff

/-- What a symbol does to the tracking. -/
theorem act_symbol {map : CarrierMap} {values : List (Phasor τ)}
    (h : d.act (.symbol map values) = .ok e) :
    ∃ ds, d.decisions map values = .ok ds ∧ e.gains = d.gains ∧
      e.frequency = d.frequency - d.gains.frequency * lag ds ∧
      e.phase = wrapped (d.movedBy (lag ds)) := by
  obtain ⟨⟨f, report⟩, hdemap, rfl⟩ := Fault.exists_of_bind_pure h
  obtain ⟨ds, hds, rfl, -⟩ := demap_eq_ok_iff.1 hdemap
  exact ⟨ds, hds, rfl, rfl, rfl⟩

theorem paced_fresh [IsStrictOrderedRing τ] (h : CircleFunctions.Bounded τ) (c : Constellation τ)
    (carriers : Nat) (g : Gains τ) : (start c carriers g).Paced g 0 where
  gains_eq := rfl
  frequency_le := by
    have hzero : (start c carriers g).frequency = 0 := Nat.cast_zero
    rw [hzero, abs_zero, Nat.cast_zero, zero_mul]
  phase_mem _ := by
    have hzero : (start c carriers g).phase = 0 := Nat.cast_zero
    have hpi := h.pi_pos
    rw [hzero, firstTurn, Set.mem_Ico]
    exact ⟨le_refl 0, by linarith⟩

/-- **One more symbol.** -/
theorem Paced.symbol [IsStrictOrderedRing τ] (hd : d.Paced g n) (h : CircleFunctions.Bounded τ)
    (hphase : 0 ≤ g.phase) (hfrequency : 0 ≤ g.frequency) {map : CarrierMap} {values : List (Phasor τ)}
    (hact : d.act (.symbol map values) = .ok e) : e.Paced g (n + 1) := by
  obtain ⟨ds, -, hgains, hfreq, hmoved⟩ := act_symbol hact
  have hpi := h.pi_pos
  have hlag : |lag ds| ≤ CircleFunctions.pi := abs_le.2 ⟨h.neg_pi_le _ _, h.angle_le_pi _ _⟩
  have hscaled : ∀ gain : τ, 0 ≤ gain → |gain * lag ds| ≤ gain * CircleFunctions.pi := by
    intro gain hgain
    rw [abs_mul, abs_of_nonneg hgain]
    exact mul_le_mul_of_nonneg_left hlag hgain
  have hstep : |e.frequency| ≤ (n + 1 : ℕ) * (g.frequency * CircleFunctions.pi) := by
    calc |e.frequency| = |d.frequency - g.frequency * lag ds| := by rw [hfreq, hd.gains_eq]
      _ ≤ |d.frequency| + |g.frequency * lag ds| := abs_sub _ _
      _ ≤ n * (g.frequency * CircleFunctions.pi) + g.frequency * CircleFunctions.pi :=
        add_le_add hd.frequency_le (hscaled _ hfrequency)
      _ = (n + 1 : ℕ) * (g.frequency * CircleFunctions.pi) := by
        rw [Nat.cast_succ]
        ring
  refine ⟨hgains.trans hd.gains_eq, hstep, fun hbudget => ?_⟩
  have hfew : (n + 1 : ℕ) * g.frequency + g.phase ≤ 2 := hbudget.resolve_left (Nat.succ_ne_zero n)
  have hprevious : d.phase ∈ firstTurn τ := by
    refine hd.phase_mem (.inr ?_)
    rw [Nat.cast_succ] at hfew
    linarith
  have hmove : |e.frequency - g.phase * lag ds| ≤ 2 * CircleFunctions.pi := by
    calc |e.frequency - g.phase * lag ds| ≤ |e.frequency| + |g.phase * lag ds| := abs_sub _ _
      _ ≤ (n + 1 : ℕ) * (g.frequency * CircleFunctions.pi) + g.phase * CircleFunctions.pi :=
        add_le_add hstep (hscaled _ hphase)
      _ = ((n + 1 : ℕ) * g.frequency + g.phase) * CircleFunctions.pi := by ring
      _ ≤ 2 * CircleFunctions.pi := mul_le_mul_of_nonneg_right hfew hpi.le
  obtain ⟨hlow, hhigh⟩ := abs_le.1 hmove
  obtain ⟨hnonneg, hlt⟩ := Set.mem_Ico.1 hprevious
  have hwhere : d.movedBy (lag ds) = d.phase + (e.frequency - g.phase * lag ds) := by
    rw [movedBy, hfreq, hd.gains_eq]
  rw [hmoved, wrapped_mem_firstTurn_iff hpi, hwhere]
  constructor <;> linarith

/-- **What a run keeps.** -/
theorem paced_run [IsStrictOrderedRing τ] (h : CircleFunctions.Bounded τ) {c : Constellation τ}
    {carriers : Nat} (hphase : 0 ≤ g.phase) (hfrequency : 0 ≤ g.frequency)
    {events : List (Event τ)} (hrun : (start c carriers g).run events = .ok d) :
    d.Paced g (symbolsSince events) := by
  induction events using List.reverseRecOn generalizing d with
  | nil =>
    cases hrun
    exact paced_fresh h c carriers g
  | append_singleton events event ih =>
    obtain ⟨f, hf, hact⟩ := run_concat_eq_ok_iff.1 hrun
    have hpaced := ih hf
    rw [symbolsSince_concat]
    cases event with
    | reset =>
      cases hact
      rw [reset, hpaced.gains_eq]
      exact paced_fresh h _ _ g
    | symbol map values => exact hpaced.symbol h hphase hfrequency hact

/-- **When the phase is in the first turn.** From the start on, over any symbols and resets, the
frequency is at most as many times the frequency gain times half a turn as there were symbols since
the last reset. With no symbol since then, or with so few that their number times the frequency gain
and the phase gain come to two at most, the phase is in the first turn. Whatever the number, a symbol
leaves the phase where it moves it, up to one turn, and that is in the first turn exactly if it is
moved to less than a turn above it or to at most a turn below it. -/
theorem phase_mem_turn_iff [IsStrictOrderedRing τ] (h : CircleFunctions.Bounded τ)
    {c : Constellation τ} {carriers : Nat} (hphase : 0 ≤ g.phase) (hfrequency : 0 ≤ g.frequency)
    {events : List (Event τ)} (hrun : (start c carriers g).run events = .ok d) :
    |d.frequency| ≤ symbolsSince events * (g.frequency * CircleFunctions.pi) ∧
    (symbolsSince events = 0 ∨ symbolsSince events * g.frequency + g.phase ≤ 2 →
      d.phase ∈ firstTurn τ) ∧
    ∀ map values e, d.act (.symbol map values) = .ok e →
      ∃ ds, d.decisions map values = .ok ds ∧
        (e.phase = d.movedBy (lag ds) ∨
          e.phase = d.movedBy (lag ds) - 2 * CircleFunctions.pi ∨
          e.phase = d.movedBy (lag ds) + 2 * CircleFunctions.pi) ∧
        (e.phase ∈ firstTurn τ ↔ -(2 * CircleFunctions.pi) ≤ d.movedBy (lag ds) ∧
          d.movedBy (lag ds) < 2 * (2 * CircleFunctions.pi)) := by
  have hpaced := paced_run h hphase hfrequency hrun
  refine ⟨hpaced.frequency_le, hpaced.phase_mem, fun map values e hact => ?_⟩
  obtain ⟨ds, hds, -, -, hmoved⟩ := act_symbol hact
  refine ⟨ds, hds, ?_, hmoved ▸ wrapped_mem_firstTurn_iff h.pi_pos _⟩
  rw [hmoved, wrapped_eq]
  split_ifs
  · exact .inr (.inl rfl)
  · exact .inr (.inr rfl)
  · exact .inl rfl

/-! ### One carrier with two points -/

/-- Two points on the in-phase axis. -/
def axis : Constellation ℝ := Constellation.grayCoded [⟨-1, 0⟩, ⟨1, 0⟩] (List.cons_ne_nil _ _)

/-- A symbol a quarter turn off. -/
def quarterOff : Event ℝ := .symbol soleCarrier [⟨0, 1⟩]

/-- Two symbols with usual gains, each behind a reset or the start, and one more. -/
theorem phase_mem_turn_iff_usual :
    ∃ d e, (start axis 1 ⟨1 / 4, 1 / 64, 1 / 20⟩).run [quarterOff, .reset, quarterOff] = .ok d ∧
      d.act quarterOff = .ok e ∧ d.phase ∈ firstTurn ℝ ∧
      ∃ ds, d.decisions soleCarrier [⟨0, 1⟩] = .ok ds ∧
        (e.phase ∈ firstTurn ℝ ↔ -(2 * Real.pi) ≤ d.movedBy (lag ds) ∧
          d.movedBy (lag ds) < 2 * (2 * Real.pi)) := by
  obtain ⟨e, hall⟩ : ∃ e, (start axis 1 ⟨1 / 4, 1 / 64, 1 / 20⟩).run
      ([quarterOff, .reset, quarterOff] ++ [quarterOff]) = .ok e := ⟨_, rfl⟩
  obtain ⟨d, hrun, hact⟩ := run_concat_eq_ok_iff.1 hall
  obtain ⟨-, hmem, hsymbol⟩ := phase_mem_turn_iff CircleFunctions.bounded_real (by norm_num)
    (by norm_num) hrun
  have hone : symbolsSince [quarterOff, .reset, quarterOff] = 1 := rfl
  obtain ⟨ds, hds, -, hiff⟩ := hsymbol soleCarrier [⟨0, 1⟩] e hact
  refine ⟨d, e, hrun, hact, hmem (.inr ?_), ds, hds, hiff⟩
  rw [hone]
  norm_num

/-- The points are equally far from a sample a quarter turn off, so it is decided for the first. -/
theorem nearest_quarterOff : axis.nearest ⟨0, 1⟩ = ⟨0, by decide⟩ := by
  refine Constellation.nearest_eq (fun j hj => absurd hj (Nat.not_lt_zero _)) fun j hj => ?_
  obtain ⟨j, hlt⟩ := j
  obtain rfl : j = 1 := by
    have hsize : axis.size = 2 := rfl
    have hpos : 0 < j := hj
    omega
  show ¬ ((0 - 1 : ℝ) * (0 - 1) + (1 - 0) * (1 - 0) < (0 - -1) * (0 - -1) + (1 - 0) * (1 - 0))
  norm_num

theorem lag_of_quarterOff {x : Decision axis} (hturned : x.turned = ⟨0, 1⟩)
    (hplace : x.place = axis.nearest x.turned) : lag [x] = -(Real.pi / 2) := by
  have hpoint : x.point = ⟨-1, 0⟩ := by
    rw [Decision.point, hplace, hturned, nearest_quarterOff]
    rfl
  have hoff : sum (· + ·) Phasor.zero (fun x : Decision axis => x.turned * x.point.conj) [x] =
      ⟨0, -1⟩ := by
    show Phasor.zero + x.turned * x.point.conj = (⟨0, -1⟩ : Phasor ℝ)
    rw [hturned, hpoint, Phasor.zero_eq]
    show (⟨0 + (0 * -1 - 1 * -0), 0 + (0 * -0 + 1 * -1)⟩ : Phasor ℝ) = ⟨0, -1⟩
    norm_num
  have hdown : (⟨0, -1⟩ : ℂ) = -Complex.I := Complex.ext (by simp) (by simp)
  rw [lag, hoff]
  show Complex.arg ⟨0, -1⟩ = -(Real.pi / 2)
  rw [hdown, Complex.arg_neg_I]

/-- From the start it is off by a quarter turn. -/
theorem lag_quarterOff (g : Gains ℝ) :
    ∃ ds, (start axis 1 g).decisions soleCarrier [⟨0, 1⟩] = .ok ds ∧ lag ds = -(Real.pi / 2) := by
  have hphase : (start axis 1 g).phase = 0 := Nat.cast_zero
  have hturned :
      (⟨0, 1⟩ * Phasor.turn (start axis 1 g).phase * Phasor.one : Phasor ℝ) = ⟨0, 1⟩ := by
    rw [hphase, Phasor.turn_zero CircleFunctions.level_real, Phasor.mul_one_eq, Phasor.mul_one_eq]
  exact ⟨[decideOne axis g.equalizer (Phasor.turn (start axis 1 g).phase) ⟨0, 1⟩ Phasor.one], rfl,
    lag_of_quarterOff hturned rfl⟩

/-- **A symbol that moves the phase out.** With a phase gain of nine it moves the phase by nine
quarter turns, and one whole turn is taken off, no more. -/
theorem phase_leaves_turn :
    ∃ d, (start axis 1 ⟨9, 0, 0⟩).run [quarterOff] = .ok d ∧ d.phase ∉ firstTurn ℝ := by
  obtain ⟨d, hrun⟩ : ∃ d, (start axis 1 ⟨9, 0, 0⟩).run ([] ++ [quarterOff]) = .ok d := ⟨_, rfl⟩
  refine ⟨d, hrun, ?_⟩
  obtain ⟨_, hstart, hact⟩ := run_concat_eq_ok_iff.1 hrun
  cases hstart
  obtain ⟨ds, hds, -, -, hmoved⟩ := act_symbol hact
  obtain ⟨ds', hds', hlag⟩ := lag_quarterOff ⟨9, 0, 0⟩
  obtain rfl : ds' = ds := Except.ok.inj (hds'.symm.trans hds)
  have hphase : (start axis 1 ⟨9, 0, 0⟩ : Demapper ℝ).phase = 0 := Nat.cast_zero
  have hfrequency : (start axis 1 ⟨9, 0, 0⟩ : Demapper ℝ).frequency = 0 := Nat.cast_zero
  have hwhere : (start axis 1 ⟨9, 0, 0⟩).movedBy (lag ds') = 9 * (Real.pi / 2) := by
    rw [movedBy, hphase, hfrequency, hlag]
    show (0 : ℝ) + ((0 - 0 * -(Real.pi / 2)) - 9 * -(Real.pi / 2)) = 9 * (Real.pi / 2)
    ring
  have hpi := Real.pi_pos
  rw [hmoved, wrapped_mem_firstTurn_iff Real.pi_pos, hwhere]
  rintro ⟨-, hlt⟩
  have hfour : 9 * (Real.pi / 2) < 2 * (2 * Real.pi) := hlt
  linarith

end Exact

end Demapper

end OfdmBurst
