import OfdmBurst.Proofs.FourierBlock.Shift

/-!
# A Fourier block works symbol by symbol

A call of work may take many symbols at once. They are copied to the room of the outlet and
transformed where they lie, one behind the other, by a kernel that needs scratch space, and a symbol
that is turned is first copied aside. Neither space is cleared in between, so every symbol finds
what the one before it left behind, and the first one what the last call left. The scaling comes at
the end, over the whole batch.

None of this is seen from the outside. A kernel computes the same from whatever is in its scratch
space, which is what a plan says, and what was copied aside is read only where it was just written.
So a batch is the symbols of the block, each made of one symbol that came in. This and the invariant
of `Emission` make a session a map over the symbols of its stream, in which the tags stay at their
symbols, however the stream was cut into batches.

## Main definitions

* `Kernel` — what computes a plan with scratch space
* `Workspace` — what lies in the scratch space and aside
* `visit`, `sweep`, `batch` — one symbol, several and the whole of a call, where they lie

## Main results

* `Workspace.turn_fst` — a symbol is turned where it lies
* `sweep_fst`, `batch_fst` — what becomes of symbols does not depend on the workspace
* `maps_symbolwise` — a session maps the symbols of its stream
-/

namespace OfdmBurst

/-- A way to compute a plan with scratch space. What it finds there makes no difference, and it
leaves behind what it likes. -/
structure Kernel {length : Nat} (plan : Plan length) where
  /-- What becomes of the samples and of the scratch space. -/
  run : (xs scratch : List Sample) → List Sample × List Sample
  /-- Samples of the right length become what the plan makes of them. -/
  run_fst : ∀ xs scratch, xs.length = length → (run xs scratch).1 = plan.apply xs

/-- A kernel that leaves the samples it was given. -/
def Kernel.untidy {length : Nat} (plan : Plan length) : Kernel plan where
  run xs scratch := (plan.apply xs, xs ++ scratch)
  run_fst _ _ _ := rfl

/-- Pieces of the front of a list are pieces of the list. -/
theorem cutInto_take {α : Type} (width n : Nat) (xs : List α) :
    cutInto width n (xs.take (n * width)) = cutInto width n xs := by
  induction n generalizing xs with
  | zero => rfl
  | succ n ih =>
    have hle : width ≤ n * width + width := Nat.le_add_left _ _
    rw [cutInto_succ, cutInto_succ, Nat.succ_mul, List.take_take, Nat.min_eq_left hle,
      List.drop_take, Nat.add_sub_cancel, ih]

namespace FourierBlock

/-! ### Where the symbols lie -/

/-- The scratch space of a kernel, and the last symbol that was copied aside. -/
structure Workspace where
  scratch : List Sample
  aside : List Sample

/-- Turn a symbol where it lies: it is copied aside, and read from there half its length ahead. -/
def Workspace.turn (w : Workspace) (xs : List Sample) : List Sample × Workspace :=
  let w := { w with aside := xs }
  let ahead (k : Nat) : Sample := w.aside.getD ((k + xs.length / 2) % xs.length) Phasor.zero
  ((List.range xs.length).map ahead, w)

theorem Workspace.turn_fst (w : Workspace) (xs : List Sample) :
    (w.turn xs).1 = Fourier.rotated xs := by
  rw [Fourier.rotated_eq_rotate]
  refine List.ext_getElem (by simp [turn]) fun k hk _ => ?_
  have hlt : k < xs.length := by simpa [turn] using hk
  have hplace : (k + xs.length / 2) % xs.length < xs.length := Nat.mod_lt _ (Nat.zero_lt_of_lt hlt)
  simp [turn, List.getElem_rotate, hplace]

/-- Turn a symbol where it lies, or leave it. -/
def Workspace.turnIf (w : Workspace) (p : Prop) [Decidable p] (xs : List Sample) :
    List Sample × Workspace :=
  if p then w.turn xs else (xs, w)

theorem Workspace.turnIf_fst (w : Workspace) (p : Prop) [Decidable p] (xs : List Sample) :
    (w.turnIf p xs).1 = if p then Fourier.rotated xs else xs := by
  rw [turnIf]
  split
  · exact w.turn_fst xs
  · rfl

variable (b : FourierBlock)

/-- Transform a symbol where it lies. -/
def visit (kernel : Kernel b.plan) (w : Workspace) (xs : List Sample) : List Sample × Workspace :=
  let (arranged, w) := w.turnIf (b.shifted ∧ b.domain = .time) xs
  let (result, scratch) := kernel.run arranged w.scratch
  Workspace.turnIf { w with scratch } (b.shifted ∧ b.domain = .frequency) result

/-- Transform the first `n` symbols where they lie. What is behind them stays. -/
def sweep (kernel : Kernel b.plan) : (n : Nat) → Workspace → List Sample → List Sample × Workspace
  | 0, w, xs => (xs, w)
  | n + 1, w, xs =>
    let (done, w) := b.visit kernel w (xs.take b.length)
    let (rest, w) := sweep kernel n w (xs.drop b.length)
    (done ++ rest, w)

/-- All samples scaled. -/
def scaled (xs : List Sample) : List Sample :=
  match b.gain with
  | some factor => xs.map (·.scale factor)
  | none => xs

/-- What a call of work does with `n` symbols: it transforms all of them, and then scales. -/
def batch (kernel : Kernel b.plan) (n : Nat) (w : Workspace) (xs : List Sample) :
    List Sample × Workspace :=
  let (results, w) := b.sweep kernel n w xs
  (b.scaled results, w)

/-- What becomes of a symbol before it is scaled. -/
def placed (xs : List Sample) : List Sample :=
  let result := b.plan.apply (if b.shifted ∧ b.domain = .time then Fourier.rotated xs else xs)
  if b.shifted ∧ b.domain = .frequency then Fourier.rotated result else result

variable {b}

theorem symbol_eq_scaled : b.symbol = fun xs => b.scaled (b.placed xs) := rfl

/-- Symbols can be scaled one by one. -/
theorem scaled_flatMap (symbols : List (List Sample)) :
    b.scaled (symbols.flatMap b.placed) = symbols.flatMap b.symbol := by
  rw [symbol_eq_scaled]
  unfold scaled
  split
  · exact List.map_flatMap
  · rfl

/-- **A symbol is transformed the same in every workspace.** -/
theorem visit_fst (kernel : Kernel b.plan) (w : Workspace) {xs : List Sample}
    (hxs : xs.length = b.length) : (b.visit kernel w xs).1 = b.placed xs := by
  have harranged :
      (if b.shifted ∧ b.domain = .time then Fourier.rotated xs else xs).length = b.length := by
    split
    · exact (Fourier.length_rotated xs).trans hxs
    · exact hxs
  simp only [visit, Workspace.turnIf_fst, kernel.run_fst _ _ harranged]
  rfl

/-- **So are several**, each in the workspace that the one before it left. -/
theorem sweep_fst (kernel : Kernel b.plan) (n : Nat) (w : Workspace) {xs : List Sample}
    (hxs : n * b.length ≤ xs.length) :
    (b.sweep kernel n w xs).1 =
      (cutInto b.length n xs).flatMap b.placed ++ xs.drop (n * b.length) := by
  induction n generalizing w xs with
  | zero =>
    rw [sweep, cutInto_zero, List.flatMap_nil, Nat.zero_mul, List.drop_zero, List.nil_append]
  | succ n ih =>
    rw [Nat.succ_mul] at hxs ⊢
    have hfirst : (xs.take b.length).length = b.length := by
      rw [List.length_take]
      omega
    have hrest : n * b.length ≤ (xs.drop b.length).length := by
      rw [List.length_drop]
      omega
    simp only [sweep, visit_fst kernel w hfirst, ih _ hrest]
    rw [cutInto_succ, List.flatMap_cons, List.drop_drop, Nat.add_comm b.length, List.append_assoc]

/-- **What becomes of a batch** is what becomes of its symbols. -/
theorem batch_fst (kernel : Kernel b.plan) (n : Nat) (w : Workspace) {xs : List Sample}
    (hxs : xs.length = n * b.length) :
    (b.batch kernel n w xs).1 = (cutInto b.length n xs).flatMap b.symbol := by
  have hnone : xs.drop (n * b.length) = [] := List.drop_eq_nil_of_le (Nat.le_of_eq hxs)
  simp only [batch, sweep_fst kernel n w hxs.ge, hnone, List.append_nil, scaled_flatMap]

/-! ### Sessions -/

namespace Session

variable {made : FourierBlock} {s : Session}

/-- The symbols that were emitted are those that were consumed, each transformed. -/
theorem Sound.firstItems_emitted (h : s.Sound made) :
    s.emitted.firstItems made.length s.block.input.read =
      (s.input.firstItems made.length s.block.input.read).map made.symbol := by
  have hle : s.block.input.read * made.length ≤ s.input.data.length :=
    h.input_width ▸ h.input.read_le
  have hlengths : ∀ x ∈ (s.input.firstItems made.length s.block.input.read).map made.symbol,
      x.length = made.length :=
    List.forall_mem_map.2 fun x hx =>
      made.length_symbol (Record.length_of_mem_firstItems hle x hx)
  have hitems := Record.firstItems_of_flatten hlengths (h.data_eq.trans List.flatMap_def)
  rwa [List.length_map, Record.length_firstItems] at hitems

/-- **A call of work emits what a kernel makes of the symbols where they lie**, whatever the last
call left in its workspace. -/
theorem Sound.data_of_work (h : s.Sound made) (kernel : Kernel made.plan) (w : Workspace)
    {d : FourierBlock} {finished : Bool} (hwork : s.block.work = .ok (d, finished)) :
    (d.output.total s.output).data = s.emitted.data ++
      (made.batch kernel s.block.ready w (s.block.input.front s.block.ready)).1 := by
  obtain ⟨_, _, input, -, -, hinput, rfl, -⟩ := work_eq_ok_iff.1 hwork
  have hafter : _ = _ := (h.work hwork).data_eq
  obtain ⟨symbols, hsymbols, -, hitems⟩ := h.firstItems_eq
  have hready : s.block.ready ≤ s.block.input.items := Nat.min_le_left _ _
  have hwhole : s.block.ready * s.block.input.width ≤ s.block.input.buffer.toList.length := by
    rw [← s.block.input.buffer.size_eq]
    exact (Nat.le_div_iff_mul_le s.block.input.width_pos).1 hready
  have hfront : (s.block.input.front s.block.ready).length = s.block.ready * made.length := by
    rw [Inlet.front, List.length_take_of_le hwhole, h.input_width]
  rw [Inlet.firstItems_ok hready] at hsymbols
  cases hsymbols
  refine hafter.trans ?_
  rw [(Inlet.consume_frame hinput).2, hitems, List.flatMap_append, ← h.data_eq,
    batch_fst kernel _ w hfront, Inlet.front, h.input_width, cutInto_take]

/-- **A Fourier block maps the symbols of its stream**, whatever plan it is built with, whatever
kernel computes the plan, and whatever happens to its terminals. As many symbols have been emitted
as were consumed, each made of the symbol at the same place alone, and with the tags of that symbol
in their order. The next call of work returns. It emits what the kernel makes of a batch where it
lies, whatever is left in its workspace, and it finishes exactly if the stream has ended and no
symbol is left. -/
theorem maps_symbolwise {length : Nat} {domain : Domain} {shifted : Bool} {gain : Option Float32}
    {plan : Plan length} (h : withPlan length domain shifted gain plan = .ok made)
    {events : List Event} (hrun : (start made).run events = .ok s) :
    s.block.input.read = s.block.output.written ∧
    s.emitted.data.length = s.block.output.written * length ∧
    (∀ i < s.block.output.written, (s.emitted.data.drop (i * length)).take length =
      made.symbol ((s.input.data.drop (i * length)).take length)) ∧
    (∀ i, s.emitted.tags.filter (·.index == i) =
      if i < s.block.output.written then s.input.tags.filter (·.index == i) else []) ∧
    ∃ d finished, s.block.work = .ok (d, finished) ∧
      (finished = true ↔ s.block.input.closed = true ∧ d.input.items = 0) ∧
      ∀ (kernel : Kernel made.plan) (w : Workspace),
        (d.output.total s.output).data = s.emitted.data ++
          (made.batch kernel s.block.ready w (s.block.input.front s.block.ready)).1 := by
  have hsize := length_of_withPlan h
  have hsound := exists_sound h hrun
  obtain ⟨d, finished, hwork, -⟩ := hsound.work_returns
  rw [hsound.written_eq, ← hsize]
  refine ⟨rfl, hsound.length_emitted, fun i hi => ?_, hsound.tags_on, d, finished, hwork, ?_,
    fun kernel w => hsound.data_of_work kernel w hwork⟩
  · have hitem := congrArg (·[i]?) hsound.firstItems_emitted
    simpa [Record.getElem?_firstItems _ _ hi] using hitem
  · obtain ⟨_, _, input, -, -, hinput, rfl, rfl⟩ := work_eq_ok_iff.1 hwork
    rw [Bool.and_eq_true, beq_iff_eq, Inlet.closed_consume hinput]

/-- Three symbols, of which the second is tagged. The reader takes the first one before it grants
room for two more, and there are two calls of work. -/
def twoBatches : List Event :=
  [.output (.reserve 1), .input (.push [Phasor.zero, Phasor.one] []),
    .input (.push [Phasor.one, Phasor.one, Phasor.one, Phasor.zero]
      [{ index := 0, key := Tag.txEnd, value := .flag, source := some "mapper" }]),
    .work, .output .take, .output (.reserve 2), .work, .input .close]

theorem maps_symbolwise_two_batches :
    ∃ (made : FourierBlock) (s : Session),
      withPlan 2 .frequency true none sumAndDifference = .ok made ∧
      (start made).run twoBatches = .ok s ∧ s.block.output.written = 3 ∧
      (s.emitted.data.drop 2).take 2 = made.symbol [Phasor.one, Phasor.one] ∧
      (s.emitted.tags.filter (·.index == 1)).map (·.source) = [some "mapper"] ∧
      ∃ d finished, s.block.work = .ok (d, finished) ∧ (finished = true ↔ d.input.items = 0) ∧
        ∀ w, (d.output.total s.output).data = s.emitted.data ++
          (made.batch (.untidy _) s.block.ready w (s.block.input.front s.block.ready)).1 := by
  have hruns : (withPlan 2 .frequency true none sumAndDifference).toOption.any fun made =>
      ((start made).run twoBatches).toOption.any fun s => decide
        (s.block.output.written = 3 ∧ s.block.input.closed = true ∧
          (s.input.data.drop 2).take 2 = [Phasor.one, Phasor.one] ∧
          (s.input.tags.filter (·.index == 1)).map (·.source) = [some "mapper"]) := by
    decide +kernel
  obtain ⟨made, hmade, h⟩ := Fault.exists_ok_of_any hruns
  obtain ⟨s, hrun, h⟩ := Fault.exists_ok_of_any h
  obtain ⟨hwritten, hclosed, hsymbol, htags⟩ := of_decide_eq_true h
  obtain ⟨-, -, hsymbols, htagsOn, d, finished, hwork, hfinished, hbatch⟩ :=
    maps_symbolwise hmade hrun
  refine ⟨made, s, hmade, hrun, hwritten, ?_, ?_, d, finished, hwork, ?_, hbatch _⟩
  · rw [← hsymbol]
    exact hsymbols 1 (by rw [hwritten]; decide)
  · rw [htagsOn 1, hwritten, if_pos (by decide), htags]
  · rw [hfinished, hclosed]
    exact and_iff_right rfl

end Session

end FourierBlock

end OfdmBurst
