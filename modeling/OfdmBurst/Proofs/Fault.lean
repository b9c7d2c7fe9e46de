import Mathlib.Algebra.Group.Nat.Defs
import Mathlib.Tactic.Common
import OfdmBurst.Fault

/-!
# Computations that may end in a fault

A computation with a result gave a result at each of its stages. `Fault.bind_eq_ok_iff` reads a
chain of stages backwards from its result, and `Fault.foldlM_induct` does the same for a run of any
length: what every stage preserves, the run preserves.

`Guard` has the operations of a machine that can end in a fault, with when they do not.
-/

namespace OfdmBurst

namespace Fault

variable {ε β γ : Type}

theorem bind_eq_ok_iff {x : Except ε β} {f : β → Except ε γ} {c : γ} :
    x >>= f = .ok c ↔ ∃ b, x = .ok b ∧ f b = .ok c := by
  cases x with
  | error e => simp [bind, Except.bind]
  | ok b => simp [bind, Except.bind]

theorem pure_eq_ok_iff {b c : β} : (pure b : Except ε β) = .ok c ↔ b = c := by
  simp [pure, Except.pure]

theorem map_eq_ok_iff {x : Except ε β} {f : β → γ} {c : γ} :
    f <$> x = .ok c ↔ ∃ b, x = .ok b ∧ f b = c := by
  cases x with
  | error e => simp [Functor.map, Except.map]
  | ok b => simp [Functor.map, Except.map]

theorem map_eq_error_iff {x : Except ε β} {f : β → γ} {e : ε} :
    f <$> x = .error e ↔ x = .error e := by
  cases x with
  | error e => simp [Functor.map, Except.map]
  | ok b => simp [Functor.map, Except.map]

/-- A stage with something pure behind it, read backwards. -/
theorem exists_of_bind_pure {x : Except ε β} {f : β → γ} {c : γ}
    (h : (do let b ← x; return f b) = .ok c) : ∃ b, x = .ok b ∧ f b = c := by
  obtain ⟨b, hx, h⟩ := bind_eq_ok_iff.1 h
  exact ⟨b, hx, pure_eq_ok_iff.1 h⟩

/-- A result that passes a check is a result. -/
theorem exists_ok_of_any {x : Except ε β} {p : β → Bool} (h : x.toOption.any p = true) :
    ∃ b, x = .ok b ∧ p b = true := by
  cases x with
  | error e => cases h
  | ok b => exact ⟨b, rfl, h⟩

theorem word_eq_ok_iff {n m : Nat} : word n = .ok m ↔ n < wordLimit ∧ n = m := by
  unfold word
  split
  next h => simp [h]
  next h => simp [h]

/-- **What every stage preserves, the run preserves.** The stages are those of the run. -/
theorem foldlM_induct_of_mem {α : Type} {P : β → Prop} {f : β → α → Except ε β} {xs : List α}
    (step : ∀ b a c, a ∈ xs → P b → f b a = .ok c → P c) {b c : β} (hb : P b)
    (h : xs.foldlM f b = .ok c) : P c := by
  induction xs generalizing b with
  | nil =>
    rw [List.foldlM_nil, pure_eq_ok_iff] at h
    exact h ▸ hb
  | cons a rest ih =>
    rw [List.foldlM_cons, bind_eq_ok_iff] at h
    obtain ⟨d, hd, hrest⟩ := h
    have hstep := step b a d List.mem_cons_self hb hd
    exact ih (fun b a c ha => step b a c (List.mem_cons_of_mem _ ha)) hstep hrest

/-- What every stage preserves, whatever it is of, the run preserves. -/
theorem foldlM_induct {α : Type} {P : β → Prop} {f : β → α → Except ε β}
    (step : ∀ b a c, P b → f b a = .ok c → P c) {xs : List α} {b c : β} (hb : P b)
    (h : xs.foldlM f b = .ok c) : P c :=
  foldlM_induct_of_mem (fun b a c _ => step b a c) hb h

theorem foldlM_concat_eq_ok_iff {α : Type} {f : β → α → Except ε β} {xs : List α} {a : α}
    {b d : β} : (xs ++ [a]).foldlM f b = .ok d ↔ ∃ c, xs.foldlM f b = .ok c ∧ f c a = .ok d := by
  rw [List.foldlM_append, bind_eq_ok_iff]
  simp only [List.foldlM_cons, List.foldlM_nil, bind_pure]

/-- A run, and one stage more. -/
theorem foldlM_concat {α : Type} {f : β → α → Except ε β} {xs : List α} {a : α} {b c d : β}
    (h : xs.foldlM f b = .ok c) (hlast : f c a = .ok d) : (xs ++ [a]).foldlM f b = .ok d :=
  foldlM_concat_eq_ok_iff.2 ⟨c, h, hlast⟩

/-! ### One stage for each element -/

section Stages

variable {α : Type} {f : α → Except ε β}

theorem mapM_cons_eq_ok_iff {x : α} {xs : List α} {zs : List β} :
    (x :: xs).mapM f = .ok zs ↔ ∃ y ys, f x = .ok y ∧ xs.mapM f = .ok ys ∧ zs = y :: ys := by
  rw [List.mapM_cons, bind_eq_ok_iff]
  constructor
  · rintro ⟨y, hy, h⟩
    obtain ⟨ys, hys, h⟩ := bind_eq_ok_iff.1 h
    exact ⟨y, ys, hy, hys, (pure_eq_ok_iff.1 h).symm⟩
  · rintro ⟨y, ys, hy, hys, rfl⟩
    exact ⟨y, hy, bind_eq_ok_iff.2 ⟨ys, hys, rfl⟩⟩

theorem length_mapM {xs : List α} {ys : List β} (h : xs.mapM f = .ok ys) :
    ys.length = xs.length := by
  induction xs generalizing ys with
  | nil =>
    rw [List.mapM_nil, pure_eq_ok_iff] at h
    rw [← h]
    rfl
  | cons x xs ih =>
    obtain ⟨y, zs, -, hzs, rfl⟩ := mapM_cons_eq_ok_iff.1 h
    rw [List.length_cons, List.length_cons, ih hzs]

theorem mapM_returns {xs : List α} (h : ∀ x ∈ xs, ∃ y, f x = .ok y) : ∃ ys, xs.mapM f = .ok ys := by
  induction xs with
  | nil => exact ⟨[], rfl⟩
  | cons x xs ih =>
    obtain ⟨y, hy⟩ := h x List.mem_cons_self
    obtain ⟨ys, hys⟩ := ih fun x hx => h x (List.mem_cons_of_mem _ hx)
    exact ⟨y :: ys, mapM_cons_eq_ok_iff.2 ⟨y, ys, hy, hys, rfl⟩⟩

theorem ok_of_mapM {xs : List α} {ys : List β} (h : xs.mapM f = .ok ys) :
    ∀ x ∈ xs, ∃ y, f x = .ok y := by
  induction xs generalizing ys with
  | nil => exact fun x hx => absurd hx List.not_mem_nil
  | cons x xs ih =>
    obtain ⟨y, zs, hy, hzs, -⟩ := mapM_cons_eq_ok_iff.1 h
    exact List.forall_mem_cons.2 ⟨⟨y, hy⟩, ih hzs⟩

/-- A result for each element, given one by one. -/
theorem mapM_of_forall₂ {xs : List α} {ys : List β}
    (h : List.Forall₂ (fun x y => f x = .ok y) xs ys) : xs.mapM f = .ok ys := by
  induction h with
  | nil => rfl
  | cons hx _ ih => exact mapM_cons_eq_ok_iff.2 ⟨_, _, hx, ih, rfl⟩

end Stages

end Fault

/-! ### Guards

The program computes with natural numbers where a machine has bytes and words. A guard is an
operation together with what a machine asks of it, and it is a fault to ask for more. -/

namespace Guard

/-- A difference that must not be negative. -/
def sub (a b : Nat) : Except Fault Nat := if b ≤ a then .ok (a - b) else .error .overflow

/-- A byte shifted up by less than its width, without losing a bit. -/
def shiftUp (value n : Nat) : Except Fault Nat :=
  if n < 8 ∧ value <<< n < 256 then .ok (value <<< n) else .error .overflow

/-- A byte shifted down by less than its width. -/
def shiftDown (value n : Nat) : Except Fault Nat :=
  if n < 8 then .ok (value >>> n) else .error .overflow

/-- The mask of the low bits, made in sixteen bits. -/
def mask (n : Nat) : Except Fault Nat := if n < 16 then sub (1 <<< n) 1 else .error .overflow

/-- The elements from place `i` to before place `j`. -/
def slice {α : Type} (xs : List α) (i j : Nat) : Except Fault (List α) :=
  if i ≤ j ∧ j ≤ xs.length then .ok ((xs.drop i).take (j - i)) else .error .outOfRange

theorem sub_ok {a b : Nat} (h : b ≤ a) : sub a b = .ok (a - b) := if_pos h

theorem shiftUp_ok {value n : Nat} (hn : n < 8) (hvalue : value < 2 ^ (8 - n)) :
    shiftUp value n = .ok (value <<< n) := by
  refine if_pos ⟨hn, ?_⟩
  have hlt : value * 2 ^ n < 2 ^ (8 - n) * 2 ^ n :=
    Nat.mul_lt_mul_of_pos_right hvalue (Nat.two_pow_pos n)
  rw [← Nat.pow_add, Nat.sub_add_cancel (Nat.le_of_lt hn)] at hlt
  rw [Nat.shiftLeft_eq]
  exact hlt

theorem shiftDown_ok {value n : Nat} (hn : n < 8) : shiftDown value n = .ok (value >>> n) :=
  if_pos hn

theorem mask_ok {n : Nat} (hn : n < 16) : mask n = .ok (2 ^ n - 1) := by
  rw [mask, if_pos hn, Nat.one_shiftLeft]
  exact sub_ok (Nat.two_pow_pos n)

theorem slice_ok {α : Type} {xs : List α} {i j : Nat} (hij : i ≤ j) (hj : j ≤ xs.length) :
    slice xs i j = .ok ((xs.drop i).take (j - i)) := if_pos ⟨hij, hj⟩

end Guard

end OfdmBurst
