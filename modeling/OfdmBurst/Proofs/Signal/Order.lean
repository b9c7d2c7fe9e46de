import Mathlib.Data.Prod.Lex
import Mathlib.Order.Compare
import OfdmBurst.Signal.Scalar

/-!
# How machine numbers compare

Two machine numbers compare as the points of a line do, unless one of them is not a number. The line
has five stretches, from negative infinity through the negative numbers, zero and the positive
numbers to infinity. Within the positive numbers the exponent decides, and the mantissa among equal
exponents; within the negative numbers both count downward. The two zeros are at one point.

What is not a number compares as neither less nor equal, not even to itself. So machine numbers are
totally ordered exactly if all of them are numbers.

## Main definitions

* `place`, `placeOf` — the point of the line at which a number stands
* `Orders` — that a comparison is one of two places

## Main results

* `orders_place` — a comparison of numbers is that of their places
* `lt_iff_placeOf_lt`, `le_iff_placeOf_le` — numbers compare as their places do
* `total_iff` — what is totally ordered are numbers
-/

namespace OfdmBurst

namespace MachineNumber

open Float.Model (UnpackedFloat)

/-- Where a number stands: its stretch of the line, then its place in there. -/
def place : UnpackedFloat → ℤ ×ₗ (ℤ ×ₗ ℤ)
  | .infinity .negative => toLex (-2, toLex (0, 0))
  | .finite .negative mantissa exponent _ => toLex (-1, toLex (-exponent, -mantissa))
  | .zero _ => toLex (0, toLex (0, 0))
  | .finite .positive mantissa exponent _ => toLex (1, toLex (exponent, mantissa))
  | .infinity .positive => toLex (2, toLex (0, 0))
  -- what is not a number has no place, and nothing is said of this one
  | .notANumber => toLex (0, toLex (0, 0))

/-! ### Comparisons and places -/

/-- A comparison is one of the places `p` and `q`. -/
def Orders (o : Option Ordering) (p q : ℤ ×ₗ (ℤ ×ₗ ℤ)) : Prop :=
  (o = some .lt ↔ p < q) ∧ (o = some .eq ↔ p = q)

section Places

variable {p q : ℤ ×ₗ (ℤ ×ₗ ℤ)}

theorem orders_of_lt (h : p < q) : Orders (some .lt) p q :=
  ⟨iff_of_true rfl h, iff_of_false nofun h.ne⟩

theorem orders_of_gt (h : q < p) : Orders (some .gt) p q :=
  ⟨iff_of_false nofun h.not_gt, iff_of_false nofun h.ne'⟩

theorem orders_refl (p : ℤ ×ₗ (ℤ ×ₗ ℤ)) : Orders (some .eq) p p :=
  ⟨iff_of_false nofun (lt_irrefl p), iff_of_true rfl rfl⟩

/-- An earlier stretch of the line is in front of a later one. -/
theorem lt_of_stretch_lt {i j : ℤ} (h : i < j) (x y : ℤ ×ₗ ℤ) : toLex (i, x) < toLex (j, y) :=
  Prod.Lex.toLex_lt_toLex.2 (.inl h)

/-- Within a stretch the exponent decides, and then the mantissa. -/
theorem lt_of_within {i a b c d : ℤ} (h : a < b ∨ a = b ∧ c < d) :
    toLex (i, toLex (a, c)) < toLex (i, toLex (b, d)) :=
  Prod.Lex.toLex_lt_toLex.2 (.inr ⟨rfl, Prod.Lex.toLex_lt_toLex.2 h⟩)

/-- What a comparison of exponents and then of mantissas can say. -/
theorem then_cases (e f : ℤ) (m n : ℕ) :
    (e < f ∨ e = f ∧ m < n) ∧ (compare e f).then (compare m n) = .lt ∨
      (e = f ∧ m = n) ∧ (compare e f).then (compare m n) = .eq ∨
      (f < e ∨ f = e ∧ n < m) ∧ (compare e f).then (compare m n) = .gt := by
  rcases lt_trichotomy e f with he | rfl | he
  · exact .inl ⟨.inl he, by rw [compare_lt_iff_lt.2 he]; rfl⟩
  · rw [compare_eq_iff_eq.2 rfl]
    rcases lt_trichotomy m n with hm | rfl | hm
    · exact .inl ⟨.inr ⟨rfl, hm⟩, compare_lt_iff_lt.2 hm⟩
    · exact .inr (.inl ⟨⟨rfl, rfl⟩, compare_eq_iff_eq.2 rfl⟩)
    · exact .inr (.inr ⟨.inr ⟨rfl, hm⟩, compare_gt_iff_gt.2 hm⟩)
  · exact .inr (.inr ⟨.inl he, by rw [compare_gt_iff_gt.2 he]; rfl⟩)

/-- Positive numbers count upward. -/
theorem orders_upward (i e f : ℤ) (m n : ℕ) :
    Orders (some ((compare e f).then (compare m n))) (toLex (i, toLex (e, (m : ℤ))))
      (toLex (i, toLex (f, (n : ℤ)))) := by
  rcases then_cases e f m n with ⟨h, ho⟩ | ⟨⟨rfl, rfl⟩, ho⟩ | ⟨h, ho⟩
  · rw [ho]
    exact orders_of_lt (lt_of_within (by omega))
  · rw [ho]
    exact orders_refl _
  · rw [ho]
    exact orders_of_gt (lt_of_within (by omega))

/-- Negative numbers count downward. -/
theorem orders_downward (i e f : ℤ) (m n : ℕ) :
    Orders (some ((compare e f).then (compare m n)).swap) (toLex (i, toLex (-e, -(m : ℤ))))
      (toLex (i, toLex (-f, -(n : ℤ)))) := by
  rcases then_cases e f m n with ⟨h, ho⟩ | ⟨⟨rfl, rfl⟩, ho⟩ | ⟨h, ho⟩
  · rw [ho]
    exact orders_of_gt (lt_of_within (by omega))
  · rw [ho]
    exact orders_refl _
  · rw [ho]
    exact orders_of_lt (lt_of_within (by omega))

end Places

/-- **A comparison of numbers is one of their places.** -/
theorem orders_place {a b : UnpackedFloat} (ha : a.isNaN = false) (hb : b.isNaN = false) :
    Orders (a.compare b) (place a) (place b) := by
  match a, b with
  | .notANumber, _ => cases ha
  | _, .notANumber => cases hb
  -- on one stretch
  | .infinity .negative, .infinity .negative | .infinity .positive, .infinity .positive
  | .zero _, .zero _ => exact orders_refl _
  | .finite .negative m e _, .finite .negative n f _ => exact orders_downward _ e f m n
  | .finite .positive m e _, .finite .positive n f _ => exact orders_upward _ e f m n
  -- on an earlier one
  | .infinity .negative, .infinity .positive | .infinity .negative, .zero _
  | .infinity .negative, .finite .negative .. | .infinity .negative, .finite .positive ..
  | .finite .negative .., .zero _ | .finite .negative .., .finite .positive ..
  | .finite .negative .., .infinity .positive | .zero _, .finite .positive ..
  | .zero _, .infinity .positive | .finite .positive .., .infinity .positive =>
    exact orders_of_lt (lt_of_stretch_lt (by decide) _ _)
  -- on a later one
  | .infinity .positive, .infinity .negative | .infinity .positive, .zero _
  | .infinity .positive, .finite .negative .. | .infinity .positive, .finite .positive ..
  | .finite .positive .., .zero _ | .finite .positive .., .finite .negative ..
  | .finite .positive .., .infinity .negative | .zero _, .finite .negative ..
  | .zero _, .infinity .negative | .finite .negative .., .infinity .negative =>
    exact orders_of_gt (lt_of_stretch_lt (by decide) _ _)

/-- Where a machine number stands. -/
def placeOf (x : Float32) : ℤ ×ₗ (ℤ ×ₗ ℤ) := place x.toModel.unpack

variable {x y : Float32}

/-- **Numbers compare as their places do.** -/
theorem lt_iff_placeOf_lt (hx : x.isNaN = false) (hy : y.isNaN = false) :
    x < y ↔ placeOf x < placeOf y := by
  refine Iff.trans ?_ (orders_place hx hy).1
  show decide (x.toModel < y.toModel) = true ↔ _
  rw [decide_eq_true_iff]
  exact beq_iff_eq

theorem le_iff_isLE :
    x ≤ y ↔ (x.toModel.unpack.compare y.toModel.unpack).any Ordering.isLE = true := by
  show decide (x.toModel ≤ y.toModel) = true ↔ _
  rw [decide_eq_true_iff]
  rfl

theorem le_iff_placeOf_le (hx : x.isNaN = false) (hy : y.isNaN = false) :
    x ≤ y ↔ placeOf x ≤ placeOf y := by
  have hcompare := orders_place hx hy
  rw [le_iff_isLE, le_iff_lt_or_eq, placeOf, placeOf, ← hcompare.1, ← hcompare.2]
  cases x.toModel.unpack.compare y.toModel.unpack with
  | none => simp
  | some o => cases o <;> simp

/-- A number is what is at most itself. -/
theorem le_self_iff : x ≤ x ↔ x.isNaN = false := by
  refine ⟨fun h => ?_, fun hx => (le_iff_placeOf_le hx hx).2 (le_refl _)⟩
  rw [le_iff_isLE] at h
  show x.toModel.unpack.isNaN = false
  cases hx : x.toModel.unpack with
  | notANumber =>
    rw [hx] at h
    cases h
  | infinity s => rfl
  | zero s => rfl
  | finite s m e => rfl

/-- **Numbers are totally ordered**, and nothing else is. -/
theorem total_iff {ι : Type} {d : ι → Float32} :
    (∀ i j, d i ≤ d j ∨ d j ≤ d i) ↔ ∀ i, (d i).isNaN = false := by
  constructor
  · exact fun h i => le_self_iff.1 ((h i i).elim id id)
  · intro h i j
    rw [le_iff_placeOf_le (h i) (h j), le_iff_placeOf_le (h j) (h i)]
    exact le_total _ _

end MachineNumber

end OfdmBurst
