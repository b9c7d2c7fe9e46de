import Mathlib.Data.List.Rotate
import Mathlib.Logic.Nontrivial.Defs
import OfdmBurst.Signal.Fourier

/-!
# Turning a symbol by half its length

A symbol of the frequency domain has the zero frequency first. `Fourier.rotated` turns it by half
its length, rounded down, to bring that sample to the middle, and the same turn is made again on the
way back. A symbol of even length comes back as it was, because two half turns are a whole one. Of
an odd length two halves leave out one sample: then the zero frequency stands one place behind the
middle, and a symbol comes back turned by one place.

## Main results

* `Fourier.rotated_eq_rotate` — the turn as a rotation of lists
* `Fourier.getElem?_rotated_first` — where the first sample goes
* `Fourier.centred_iff` — the lengths for which it goes to the middle
* `Fourier.rotated_rotated_iff` — the lengths for which two turns leave every symbol as it was
-/

namespace OfdmBurst

namespace Fourier

variable {α β : Type}

theorem rotated_eq_rotate (xs : List α) : rotated xs = xs.rotate (xs.length / 2) :=
  (List.rotate_eq_drop_append_take (Nat.div_le_self _ _)).symm

theorem map_rotated (f : α → β) (xs : List α) : (rotated xs).map f = rotated (xs.map f) := by
  rw [rotated_eq_rotate, rotated_eq_rotate, List.map_rotate, List.length_map]

/-- Two turns are one by twice as much. -/
theorem rotated_rotated (xs : List α) : rotated (rotated xs) = xs.rotate (2 * (xs.length / 2)) := by
  rw [rotated_eq_rotate xs, rotated_eq_rotate, List.length_rotate, List.rotate_rotate, Nat.two_mul]

/-- The first sample goes half the length ahead, rounded up. -/
theorem getElem?_rotated_first {xs : List α} (hxs : 0 < xs.length) :
    (rotated xs)[(xs.length + 1) / 2 % xs.length]? = xs[0]? := by
  have hwhole : (xs.length + 1) / 2 + xs.length / 2 = xs.length := by omega
  rw [rotated_eq_rotate, List.getElem?_rotate (Nat.mod_lt _ hxs), Nat.mod_add_mod, hwhole,
    Nat.mod_self]

/-- Two halves, rounded down, make up whole lengths for these lengths only. -/
theorem dvd_two_mul_half_iff {n : Nat} : n ∣ 2 * (n / 2) ↔ n % 2 = 0 ∨ n = 1 := by
  constructor
  · rintro ⟨c, hc⟩
    by_contra hodd
    have hless : 2 * (n / 2) = n - 1 := by omega
    cases c with
    | zero => omega
    | succ c =>
      rw [Nat.mul_succ] at hc
      omega
  · rintro (heven | rfl)
    · exact ⟨1, by omega⟩
    · exact ⟨0, rfl⟩

/-- A turn by `k` brings the first sample of every symbol to place `i` if the two make up whole
lengths. -/
theorem getElem?_rotate_first_iff [Nontrivial α] {n i k : Nat} (hi : i < n) :
    (∀ xs : List α, xs.length = n → (xs.rotate k)[i]? = xs[0]?) ↔ n ∣ i + k := by
  constructor
  · intro h
    -- a symbol whose first sample is unlike all others
    obtain ⟨a, b, hab⟩ := exists_pair_ne α
    have hlength : (a :: List.replicate (n - 1) b).length = n := by
      rw [List.length_cons, List.length_replicate]
      omega
    have hplace := h _ hlength
    rw [List.getElem?_rotate (hlength.symm ▸ hi), hlength, List.getElem?_cons_zero] at hplace
    refine Nat.dvd_of_mod_eq_zero ?_
    cases hmod : (i + k) % n with
    | zero => rfl
    | succ j =>
      rw [hmod, List.getElem?_cons_succ, List.getElem?_replicate] at hplace
      split at hplace
      · exact absurd (Option.some.inj hplace).symm hab
      · cases hplace
  · rintro h xs rfl
    rw [List.getElem?_rotate hi, Nat.mod_eq_zero_of_dvd h]

/-- **The first sample goes to the middle** of every symbol of an even length, and of length one. -/
theorem centred_iff [Nontrivial α] {n : Nat} (hn : 0 < n) :
    (∀ xs : List α, xs.length = n → (rotated xs)[n / 2]? = xs[0]?) ↔ n % 2 = 0 ∨ n = 1 := by
  rw [← dvd_two_mul_half_iff, Nat.two_mul,
    ← getElem?_rotate_first_iff (α := α) (Nat.div_lt_self hn Nat.one_lt_two)]
  refine forall_congr' fun xs => forall_congr' fun hlength => ?_
  rw [rotated_eq_rotate, hlength]

/-- **Two turns leave every symbol as it was** if the length is even or one. -/
theorem rotated_rotated_iff [Nontrivial α] {n : Nat} (hn : 0 < n) :
    (∀ xs : List α, xs.length = n → rotated (rotated xs) = xs) ↔ n % 2 = 0 ∨ n = 1 := by
  rw [← dvd_two_mul_half_iff]
  constructor
  · intro h
    rw [← Nat.zero_add (2 * (n / 2)), ← getElem?_rotate_first_iff (α := α) hn]
    intro xs hlength
    rw [← hlength, ← rotated_rotated, h xs hlength]
  · rintro ⟨c, hc⟩ xs rfl
    rw [rotated_rotated, hc, List.rotate_length_mul]

end Fourier

end OfdmBurst
