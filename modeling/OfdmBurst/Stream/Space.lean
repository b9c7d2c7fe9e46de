/-!
# Room for elements

A reader grants room before anything is written to it, often far more than will ever be filled. So
room is kept as a number of places. The places at the front that were written to hold what was
written, and all others hold the default.

## Main definitions

* `Space`, `Space.toList`: the room, and what its places hold
* `Space.overwrite`, `Space.overwriteAt`: writing
* `Space.take`, `Space.drop`, `Space.resize`: using up room, and granting it
-/

namespace OfdmBurst

/-- Room for `size` elements. What was written stands at the front. -/
structure Space (α : Type) where
  front : List α
  size : Nat
  front_le : front.length ≤ size

namespace Space

variable {α : Type}

/-- No room. -/
def empty : Space α := ⟨[], 0, Nat.le_refl 0⟩

/-- What the places hold. -/
def toList [Inhabited α] (s : Space α) : List α :=
  s.front ++ List.replicate (s.size - s.front.length) default

/-- What the first `n` places hold. -/
def take [Inhabited α] (s : Space α) (n : Nat) : List α :=
  s.front.take n ++ List.replicate (min n s.size - s.front.length) default

/-- The places behind the first `n`. -/
def drop (s : Space α) (n : Nat) : Space α :=
  ⟨s.front.drop n, s.size - n, by have := s.front_le; simp; omega⟩

/-- Write to the first places. -/
def overwrite (s : Space α) (xs : List α) (h : xs.length ≤ s.size) : Space α :=
  ⟨xs ++ s.front.drop xs.length, s.size, by have := s.front_le; simp; omega⟩

theorem take_eq [Inhabited α] (s : Space α) (n : Nat) : s.take n = s.toList.take n := by
  simp only [take, toList, List.take_append, List.take_replicate]
  congr 2
  omega

theorem length_toList [Inhabited α] (s : Space α) : s.toList.length = s.size := by
  have := s.front_le
  simp [toList]; omega

theorem length_take_le [Inhabited α] (s : Space α) (n : Nat) : (s.take n).length ≤ n := by
  rw [take_eq]; exact List.length_take_le ..

/-- Write to the places behind the first `place`. -/
def overwriteAt [Inhabited α] (s : Space α) (place : Nat) (xs : List α)
    (h : place + xs.length ≤ s.size) : Space α :=
  s.overwrite (s.take place ++ xs) (by have := s.length_take_le place; simp; omega)

/-- As many places as told. What is in them stays. -/
def resize (s : Space α) (size : Nat) : Space α :=
  ⟨s.front.take size, size, List.length_take_le ..⟩

@[simp] theorem toList_drop [Inhabited α] (s : Space α) (n : Nat) :
    (s.drop n).toList = s.toList.drop n := by
  simp only [drop, toList, List.drop_append, List.drop_replicate, List.length_drop]
  congr 2
  omega

@[simp] theorem toList_overwrite [Inhabited α] (s : Space α) (xs : List α)
    (h : xs.length ≤ s.size) :
    (s.overwrite xs h).toList = xs ++ s.toList.drop xs.length := by
  simp only [overwrite, toList, List.append_assoc, List.drop_append, List.drop_replicate,
    List.length_append, List.length_drop]
  congr 3
  omega

@[simp] theorem toList_overwriteAt [Inhabited α] (s : Space α) (place : Nat) (xs : List α)
    (h : place + xs.length ≤ s.size) :
    (s.overwriteAt place xs h).toList =
      s.toList.take place ++ xs ++ s.toList.drop (place + xs.length) := by
  have : (s.toList.take place).length = place := by
    rw [List.length_take, length_toList]; omega
  simp only [overwriteAt, toList_overwrite, take_eq, List.length_append, this]

/-- The old places stay as far as the new room reaches, and new places hold the default. -/
@[simp] theorem toList_resize [Inhabited α] (s : Space α) (size : Nat) :
    (s.resize size).toList = s.toList.take size ++ List.replicate (size - s.size) default := by
  have := s.front_le
  simp only [resize, toList, List.take_append, List.take_replicate, List.append_assoc,
    List.replicate_append_replicate, List.length_take]
  congr 2
  omega

theorem take_overwrite [Inhabited α] (s : Space α) (xs : List α) (h : xs.length ≤ s.size) :
    (s.overwrite xs h).take xs.length = xs := by
  rw [take_eq, toList_overwrite, List.take_left']
  rfl

/-- What was written over the front is used up with it. -/
theorem drop_overwrite (s : Space α) (xs : List α) (h : xs.length ≤ s.size) :
    (s.overwrite xs h).drop xs.length = s.drop xs.length := by
  simp [overwrite, drop]

end Space

end OfdmBurst
