/-!
# Lists that know their length

A buffer is asked for its length far more often than it changes. So the length is kept beside the
list. It is determined by the list, and two sized lists with the same elements are equal.

## Main definitions

* `SizedList`: the list and its length
* `SizedList.append`, `SizedList.drop`: changes at the ends
* `cutInto`: a list cut into pieces of one length
-/

namespace OfdmBurst

/-- A list with its length. -/
structure SizedList (α : Type) where
  toList : List α
  size : Nat
  size_eq : size = toList.length

namespace SizedList

variable {α : Type}

/-- A list as a sized list. -/
def ofList (xs : List α) : SizedList α := ⟨xs, xs.length, rfl⟩

/-- The list without elements. -/
def empty : SizedList α := ofList []

/-- More elements at the end. -/
def append (s : SizedList α) (xs : List α) : SizedList α :=
  ⟨s.toList ++ xs, s.size + xs.length, by simp [s.size_eq]⟩

/-- All but the first `n` elements. -/
def drop (s : SizedList α) (n : Nat) : SizedList α :=
  ⟨s.toList.drop n, s.size - n, by simp [s.size_eq]⟩

theorem eq_of_toList {s t : SizedList α} (h : s.toList = t.toList) : s = t := by
  obtain ⟨xs, n, hn⟩ := s
  obtain ⟨ys, m, hm⟩ := t
  simp only at h
  subst h hn hm
  rfl

@[simp] theorem toList_ofList (xs : List α) : (ofList xs).toList = xs := rfl

@[simp] theorem toList_append (s : SizedList α) (xs : List α) :
    (s.append xs).toList = s.toList ++ xs := rfl

@[simp] theorem toList_drop (s : SizedList α) (n : Nat) :
    (s.drop n).toList = s.toList.drop n := rfl

end SizedList

/-- Pieces of a list, behind pieces that are done and stand in reverse. -/
def cutOnto {α : Type} (width : Nat) (done : List (List α)) : (n : Nat) → List α → List (List α)
  | 0, _ => done.reverse
  | n + 1, xs => cutOnto width (xs.take width :: done) n (xs.drop width)

/-- The first `n` pieces of a list, each of `width` elements. -/
def cutInto {α : Type} (width n : Nat) (xs : List α) : List (List α) := cutOnto width [] n xs

theorem cutOnto_eq {α : Type} (width n : Nat) (done : List (List α)) (xs : List α) :
    cutOnto width done n xs = done.reverse ++ cutInto width n xs := by
  unfold cutInto
  induction n generalizing done xs with
  | zero => simp [cutOnto]
  | succ n ih =>
    rw [cutOnto, cutOnto, ih, ih [xs.take width]]
    simp

@[simp] theorem cutInto_zero {α : Type} (width : Nat) (xs : List α) : cutInto width 0 xs = [] := rfl

@[simp] theorem cutInto_succ {α : Type} (width n : Nat) (xs : List α) :
    cutInto width (n + 1) xs = xs.take width :: cutInto width n (xs.drop width) := by
  rw [cutInto, cutOnto, cutOnto_eq]
  rfl

end OfdmBurst
