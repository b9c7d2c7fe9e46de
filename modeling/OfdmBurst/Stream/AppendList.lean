/-!
# Lists that grow at the end

What a stream has produced only ever grows at its end. So it is kept with the newest element first,
where a new one costs nothing, beside its length. Read in order it is a list as any other, and two
of them with the same elements are equal.

## Main definitions

* `AppendList`, `AppendList.toList`: the list, and how it is read
* `AppendList.append`, `AppendList.push`: more elements at the end
-/

namespace OfdmBurst

/-- A list kept with its last element first, and its length. -/
structure AppendList (α : Type) where
  newestFirst : List α
  size : Nat
  size_eq : size = newestFirst.length
deriving DecidableEq, Repr

namespace AppendList

variable {α : Type}

/-- The elements in order. -/
def toList (s : AppendList α) : List α := s.newestFirst.reverse

/-- A list as one that grows. -/
def ofList (xs : List α) : AppendList α := ⟨xs.reverse, xs.length, by simp⟩

/-- The list without elements. -/
def empty : AppendList α := ofList []

/-- More elements at the end. -/
def append (s : AppendList α) (xs : List α) : AppendList α :=
  ⟨xs.reverseAux s.newestFirst, s.size + xs.length, by simp [s.size_eq, Nat.add_comm]⟩

/-- One more element at the end. -/
def push (s : AppendList α) (x : α) : AppendList α :=
  ⟨x :: s.newestFirst, s.size + 1, by simp [s.size_eq]⟩

/-- Whether there is no element. -/
def isEmpty (s : AppendList α) : Bool := s.newestFirst.isEmpty

@[simp] theorem toList_ofList (xs : List α) : (ofList xs).toList = xs := by simp [ofList, toList]

@[simp] theorem toList_append (s : AppendList α) (xs : List α) :
    (s.append xs).toList = s.toList ++ xs := by
  simp [append, toList, List.reverseAux_eq]

@[simp] theorem toList_push (s : AppendList α) (x : α) : (s.push x).toList = s.toList ++ [x] := by
  simp [push, toList]

theorem size_eq_length (s : AppendList α) : s.size = s.toList.length := by
  simp [toList, s.size_eq]

theorem eq_of_toList {s t : AppendList α} (h : s.toList = t.toList) : s = t := by
  obtain ⟨xs, n, hn⟩ := s
  obtain ⟨ys, m, hm⟩ := t
  obtain rfl : xs = ys := List.reverse_inj.1 h
  subst hn hm
  rfl

end AppendList

end OfdmBurst
