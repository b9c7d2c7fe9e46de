import OfdmBurst.Proofs.Stream.Record

/-!
# Items and their tags

Blocks that work on whole items take several of them from an inlet at once, together with the tags
on each. Both are cut out of one list in a single pass. Item by item they are what the record of the
inlet says about it, and that is how they are stated here.

## Main definitions

* `Record.firstItems` — the first items of a record

## Main results

* `cutInto_eq`, `Tag.toList_byItem` — the passes, item by item
* `Record.firstItems_of_flatten` — the items of a stream that was put together from them
* `Inlet.Holds.firstItems_eq`, `Inlet.Holds.firstTags_eq` — the same for the record of an inlet
* `Inlet.Holds.exists_firstItems` — the items at hand continue those that were consumed
-/

namespace OfdmBurst

variable {α τ : Type}

/-- Pieces of one length, one for each element. -/
theorem length_flatMap_of_length {β : Type} {f : β → List α} {xs : List β} {width : Nat}
    (h : ∀ x ∈ xs, (f x).length = width) : (xs.flatMap f).length = xs.length * width := by
  induction xs with
  | nil => rw [List.flatMap_nil, List.length_nil, List.length_nil, Nat.zero_mul]
  | cons x rest ih =>
    rw [List.flatMap_cons, List.length_append, h x List.mem_cons_self,
      ih fun y hy => h y (List.mem_cons_of_mem _ hy), List.length_cons, Nat.succ_mul, Nat.add_comm]

theorem drop_flatMap_of_length {β : Type} {f : β → List α} {xs : List β} {width : Nat}
    (h : ∀ x ∈ xs, (f x).length = width) (n : Nat) :
    (xs.flatMap f).drop (n * width) = (xs.drop n).flatMap f := by
  induction xs generalizing n with
  | nil => rw [List.flatMap_nil, List.drop_nil, List.drop_nil, List.flatMap_nil]
  | cons x rest ih =>
    cases n with
    | zero => rw [Nat.zero_mul, List.drop_zero, List.drop_zero]
    | succ n =>
      rw [List.flatMap_cons, Nat.succ_mul, Nat.add_comm, ← List.drop_drop,
        List.drop_left' (h x List.mem_cons_self), List.drop_succ_cons,
        ih fun y hy => h y (List.mem_cons_of_mem _ hy)]

/-- A place in the piece of one element. -/
theorem getElem?_flatMap_of_length {β : Type} {f : β → List α} {xs : List β} {width : Nat}
    (h : ∀ x ∈ xs, (f x).length = width) (i : Nat) {j : Nat} (hj : j < width) :
    (xs.flatMap f)[i * width + j]? = xs[i]?.bind fun x => (f x)[j]? := by
  have hhead : xs[i]? = (xs.drop i).head? := List.head?_drop.symm
  rw [← List.getElem?_drop, drop_flatMap_of_length h, hhead]
  cases hrest : xs.drop i with
  | nil => rfl
  | cons x rest =>
    have hx : x ∈ xs := List.mem_of_mem_drop (hrest ▸ List.mem_cons_self)
    rw [List.flatMap_cons, List.getElem?_append_left (by rw [h x hx]; exact hj)]
    rfl

theorem cutInto_eq (width n : Nat) (xs : List α) :
    cutInto width n xs = (List.range n).map fun i => (xs.drop (i * width)).take width := by
  induction n generalizing xs with
  | zero => rfl
  | succ n ih =>
    rw [cutInto_succ, ih, List.range_succ_eq_map, List.map_cons, List.map_map, Nat.zero_mul,
      List.drop_zero]
    congr 1
    refine List.map_congr_left fun i _ => ?_
    rw [Function.comp_apply, List.drop_drop, Nat.succ_mul, Nat.add_comm width]

/-! ### The items of a record -/

namespace Record

variable {r : Record α τ} {width : Nat}

/-- The first `n` items of everything that has passed. -/
def firstItems (r : Record α τ) (width n : Nat) : List (List α) :=
  (List.range n).map fun i => (r.data.drop (i * width)).take width

theorem length_firstItems (r : Record α τ) (width n : Nat) : (r.firstItems width n).length = n := by
  rw [firstItems, List.length_map, List.length_range]

theorem firstItems_add (r : Record α τ) (width n k : Nat) :
    r.firstItems width (n + k) = r.firstItems width n ++
      (List.range k).map fun i => (r.data.drop ((n + i) * width)).take width := by
  rw [firstItems, List.range_add, List.map_append, List.map_map]
  rfl

theorem length_of_mem_firstItems {n : Nat} (h : n * width ≤ r.data.length) :
    ∀ x ∈ r.firstItems width n, x.length = width := by
  intro x hx
  obtain ⟨i, hi, rfl⟩ := List.mem_map.1 hx
  have hle := Nat.mul_le_mul_right width (Nat.succ_le_of_lt (List.mem_range.1 hi))
  rw [Nat.succ_mul] at hle
  rw [List.length_take, List.length_drop]
  omega

theorem getElem?_firstItems (r : Record α τ) (width : Nat) {n i : Nat} (hi : i < n) :
    (r.firstItems width n)[i]? = some ((r.data.drop (i * width)).take width) := by
  rw [firstItems, List.getElem?_map, List.getElem?_range hi, Option.map_some]

/-- What passes later leaves the first items as they are. -/
theorem firstItems_append {n : Nat} (h : n * width ≤ r.data.length) (data : List α)
    (tags : List (Tag τ)) : (r.append width data tags).firstItems width n = r.firstItems width n := by
  refine List.map_congr_left fun i hi => ?_
  have hle := Nat.mul_le_mul_right width (Nat.succ_le_of_lt (List.mem_range.1 hi))
  rw [Nat.succ_mul] at hle
  exact take_drop_append (by omega) data

/-- The items of a stream that was put together from them. -/
theorem firstItems_of_flatten {xs : List (List α)} (hxs : ∀ x ∈ xs, x.length = width)
    (hdata : r.data = xs.flatten) : r.firstItems width xs.length = xs := by
  refine List.ext_getElem (by rw [length_firstItems]) fun i _ hi => ?_
  have hfrom : xs.flatten.drop (i * width) = (xs.drop i).flatten := by
    rw [List.flatten_eq_flatMap, List.flatten_eq_flatMap]
    exact drop_flatMap_of_length hxs i
  simp only [firstItems, List.getElem_map, List.getElem_range]
  rw [hdata, hfrom, List.drop_eq_getElem_cons hi, List.flatten_cons,
    List.take_left' (hxs _ (List.getElem_mem hi))]

theorem take_firstItems (r : Record α τ) (width : Nat) {n k : Nat} (hn : n ≤ k) :
    (r.firstItems width k).take n = r.firstItems width n := by
  rw [firstItems, ← List.map_take, List.take_range, Nat.min_eq_left hn]
  rfl

/-- As long as the stream is not complete, its first items are there. -/
theorem firstItems_of_stream (hwidth : 0 < width) {xs : List (List α)}
    (hxs : ∀ x ∈ xs, x.length = width) (hdata : r.data <+: xs.flatten) {n : Nat}
    (hn : n * width ≤ r.data.length) : r.firstItems width n = xs.take n := by
  obtain ⟨rest, hrest⟩ := hdata
  have hlength : xs.flatten.length = xs.length * width := by
    rw [List.flatten_eq_flatMap]
    exact length_flatMap_of_length hxs
  have hcount : n ≤ xs.length := by
    refine Nat.le_of_mul_le_mul_right ?_ hwidth
    rw [← hlength, ← hrest, List.length_append]
    exact Nat.le_trans hn (Nat.le_add_right _ _)
  rw [← firstItems_append hn rest [], ← take_firstItems _ _ hcount, firstItems_of_flatten hxs hrest]

end Record

namespace Tag

theorem size_byItem (first n : Nat) (tags : List (Tag τ)) : (byItem first n tags).size = n := by
  rw [byItem]
  induction tags with
  | nil => rw [List.foldr_nil, Array.size_replicate]
  | cons t rest ih =>
    rw [List.foldr_cons]
    split
    · rw [Array.size_modify, ih]
    · exact ih

/-- An item gets the tags with its index, in their order. -/
theorem getElem?_byItem {first n i : Nat} (hi : i < n) (tags : List (Tag τ)) :
    (byItem first n tags)[i]? = some (tags.filter (·.index == first + i)) := by
  induction tags with
  | nil =>
    rw [byItem, List.foldr_nil, Array.getElem?_replicate, if_pos hi]
    rfl
  | cons t rest ih =>
    rw [byItem] at ih
    rw [byItem, List.foldr_cons]
    split
    next hfirst =>
      rw [Array.getElem?_modify, ih]
      by_cases hplace : t.index - first = i
      · rw [if_pos hplace, List.filter_cons_of_pos]
        · rfl
        · rw [beq_iff_eq]
          omega
      · rw [if_neg hplace, List.filter_cons_of_neg]
        rw [beq_iff_eq]
        omega
    next hfirst =>
      rw [ih, List.filter_cons_of_neg]
      rw [beq_iff_eq]
      omega

theorem toList_byItem (first n : Nat) (tags : List (Tag τ)) :
    (byItem first n tags).toList =
      (List.range n).map fun i => tags.filter (·.index == first + i) := by
  refine List.ext_getElem? fun i => ?_
  rw [Array.getElem?_toList, List.getElem?_map]
  by_cases hi : i < n
  · rw [getElem?_byItem hi, List.getElem?_range hi]
    rfl
  · have hsize := size_byItem first n tags
    rw [Array.getElem?_eq_none (by omega), List.getElem?_eq_none (by rw [List.length_range]; omega)]
    rfl

end Tag

/-- As many items as are at hand are there, and whole, whatever else the inlet went through. -/
theorem Inlet.exists_items {p : Inlet α τ} {n : Nat} (hn : n ≤ p.items) :
    ∃ items, p.firstItems n = .ok items ∧ items.length = n ∧ ∀ x ∈ items, x.length = p.width := by
  have hwhole : n * p.width ≤ p.buffer.toList.length := by
    rw [← p.buffer.size_eq]
    exact (Nat.le_div_iff_mul_le p.width_pos).1 hn
  -- they are the first items of a record that holds what lies in the buffer
  have hcut : cutInto p.width n p.buffer.toList =
      (⟨p.buffer.toList, []⟩ : Record α τ).firstItems p.width n := cutInto_eq _ _ _
  refine ⟨_, Inlet.firstItems_ok hn, ?_, ?_⟩
  · rw [hcut, Record.length_firstItems]
  · rw [hcut]
    exact Record.length_of_mem_firstItems hwhole

namespace Inlet.Holds

variable {p : Inlet α τ} {r : Record α τ}

/-- The first items at hand are the next ones of the record. -/
theorem firstItems_eq (h : p.Holds r) {n : Nat} (hn : n ≤ p.items) :
    p.firstItems n = .ok ((List.range n).map fun i =>
      (r.data.drop ((p.read + i) * p.width)).take p.width) := by
  rw [Inlet.firstItems_ok hn, cutInto_eq, h.buffer]
  congr 1
  refine List.map_congr_left fun i _ => ?_
  rw [List.drop_drop, Nat.add_mul]

/-- They are whole, and stand behind those that were consumed. -/
theorem exists_firstItems (h : p.Holds r) {n : Nat} (hn : n ≤ p.items) :
    ∃ items, p.firstItems n = .ok items ∧ items.length = n ∧ (∀ x ∈ items, x.length = p.width) ∧
      r.firstItems p.width (p.read + n) = r.firstItems p.width p.read ++ items := by
  have hadd := Record.firstItems_add r p.width p.read n
  have hle : p.read + n ≤ r.data.length / p.width := by
    have hitems := h.items_eq
    have hread := h.read_le_items
    omega
  have hlengths := Record.length_of_mem_firstItems ((Nat.le_div_iff_mul_le p.width_pos).1 hle)
  rw [hadd] at hlengths
  refine ⟨_, h.firstItems_eq hn, ?_, fun x hx => hlengths x (List.mem_append_right _ hx), hadd⟩
  rw [List.length_map, List.length_range]

theorem firstTags_eq (h : p.Holds r) (n : Nat) :
    (p.firstTags n).toList = (List.range n).map fun i => r.tags.filter (·.index == p.read + i) := by
  rw [Inlet.firstTags, Tag.toList_byItem]
  refine List.map_congr_left fun i _ => ?_
  exact h.tagsOn_eq (Nat.le_add_right _ _)

end Inlet.Holds

end OfdmBurst
