import OfdmBurst.Stream.SizedList
import OfdmBurst.Stream.Tag

/-!
# Inlets

An inlet is the reading end of a stream. Its items are groups of `width` scalars, so that it can
carry single samples or whole symbols. Counters and tag indices count items and start with the
stream: `read` is the number of items consumed so far, and a tag keeps its index while the items in
front of it are consumed.

Pushed data come with tags counted from the first pushed item. They are moved to their place in the
stream, behind everything pushed before, whether consumed or not.

## Main definitions

* `Inlet.push`, `Inlet.consume`, `Inlet.close`: what happens to an inlet
* `Inlet.items`, `Inlet.item`, `Inlet.firstItems`: what can be read
* `Inlet.tagsBetween`, `Inlet.latest?`: tags of a key in a range of the stream
-/

namespace OfdmBurst

/-- The reading end of a stream. -/
structure Inlet (α τ : Type) where
  /-- What the terminal is called in an error. -/
  name : String
  /-- Elements to an item. -/
  width : Nat
  /-- The elements that were pushed and not consumed. -/
  buffer : SizedList α := .empty
  /-- The tags on them, at their place in the stream. -/
  tags : List (Tag τ) := []
  /-- The items consumed so far. -/
  read : Nat := 0
  /-- Whether anything was ever pushed. -/
  connected : Bool := false
  /-- Whether nothing more will be pushed. -/
  closed : Bool := false
  /-- An item has an element. -/
  width_pos : 0 < width

namespace Inlet

variable {α τ : Type}

/-- An inlet of single scalars. -/
def scalar (name : String) : Inlet α τ := { name, width := 1, width_pos := Nat.one_pos }

/-- An inlet of items of any width but zero. -/
def ofWidth (name : String) (width : Nat) : Except Fault (Inlet α τ) :=
  if h : 0 < width then .ok { name, width, width_pos := h } else .error .broken

/-! ### Reading -/

/-- The number of whole items at hand. -/
def items (p : Inlet α τ) : Nat := p.buffer.size / p.width

/-- The first `n` items, as scalars. -/
def front (p : Inlet α τ) (n : Nat) : List α := p.buffer.toList.take (n * p.width)

/-- The first `n` items. -/
def firstItems (p : Inlet α τ) (n : Nat) : Except Fault (List (List α)) :=
  if n * p.width ≤ p.buffer.size then .ok (cutInto p.width n p.buffer.toList)
  else .error .outOfRange

/-- The item `i` places behind the next one. -/
def item (p : Inlet α τ) (i : Nat) : Except Fault (List α) :=
  if (i + 1) * p.width ≤ p.buffer.size then
    .ok ((p.buffer.toList.drop (i * p.width)).take p.width)
  else .error .outOfRange

theorem item_ok {p : Inlet α τ} {i : Nat} (h : i < p.items) :
    p.item i = .ok ((p.buffer.toList.drop (i * p.width)).take p.width) := by
  have : (i + 1) * p.width ≤ p.buffer.size := (Nat.le_div_iff_mul_le p.width_pos).1 h
  simp [item, this]

theorem firstItems_ok {p : Inlet α τ} {n : Nat} (h : n ≤ p.items) :
    p.firstItems n = .ok (cutInto p.width n p.buffer.toList) := by
  have : n * p.width ≤ p.buffer.size := (Nat.le_div_iff_mul_le p.width_pos).1 h
  simp [firstItems, this]

/-- The tags with `key` on the items from `first` to before `last` of the stream. -/
def tagsBetween (p : Inlet α τ) (first last : Nat) (key : String) : List (Tag τ) :=
  p.tags.filter fun t => first ≤ t.index && t.index < last && t.key == key

/-- The most recent of those tags. -/
def latest? (p : Inlet α τ) (first last : Nat) (key : String) : Option (Tag τ) :=
  Tag.latest? (p.tagsBetween first last key)

/-- The tags on each of the first `n` items. -/
def firstTags (p : Inlet α τ) (n : Nat) : Array (List (Tag τ)) := Tag.byItem p.read n p.tags

/-- The tags on one item of the stream. -/
def tagsOn (p : Inlet α τ) (index : Nat) : List (Tag τ) := p.tags.filter (·.index == index)

/-! ### Change -/

/-- Use up `n` items, and forget their tags. -/
def consume (p : Inlet α τ) (n : Nat) : Except Fault (Inlet α τ) :=
  if n = 0 then .ok p
  else if n ≤ p.items then
    .ok { p with
      buffer := p.buffer.drop (n * p.width)
      read := p.read + n
      tags := Tag.since (p.read + n) p.tags }
  else .error .broken

/-- Append items, with tags counted from the first of them. Data that do not make up whole items
are refused and change nothing. -/
def push (p : Inlet α τ) (data : List α) (tags : List (Tag τ)) : Except Fault (Inlet α τ) :=
  let offset := p.read + p.items
  if data.length % p.width ≠ 0 then .error (.terminal (.partialItem data.length p.width))
  else if tags.all fun t => t.index + offset < wordLimit then
    .ok { p with
      buffer := p.buffer.append data
      tags := p.tags ++ tags.map (·.later offset)
      connected := true }
  else .error .overflow

/-- Mark that no more data will come. -/
def close (p : Inlet α τ) : Inlet α τ := { p with closed := true }

theorem items_consume {p q : Inlet α τ} {n : Nat} (h : p.consume n = .ok q) :
    q.items = p.items - n := by
  unfold consume at h
  split at h
  · simp_all
  · split at h
    · injection h with h
      subst h
      simp only [items, SizedList.drop]
      rw [Nat.mul_comm, Nat.sub_mul_div]
    · simp at h

theorem consume_ok {p : Inlet α τ} {n : Nat} (hn : n ≠ 0) (h : n ≤ p.items) :
    p.consume n = .ok { p with
      buffer := p.buffer.drop (n * p.width)
      read := p.read + n
      tags := Tag.since (p.read + n) p.tags } := by
  simp [consume, hn, h]

end Inlet

end OfdmBurst
