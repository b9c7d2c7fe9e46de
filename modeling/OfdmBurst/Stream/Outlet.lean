import OfdmBurst.Stream.AppendList
import OfdmBurst.Stream.Space
import OfdmBurst.Stream.Tag

/-!
# Outlets

An outlet is the writing end of a stream. It holds the items produced since they were last taken,
and behind them the room that the reader has granted. Writing changes the room, and producing moves
items from the room to the data. What was written and not produced stays in the room.

Tags are attached at an index of the stream, before or after the item there is produced. They leave
with their item, counted from the first item that leaves.

## Main definitions

* `Outlet.reserve`, `Outlet.take`: what the reader does
* `Outlet.overwrite`, `Outlet.produce`, `Outlet.put`, `Outlet.attach`: what the block does
* `Outlet.written`, `Outlet.room`: how far it has come and how far it can go
-/

namespace OfdmBurst

/-- The writing end of a stream. -/
structure Outlet (α τ : Type) where
  /-- What the terminal is called in an error. -/
  name : String
  /-- Elements to an item. -/
  width : Nat
  /-- The elements that were produced and not taken. -/
  produced : AppendList α := .empty
  /-- The room granted behind them. -/
  free : Space α := .empty
  /-- The items there is room for after everything was taken. -/
  capacity : Nat := 0
  /-- The tags that were not taken, at their place in the stream. -/
  tags : AppendList (Tag τ) := .empty
  /-- The items taken so far. -/
  taken : Nat := 0
  /-- Whether room was ever granted. -/
  connected : Bool := false
  /-- An item has an element. -/
  width_pos : 0 < width

namespace Outlet

variable {α τ : Type}

/-- An outlet of single scalars. -/
def scalar (name : String) : Outlet α τ := { name, width := 1, width_pos := Nat.one_pos }

/-- An outlet of items of any width but zero. -/
def ofWidth (name : String) (width : Nat) : Except Fault (Outlet α τ) :=
  if h : 0 < width then .ok { name, width, width_pos := h } else .error .broken

/-- The number of items produced since the start of the stream. -/
def written (p : Outlet α τ) : Nat := p.taken + p.produced.size / p.width

/-- The number of items there is room for. -/
def room (p : Outlet α τ) : Nat := p.free.size / p.width

/-! ### The block's side -/

/-- Write scalars from the start of the room on. -/
def overwrite (p : Outlet α τ) (xs : List α) : Except Fault (Outlet α τ) :=
  if h : xs.length ≤ p.free.size then .ok { p with free := p.free.overwrite xs h }
  else .error .outOfRange

/-- Write the item `i` places behind the next one. -/
def overwriteItem [Inhabited α] (p : Outlet α τ) (i : Nat) (xs : List α) :
    Except Fault (Outlet α τ) :=
  if h : i * p.width + xs.length ≤ p.free.size ∧ xs.length = p.width then
    .ok { p with free := p.free.overwriteAt (i * p.width) xs h.1 }
  else .error .outOfRange

/-- Move `n` items from the room to the data. -/
def produce [Inhabited α] (p : Outlet α τ) (n : Nat) : Except Fault (Outlet α τ) :=
  if n = 0 then .ok p
  else if n ≤ p.room then
    .ok { p with
      produced := p.produced.append (p.free.take (n * p.width))
      free := p.free.drop (n * p.width) }
  else .error .broken

/-- Write whole items and produce them. -/
def put [Inhabited α] (p : Outlet α τ) (xs : List α) : Except Fault (Outlet α τ) :=
  if xs.length % p.width = 0 then do
    let p ← p.overwrite xs
    p.produce (xs.length / p.width)
  else .error .outOfRange

/-- Attach a tag at its index of the stream. -/
def attach (p : Outlet α τ) (t : Tag τ) : Outlet α τ := { p with tags := p.tags.push t }

/-- Attach several tags, one after the other. -/
def attachAll (p : Outlet α τ) (ts : List (Tag τ)) : Outlet α τ :=
  { p with tags := p.tags.append ts }

/-! ### The reader's side -/

/-- Grant room for `n` items. What was written to the room before stays as far as the new room
reaches. -/
def reserve (p : Outlet α τ) (n : Nat) : Except Fault (Outlet α τ) := do
  let _ ← Fault.buffer (p.produced.size + n * p.width)
  return { p with
    capacity := n
    free := p.free.resize (n * p.width)
    connected := true }

/-- The produced scalars, and the tags on them counted from the first produced item. -/
def peek (p : Outlet α τ) : Except Fault (List α × List (Tag τ)) :=
  let leaving := p.tags.toList.filter (·.index < p.written)
  if leaving.all (p.taken ≤ ·.index) then
    .ok (p.produced.toList, leaving.map fun t => { t with index := t.index - p.taken })
  else .error .overflow

/-- Take what `peek` shows, and grant the reserved room again. -/
def take (p : Outlet α τ) :
    Except Fault ((List α × List (Tag τ)) × Outlet α τ) := do
  let leaving ← p.peek
  return (leaving, { p with
    produced := .empty
    free := p.free.resize (p.capacity * p.width)
    tags := .ofList (Tag.since p.written p.tags.toList)
    taken := p.written })

theorem put_ok [Inhabited α] {p : Outlet α τ} {xs : List α} {n : Nat} (hn : n ≠ 0)
    (hx : xs.length = n * p.width) (h : n ≤ p.room) :
    p.put xs = .ok { p with
      produced := p.produced.append xs, free := p.free.drop xs.length } := by
  have hw : xs.length ≤ p.free.size := by
    rw [hx]; exact (Nat.le_div_iff_mul_le p.width_pos).1 h
  have hd : xs.length / p.width = n := by rw [hx, Nat.mul_div_cancel _ p.width_pos]
  have hm : xs.length % p.width = 0 := by rw [hx]; exact Nat.mul_mod_left ..
  have hr : n ≤ (p.free.overwrite xs hw).size / p.width := h
  simp only [put, hm, ↓reduceIte, overwrite, hw, ↓reduceDIte, bind, Except.bind, produce, hd, hn,
    room, hr, ← hx, Space.take_overwrite, Space.drop_overwrite]

end Outlet

end OfdmBurst
