import OfdmBurst.Stream.Timestamp

/-!
# Tags

A tag is a remark on one item of a stream: a key, a value, and the name of the block that made it.
The index of the item counts from the start of the stream, or from the start of a piece of it while
the piece travels from terminal to terminal.

Several tags can sit on one item. The most recent tag of a list is the one with the highest index,
and among those the one that stands last.

## Main definitions

* `Tag`, `Tag.Value`: a remark and what it says
* `Tag.latest?`: the most recent tag of a list
* `Tag.since`, `Tag.byItem`: the tags from an item on, and the tags on each of some items
* the keys of the framing blocks
-/

namespace OfdmBurst

/-- What a tag says. A flag says nothing beyond its key. -/
inductive Tag.Value (τ : Type) where
  | flag
  | single (x : Float32)
  | double (x : Float)
  | time (t : Timestamp τ)

/-- A remark on the item at `index`. -/
structure Tag (τ : Type) where
  index : Nat
  key : String
  value : Tag.Value τ
  source : Option String := none

namespace Tag

variable {τ : Type}

/-- The time a tag gives, if it gives one. -/
def time? (t : Tag τ) : Option (Timestamp τ) :=
  match t.value with
  | .time time => some time
  | _ => none

/-- The number a tag gives, if it gives one. -/
def number? (t : Tag τ) : Option Float :=
  match t.value with
  | .single x => some (Widened.widen x)
  | .double x => some x
  | _ => none

/-- The tag on the item `offset` places further on. -/
def later (t : Tag τ) (offset : Nat) : Tag τ := { t with index := t.index + offset }

/-- The more recent of a tag and the most recent of those before it. -/
def newer (best : Option (Tag τ)) (t : Tag τ) : Option (Tag τ) :=
  match best with
  | some b => if t.index < b.index then some b else some t
  | none => some t

/-- The most recent tag of a list. -/
def latest? (tags : List (Tag τ)) : Option (Tag τ) := tags.foldl newer none

/-- The tags on the items from `first` on. As long as there are no others, the list stays as it
is. -/
def since (first : Nat) (tags : List (Tag τ)) : List (Tag τ) :=
  if tags.all (first ≤ ·.index) then tags else tags.filter (first ≤ ·.index)

theorem since_eq_filter (first : Nat) (tags : List (Tag τ)) :
    since first tags = tags.filter (first ≤ ·.index) := by
  unfold since
  split
  · next h => exact (List.filter_eq_self.2 fun t ht => List.all_eq_true.1 h t ht).symm
  · rfl

/-- The tags on each of the `n` items from `first` on. -/
def byItem (first n : Nat) (tags : List (Tag τ)) : Array (List (Tag τ)) :=
  tags.foldr
    (fun t lists => if first ≤ t.index then lists.modify (t.index - first) (t :: ·) else lists)
    (Array.replicate n [])

theorem latest?_concat (tags : List (Tag τ)) (t : Tag τ) :
    latest? (tags ++ [t]) = newer (latest? tags) t := by
  simp [latest?]

/-! ### Keys

Times travel as `syncTime` on the receiving side and as `txTime` on the transmitting side. -/

/-- Start of a burst. -/
def txStart : String := "tx_sob"

/-- End of a burst. -/
def txEnd : String := "tx_eob"

/-- When a burst is to be sent. -/
def txTime : String := "tx_time"

/-- When a sample was received. -/
def rxTime : String := "rx_time"

/-- When a detected burst began. -/
def syncTime : String := "sync_time"

/-- How far the carrier of a detected burst is off. -/
def syncOffset : String := "sync_cfo"

end Tag

end OfdmBurst
