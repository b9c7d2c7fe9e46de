/-!
# The name of a block

A block has a kind, and in a running system a name of its own. The tags it makes are signed with
its own name, or with its kind while it has none.
-/

namespace OfdmBurst

/-- What a block is called. -/
structure Identity where
  kind : String
  name : Option String := none

namespace Identity

/-- What the block's tags are signed with. -/
def source (i : Identity) : String := i.name.getD i.kind

/-- Give the block a name of its own, in place of any it had. -/
def rename (i : Identity) (name : String) : Identity := { i with name := some name }

end Identity

end OfdmBurst
