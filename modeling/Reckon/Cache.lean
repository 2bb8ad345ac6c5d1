/-!
A store of bounded size that forgets what was used longest ago.
-/
namespace Reckon

/-- The entries are listed from the most to the least recently used. -/
structure Cache (α β : Type) where
  capacity : Nat
  entries : List (α × β)

namespace Cache

variable {α β : Type} [BEq α] (c : Cache α β)

/-- At least one entry is always kept. -/
def empty (capacity : Nat) : Cache α β :=
  ⟨max capacity 1, []⟩

def find? (key : α) : Option β :=
  c.entries.lookup key

def contains (key : α) : Bool :=
  (c.find? key).isSome

/-- The value of a key, and the cache in which its entry is the most recently used one. -/
def get? (key : α) : Option (β × Cache α β) :=
  (c.find? key).map fun value =>
    (value, { c with entries := (key, value) :: c.entries.filter (·.1 != key) })

/-- Puts an entry in as the most recently used one, in place of any other of its key. The least
recently used entry goes if there is no room. -/
def put (key : α) (value : β) : Cache α β :=
  { c with entries := ((key, value) :: c.entries.filter (·.1 != key)).take c.capacity }

end Cache

end Reckon
