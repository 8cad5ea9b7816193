import Responder.Region.Range

/-! Finite maps from object identifiers, as lists of entries in ascending order. The order lets a search go by halves,
    and what it finds is the place of an identifier: that of its entry, or that where its entry would stand. From there
    on stand the entries that follow the identifier, or that a range starting with it may contain. -/

namespace Responder

/-- A map from object identifiers: its entries, in strictly ascending order. -/
structure OidMap (α : Type) where
  entries : List (Oid × α)
deriving Inhabited

/-- What a search for an identifier finds: the index of its entry, or the index that its entry would have. -/
inductive Place where
  | taken (index : Nat)
  | free (index : Nat)
deriving DecidableEq

/-- The index of the first entry that is not below the identifier. -/
def Place.index : Place → Nat
  | taken i | free i => i

/-- The index of the first entry above the identifier. -/
def Place.past : Place → Nat
  | taken i => i + 1
  | free i => i

namespace OidMap

variable {α : Type}

def empty : OidMap α := ⟨[]⟩

def size (m : OidMap α) : Nat := m.entries.length

def isEmpty (m : OidMap α) : Bool := m.entries.isEmpty

/-- Halves a stretch of entries, given by its first index and its size. Where the entry in the middle is above the
    identifier the upper half is dropped, and otherwise the lower one. A single entry is left as it is. -/
def halve (m : OidMap α) (o : Oid) : Nat × Nat → Nat × Nat
  | (base, size) =>
    if size ≤ 1 then (base, size)
    else
      let middle := base + size / 2
      let above := m.entries[middle]?.any fun e => compare e.1 o == .gt
      (if above then base else middle, size - size / 2)

/-- The place of an identifier, told from the one entry that is left after all halvings. -/
def placeAt (m : OidMap α) (o : Oid) (index : Nat) : Place :=
  match m.entries[index]? with
  | none => .free index
  | some e =>
    match compare e.1 o with
    | .lt => .free (index + 1)
    | .eq => .taken index
    | .gt => .free index

/-- The place of an identifier. There are no more halvings to make than there are entries. -/
def search (m : OidMap α) (o : Oid) : Place := m.placeAt o (Nat.repeat (m.halve o) m.size (0, m.size)).1

/-- The entries from the first one on that is not below the identifier. -/
def startingAt (m : OidMap α) (o : Oid) : List (Oid × α) := m.entries.drop (m.search o).index

def after (m : OidMap α) (o : Oid) : List (Oid × α) := m.entries.drop (m.search o).past

/-- The entries up to an identifier, its own one included. -/
def upTo (m : OidMap α) (o : Oid) : List (Oid × α) := m.entries.take (m.search o).past

def get? (m : OidMap α) (o : Oid) : Option α :=
  match m.search o with
  | .taken i => m.entries[i]?.map (·.2)
  | .free _ => none

def contains (m : OidMap α) (o : Oid) : Bool :=
  match m.search o with
  | .taken _ => true
  | .free _ => false

/-- The map with a value at an identifier, in place of any earlier one. -/
def insert (m : OidMap α) (o : Oid) (a : α) : OidMap α := ⟨m.entries.take (m.search o).index ++ (o, a) :: m.after o⟩

/-- The map with the value at an identifier changed, if there is one. -/
def modify (m : OidMap α) (o : Oid) (f : α → α) : OidMap α :=
  match m.search o with
  | .taken i => ⟨m.entries.modify i fun e => (e.1, f e.2)⟩
  | .free _ => m

def erase (m : OidMap α) (o : Oid) : OidMap α := ⟨m.entries.take (m.search o).index ++ m.after o⟩

/-- The map with the listed values, of two at one identifier the later. -/
def ofList (entries : List (Oid × α)) : OidMap α := entries.foldl (fun m e => m.insert e.1 e.2) empty

def next? (m : OidMap α) (o : Oid) : Option (Oid × α) := (m.after o).head?

/-- The first entry in a range. Only the first one past the lower end needs to be looked at. -/
def firstIn? (m : OidMap α) (r : Range) : Option (Oid × α) :=
  (if r.lowerIncluded then m.startingAt r.lower else m.after r.lower).head?.filter fun e => r.contains e.1

/-- A change of a map. -/
inductive Change (α : Type) where
  | insert (o : Oid) (a : α)
  | erase (o : Oid)
  | modify (o : Oid) (f : α → α)
  | clear

/-- Makes a change, and gives the value that it finds at its identifier. -/
def perform (m : OidMap α) : Change α → Option α × OidMap α
  | .insert o a => (m.get? o, m.insert o a)
  | .erase o => (m.get? o, m.erase o)
  | .modify o f => (m.get? o, m.modify o f)
  | .clear => (none, empty)

end OidMap

end Responder
