import TileScript.Scalar

/-!
# Tables

Finite maps that remember the order in which their keys came. A new value for a key keeps the
key's place, and the key as it was first written; a key that was erased comes back at the end.

## Main definitions

* `Key`: when two keys are the same.
* `Table`, `Table.get?`, `Table.insert`, `Table.erase`, `Table.modify`: the map and its operations.
* `Table.ofList`: a table from pairs, the last of each key.
-/

namespace TileScript

/-- Sameness of keys. -/
class Key (κ : Type) where
  same : κ → κ → Bool

instance : Key String := ⟨(· == ·)⟩

instance : Key Scalar := ⟨Scalar.same⟩

/-- A map whose entries stand in the order of their first insertion. -/
structure Table (κ α : Type) where
  entries : List (κ × α)

namespace Table

variable {κ α : Type} [Key κ]

/-- The table without entries. -/
def empty : Table κ α := ⟨[]⟩

instance : Inhabited (Table κ α) := ⟨empty⟩

/-- The value under a key. -/
def get? (table : Table κ α) (key : κ) : Option α :=
  (table.entries.find? fun entry => Key.same entry.1 key).map (·.2)

/-- Whether there is a value under a key. -/
def contains (table : Table κ α) (key : κ) : Bool := (table.get? key).isSome

/-- The entries with a value put under a key. -/
def insertEntry (key : κ) (value : α) : List (κ × α) → List (κ × α)
  | [] => [(key, value)]
  | entry :: rest =>
    if Key.same entry.1 key then (entry.1, value) :: rest
    else entry :: insertEntry key value rest

/-- The table with a value put under a key. -/
def insert (table : Table κ α) (key : κ) (value : α) : Table κ α :=
  ⟨insertEntry key value table.entries⟩

/-- The table without a key. -/
def erase (table : Table κ α) (key : κ) : Table κ α :=
  ⟨table.entries.eraseP fun entry => Key.same entry.1 key⟩

/-- The table with the value under a key changed, if there is one. -/
def modify (table : Table κ α) (key : κ) (change : α → α) : Table κ α :=
  match table.get? key with
  | some value => table.insert key (change value)
  | none => table

/-- The table with all entries of another put in, in their order. -/
def update (table other : Table κ α) : Table κ α :=
  other.entries.foldl (fun table entry => table.insert entry.1 entry.2) table

/-- The table of a list of pairs. -/
def ofList (entries : List (κ × α)) : Table κ α := update empty ⟨entries⟩

/-- The keys in order. -/
def keys (table : Table κ α) : List κ := table.entries.map (·.1)

end Table

end TileScript
