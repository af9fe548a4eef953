/-!
# Tables in order of first entry

A table is a list of keys with their values, each key once, in the order in which the keys came in.
Setting a key that is there already changes its value and not its place.

## Main definitions

* `Table.find?`, `Table.set`, `Table.setNew`, `Table.keys`, `Table.values`.
* `Table.ofList`, `Table.select`: the table of some entries, and the part of a table on some keys.
-/

namespace EntryFlow

/-- Keys with their values in order of first entry. -/
abbrev Table (α β : Type) := List (α × β)

namespace Table

variable {α β : Type} [DecidableEq α]

/-- The value of a key. -/
def find? (table : Table α β) (key : α) : Option β :=
  match table with
  | [] => none
  | (k, v) :: rest => if k = key then some v else find? rest key

/-- Whether a key has a value. -/
def has (table : Table α β) (key : α) : Bool :=
  (table.find? key).isSome

/-- The keys in order. -/
def keys (table : Table α β) : List α :=
  table.map Prod.fst

/-- The values in order. -/
def values (table : Table α β) : List β :=
  table.map Prod.snd

/-- Give a key a value; a new key goes to the end. -/
def set (table : Table α β) (key : α) (value : β) : Table α β :=
  match table with
  | [] => [(key, value)]
  | (k, v) :: rest => if k = key then (k, value) :: rest else (k, v) :: set rest key value

/-- Give a key a value unless it has one. -/
def setNew (table : Table α β) (key : α) (value : β) : Table α β :=
  if table.has key then table else table ++ [(key, value)]

/-- The table of entries, in which a later value of a key replaces an earlier one. -/
def ofList (entries : List (α × β)) : Table α β :=
  entries.foldl (fun table e => table.set e.1 e.2) []

/-- The entries of some keys in order, as far as the keys have values. -/
def select (table : Table α β) (keys : List α) : Table α β :=
  ofList (keys.filterMap fun key => (table.find? key).map fun value => (key, value))

theorem mem_values_of_find? {table : Table α β} {key : α} {value : β}
    (h : table.find? key = some value) : value ∈ table.values := by
  induction table with
  | nil => simp [find?] at h
  | cons e rest ih =>
    obtain ⟨k, v⟩ := e
    simp only [find?] at h
    split at h
    · simp_all [values]
    · exact List.mem_cons_of_mem _ (ih h)

end Table

end EntryFlow
