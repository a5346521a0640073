/-!
# Tables

A table maps names to values. Its entries stand in increasing order of their names, so a table is
determined by its look-ups, and every listing of it is sorted.
-/

namespace Steward

namespace Entries

variable {α : Type}

/-- The value under a name in a list of entries. -/
def find? (name : String) : List (String × α) → Option α
  | [] => none
  | (k, v) :: rest => if k = name then some v else find? name rest

/-- Put a value under a name before the first greater name, replacing an equal one. -/
def insert (name : String) (value : α) : List (String × α) → List (String × α)
  | [] => [(name, value)]
  | (k, v) :: rest =>
    if name < k then (name, value) :: (k, v) :: rest
    else if name = k then (name, value) :: rest
    else (k, v) :: insert name value rest

/-- Names increase strictly along the entries. -/
def Sorted (entries : List (String × α)) : Prop := entries.Pairwise fun a b => a.1 < b.1

/-- What is inserted is the new entry or an old one. -/
theorem mem_insert {name : String} {value : α} {entries : List (String × α)} {e : String × α}
    (h : e ∈ insert name value entries) : e = (name, value) ∨ e ∈ entries := by
  induction entries with
  | nil => simpa [insert] using h
  | cons head rest ih =>
    obtain ⟨k, v⟩ := head
    simp only [insert] at h
    split at h
    · simpa using h
    · split at h
      · rcases List.mem_cons.1 h with h | h
        · exact .inl h
        · exact .inr (List.mem_cons_of_mem _ h)
      · rcases List.mem_cons.1 h with h | h
        · exact .inr (h ▸ List.mem_cons_self)
        · exact (ih h).imp_right (List.mem_cons_of_mem _)

/-- Insertion keeps the order. -/
theorem sorted_insert {name : String} {value : α} {entries : List (String × α)}
    (h : Sorted entries) : Sorted (insert name value entries) := by
  induction entries with
  | nil => simp [insert, Sorted]
  | cons head rest ih =>
    obtain ⟨k, v⟩ := head
    obtain ⟨above, sorted⟩ := List.pairwise_cons.1 h
    simp only [insert]
    split
    · next below =>
      refine List.pairwise_cons.2 ⟨fun e he => ?_, h⟩
      rcases List.mem_cons.1 he with rfl | he
      · exact below
      · exact String.lt_trans below (above e he)
    · split
      · next same => exact List.pairwise_cons.2 ⟨fun e he => same ▸ above e he, sorted⟩
      · next notBelow different =>
        refine List.pairwise_cons.2 ⟨fun e he => ?_, ih sorted⟩
        rcases mem_insert he with rfl | he
        · exact Classical.byContradiction fun notAbove =>
            different (String.le_antisymm (String.not_lt.1 notAbove) (String.not_lt.1 notBelow))
        · exact above e he

end Entries

/-- A finite map from names to values. -/
structure Table (α : Type) where
  entries : List (String × α)
  sorted : Entries.Sorted entries

namespace Table

variable {α β : Type}

/-- The table without entries. -/
def empty : Table α := ⟨[], List.Pairwise.nil⟩

instance : Inhabited (Table α) := ⟨empty⟩

/-- The value under a name. -/
def find? (t : Table α) (name : String) : Option α := Entries.find? name t.entries

/-- Whether a name has a value. -/
def contains (t : Table α) (name : String) : Bool := (t.find? name).isSome

/-- The number of entries. -/
def size (t : Table α) : Nat := t.entries.length

/-- The names in increasing order. -/
def names (t : Table α) : List String := t.entries.map Prod.fst

/-- The values in the order of their names. -/
def values (t : Table α) : List α := t.entries.map Prod.snd

/-- Give a name a value, replacing the one it has. -/
def insert (t : Table α) (name : String) (value : α) : Table α :=
  ⟨Entries.insert name value t.entries, Entries.sorted_insert t.sorted⟩

/-- Keep the entries that pass a test. -/
def filter (t : Table α) (keep : String → α → Bool) : Table α :=
  ⟨t.entries.filter fun (k, v) => keep k v, t.sorted.filter _⟩

/-- Remove the entry of a name. -/
def erase (t : Table α) (name : String) : Table α := t.filter fun k _ => k ≠ name

/-- Change every value, keeping the names. -/
def map (f : α → β) (t : Table α) : Table β :=
  ⟨t.entries.map fun (k, v) => (k, f v), by
    simpa [Entries.Sorted, List.pairwise_map] using t.sorted⟩

/-- The table of a list of entries; a later entry replaces an earlier one of its name. -/
def ofList (entries : List (String × α)) : Table α :=
  entries.foldl (fun t (k, v) => t.insert k v) empty

end Table

end Steward
