import Steward.Entries
import Steward.Table
import Mathlib.Data.List.Sort

/-!
# Looking up in tables

What insertion, removal and renewal do to the look-ups of a table, and how its listings follow from
its look-ups. Listings are compared up to order first: an entry that is put in place of an old one
stands where the order of the names wants it.
-/

namespace Steward

namespace Entries

variable {α β : Type}

/-- Insertion changes the value under its own name only. -/
theorem find?_insert (name other : String) (value : α) (entries : List (String × α)) :
    find? other (insert name value entries) =
      if other = name then some value else find? other entries := by
  induction entries with
  | nil => simp [insert, find?, eq_comm]
  | cons head rest ih =>
    obtain ⟨k, v⟩ := head
    by_cases hother : other = name
    · subst hother
      simp only [insert]
      split_ifs with hbelow hsame
      · simp [find?]
      · simp [find?]
      · simp [find?, ih, Ne.symm hsame]
    · simp only [insert]
      split_ifs with hbelow hsame
      · simp [find?, Ne.symm hother]
      · subst hsame
        simp [find?, Ne.symm hother]
      · simp [find?, ih, hother]

/-- Keeping the entries of other names forgets one name. -/
theorem find?_filter_ne (name other : String) (entries : List (String × α)) :
    find? other (entries.filter fun (k, _) => k ≠ name) =
      if other = name then none else find? other entries := by
  induction entries with
  | nil => simp [find?]
  | cons head rest ih =>
    obtain ⟨k, v⟩ := head
    by_cases hk : k = name
    · subst hk
      rw [List.filter_cons_of_neg (by simp), ih]
      split_ifs with hother
      · rfl
      · simp [find?, Ne.symm hother]
    · rw [List.filter_cons_of_pos (by simpa using hk), find?, ih, find?]
      split_ifs with h₁ h₂ <;> simp_all

/-- Changing every value changes what is found. -/
theorem find?_map (f : α → β) (name : String) (entries : List (String × α)) :
    find? name (entries.map fun (k, v) => (k, f v)) = (find? name entries).map f := by
  induction entries with
  | nil => rfl
  | cons head rest ih =>
    obtain ⟨k, v⟩ := head
    simp only [List.map_cons, find?]
    split_ifs
    · rfl
    · exact ih

/-- In sorted entries exactly the members are found. -/
theorem mem_iff_find? {entries : List (String × α)} (hsorted : Sorted entries) {name : String}
    {value : α} : (name, value) ∈ entries ↔ find? name entries = some value := by
  induction entries with
  | nil => simp [find?]
  | cons head rest ih =>
    obtain ⟨k, v⟩ := head
    obtain ⟨habove, hrest⟩ := List.pairwise_cons.1 hsorted
    rw [List.mem_cons, ih hrest, find?]
    by_cases hk : k = name
    · subst hk
      have habsent : find? k rest ≠ some value := fun hfound =>
        String.lt_irrefl k (habove (k, value) ((ih hrest).2 hfound))
      simp [habsent, eq_comm]
    · simp [hk, Ne.symm hk]

/-- The first entry is found under its name, and what the others hold under other names. -/
theorem lookup_cons {κ : Type} [BEq κ] [LawfulBEq κ] [DecidableEq κ] (name other : κ) (value : α)
    (entries : List (κ × α)) :
    ((name, value) :: entries).lookup other =
      if other = name then some value else entries.lookup other := by
  by_cases hother : other = name
  · simp [hother]
  · have hne : (other == name) = false := beq_eq_false_iff_ne.2 hother
    simp [hother, List.lookup_cons, hne]

/-- Entries of other names are passed by. -/
theorem put_append_of_lookup {name : String} {earlier : List (String × α)}
    (hnew : earlier.lookup name = none) (value : α) (later : List (String × α)) :
    put name value (earlier ++ later) = earlier ++ put name value later := by
  induction earlier with
  | nil => rfl
  | cons entry earlier ih =>
    obtain ⟨other, kept⟩ := entry
    rw [lookup_cons] at hnew
    split_ifs at hnew with hother
    simp [put, Ne.symm hother, ih hnew]

/-- An entry that no earlier one shares its name with is replaced in its place. -/
theorem put_append {name : String} {earlier : List (String × α)}
    (hnew : earlier.lookup name = none) (value old : α) (later : List (String × α)) :
    put name value (earlier ++ (name, old) :: later) = earlier ++ (name, value) :: later := by
  simp [put_append_of_lookup hnew, put]

/-- An entry of a new name comes last. -/
theorem put_eq_append {name : String} {entries : List (String × α)}
    (hnew : entries.lookup name = none) (value : α) :
    put name value entries = entries ++ [(name, value)] := by
  simpa [put] using put_append_of_lookup hnew value []

/-- What is put under a name is found there; under other names nothing changes. -/
theorem lookup_put (name other : String) (value : α) (entries : List (String × α)) :
    (put name value entries).lookup other =
      if other = name then some value else entries.lookup other := by
  induction entries with
  | nil => rw [put, lookup_cons]
  | cons head rest ih =>
    obtain ⟨k, old⟩ := head
    rw [put]
    split_ifs with hk hother hother
    · rw [lookup_cons, if_pos (hother.trans hk.symm)]
    · subst hk
      rw [lookup_cons, lookup_cons, if_neg hother, if_neg hother]
    · rw [lookup_cons, ih, if_neg (fun heq => hk (heq.symm.trans hother)), if_pos hother]
    · rw [lookup_cons, lookup_cons, ih, if_neg hother]

/-- An entry after one was put among others is that one or an old one. -/
theorem mem_put {name : String} {value : α} {entries : List (String × α)} {entry : String × α}
    (hmem : entry ∈ put name value entries) : entry = (name, value) ∨ entry ∈ entries := by
  induction entries with
  | nil => simpa [put] using hmem
  | cons head entries ih =>
    obtain ⟨other, old⟩ := head
    rw [put] at hmem
    split_ifs at hmem with hsame
    · subst hsame
      exact (List.mem_cons.1 hmem).imp_right (List.mem_cons_of_mem _)
    · rcases List.mem_cons.1 hmem with rfl | hmem
      · exact .inr List.mem_cons_self
      · exact (ih hmem).imp_right (List.mem_cons_of_mem _)

/-- Names stay distinct when an entry is put among them. -/
theorem nodup_put {entries : List (String × α)} (hdistinct : (entries.map Prod.fst).Nodup)
    (name : String) (value : α) : ((put name value entries).map Prod.fst).Nodup := by
  induction entries with
  | nil => simp [put]
  | cons head entries ih =>
    obtain ⟨other, old⟩ := head
    rw [List.map_cons, List.nodup_cons] at hdistinct
    rw [put]
    split_ifs with hsame
    · exact List.nodup_cons.2 hdistinct
    · refine List.nodup_cons.2 ⟨fun hmem => ?_, ih hdistinct.2⟩
      obtain ⟨entry, hentry, hname⟩ := List.mem_map.1 hmem
      rcases mem_put hentry with rfl | hentry
      · exact hsame hname.symm
      · exact hdistinct.1 (List.mem_map.2 ⟨entry, hentry, hname⟩)

/-- The first entry of a name that no earlier one has is found. -/
theorem lookup_append_cons {name : String} {earlier : List (String × α)}
    (hnew : earlier.lookup name = none) (value : α) (later : List (String × α)) :
    (earlier ++ (name, value) :: later).lookup name = some value := by
  rw [List.lookup_append, hnew, Option.none_or, List.lookup_cons_self]

/-- Names of none of the entries are not found. -/
theorem lookup_eq_none {κ : Type} [BEq κ] [LawfulBEq κ] {name : κ} {entries : List (κ × α)}
    (hnew : name ∉ entries.map Prod.fst) : entries.lookup name = none := by
  rw [List.lookup_eq_none_iff]
  intro entry hmem
  rw [bne_iff_ne]
  rintro rfl
  exact hnew (List.mem_map_of_mem hmem)

/-- What is found under a name is one of the entries. -/
theorem mem_of_lookup {κ : Type} [BEq κ] [LawfulBEq κ] {name : κ} {value : α}
    {entries : List (κ × α)} (hfound : entries.lookup name = some value) :
    (name, value) ∈ entries := by
  obtain ⟨earlier, later, rfl, -⟩ := List.lookup_eq_some_iff.1 hfound
  simp

end Entries

namespace Table

variable {α β γ : Type}

/-- Nothing is found in the empty table. -/
@[simp] theorem find?_empty (name : String) : (empty : Table α).find? name = none := rfl

/-- Insertion changes the value under its own name only. -/
theorem find?_insert (t : Table α) (name other : String) (value : α) :
    (t.insert name value).find? other = if other = name then some value else t.find? other :=
  Entries.find?_insert name other value t.entries

/-- What was inserted is found. -/
@[simp] theorem find?_insert_self (t : Table α) (name : String) (value : α) :
    (t.insert name value).find? name = some value := by
  simp [find?_insert]

/-- Insertion leaves other names alone. -/
theorem find?_insert_of_ne (t : Table α) {name other : String} (value : α) (hne : other ≠ name) :
    (t.insert name value).find? other = t.find? other := by
  simp [find?_insert, hne]

/-- Removal changes one name only. -/
theorem find?_erase (t : Table α) (name other : String) :
    (t.erase name).find? other = if other = name then none else t.find? other :=
  Entries.find?_filter_ne name other t.entries

/-- What was removed is not found. -/
@[simp] theorem find?_erase_self (t : Table α) (name : String) :
    (t.erase name).find? name = none := by
  simp [find?_erase]

/-- Removal leaves other names alone. -/
theorem find?_erase_of_ne (t : Table α) {name other : String} (hne : other ≠ name) :
    (t.erase name).find? other = t.find? other := by
  simp [find?_erase, hne]

/-- Changing every value changes what is found. -/
@[simp] theorem find?_map (f : α → β) (t : Table α) (name : String) :
    (t.map f).find? name = (t.find? name).map f :=
  Entries.find?_map f name t.entries

/-- A table contains the names under which something is found. -/
theorem contains_iff {t : Table α} {name : String} :
    t.contains name = true ↔ ∃ value, t.find? name = some value :=
  Option.isSome_iff_exists

/-- A table does not contain the names under which nothing is found. -/
theorem contains_eq_false {t : Table α} {name : String} :
    t.contains name = false ↔ t.find? name = none :=
  Option.isSome_eq_false_iff.trans Option.isNone_iff_eq_none

/-- Changing every value keeps the names. -/
@[simp] theorem contains_map (f : α → β) (t : Table α) (name : String) :
    (t.map f).contains name = t.contains name := by
  simp [contains]

/-- Changing every value keeps the number of entries. -/
@[simp] theorem size_map (f : α → β) (t : Table α) : (t.map f).size = t.size :=
  List.length_map ..

/-- The entries are exactly what is found. -/
theorem mem_entries_iff {t : Table α} {name : String} {value : α} :
    (name, value) ∈ t.entries ↔ t.find? name = some value :=
  Entries.mem_iff_find? t.sorted

/-- No entry occurs twice. -/
theorem nodup_entries (t : Table α) : t.entries.Nodup := by
  refine List.Pairwise.imp ?_ t.sorted
  intro a b hlt heq
  exact String.lt_irrefl b.1 (by rwa [heq] at hlt)

/-- The names are those that a table contains. -/
theorem mem_names {t : Table α} {name : String} : name ∈ t.names ↔ t.contains name = true := by
  simp [names, contains_iff, ← mem_entries_iff]

/-- No name occurs twice. -/
theorem nodup_names (t : Table α) : t.names.Nodup := by
  refine List.pairwise_map.2 (List.Pairwise.imp ?_ t.sorted)
  intro a b hlt heq
  exact String.lt_irrefl b.1 (by rwa [heq] at hlt)

/-- Tables with the same look-ups are equal. -/
theorem ext_find? {t u : Table α} (h : ∀ name, t.find? name = u.find? name) : t = u := by
  have hmem : ∀ entry, entry ∈ t.entries ↔ entry ∈ u.entries := by
    rintro ⟨name, value⟩
    rw [mem_entries_iff, mem_entries_iff, h]
  have hperm := (List.perm_ext_iff_of_nodup t.nodup_entries u.nodup_entries).2 hmem
  have hentries : t.entries = u.entries :=
    hperm.eq_of_pairwise (fun a b _ _ hab hba => absurd hba (String.lt_asymm hab)) t.sorted u.sorted
  cases t
  cases u
  simpa using hentries

/-- Removing an unknown name changes nothing. -/
theorem erase_of_find?_eq_none {t : Table α} {name : String} (h : t.find? name = none) :
    t.erase name = t := by
  refine ext_find? fun other => ?_
  rw [find?_erase]
  split_ifs with heq
  · rw [heq, h]
  · rfl

/-- Keeping the entries that pass a test forgets the others. -/
theorem find?_filter (t : Table α) (keep : String → α → Bool) (name : String) :
    (t.filter keep).find? name = (t.find? name).filter (keep name) := by
  refine Option.ext fun value => ?_
  rw [← mem_entries_iff, Option.filter_eq_some_iff, ← mem_entries_iff]
  exact List.mem_filter

/-- Inserting an entry that passes a test. -/
theorem filter_insert_of_pos (t : Table α) {keep : String → α → Bool} {name : String} {value : α}
    (hkeep : keep name value = true) :
    (t.insert name value).filter keep = (t.filter keep).insert name value := by
  refine ext_find? fun other => ?_
  rw [find?_filter, find?_insert, find?_insert, find?_filter]
  split_ifs with hother
  · rw [hother, Option.filter_some, if_pos hkeep]
  · rfl

/-- Inserting an entry that fails a test in place of one that does. -/
theorem filter_insert_of_neg (t : Table α) {keep : String → α → Bool} {name : String} {value : α}
    (hkeep : ¬keep name value = true) (hold : (t.filter keep).find? name = none) :
    (t.insert name value).filter keep = t.filter keep := by
  refine ext_find? fun other => ?_
  rw [find?_filter, find?_insert]
  split_ifs with hother
  · rw [hother, hold, Option.filter_some, if_neg hkeep]
  · rw [find?_filter]

/-- Inserting what is found changes nothing. -/
theorem insert_of_find? {t : Table α} {name : String} {value : α}
    (h : t.find? name = some value) : t.insert name value = t := by
  refine ext_find? fun other => ?_
  rw [find?_insert]
  split_ifs with heq
  · rw [heq, h]
  · rfl

/-- Changing every value after an insertion. -/
theorem map_insert (f : α → β) (t : Table α) (name : String) (value : α) :
    (t.insert name value).map f = (t.map f).insert name (f value) := by
  refine ext_find? fun other => ?_
  rw [find?_map, find?_insert, find?_insert, find?_map]
  split_ifs <;> rfl

/-- Changing every value after a removal. -/
theorem map_erase (f : α → β) (t : Table α) (name : String) :
    (t.erase name).map f = (t.map f).erase name := by
  refine ext_find? fun other => ?_
  rw [find?_map, find?_erase, find?_erase, find?_map]
  split_ifs <;> rfl

/-- Changing every value twice. -/
theorem map_map (f : α → β) (g : β → γ) (t : Table α) : (t.map f).map g = t.map (g ∘ f) := by
  refine ext_find? fun other => ?_
  simp

/-- The values after changing every value. -/
theorem values_map (f : α → β) (t : Table α) : (t.map f).values = t.values.map f := by
  simp [values, map]

/-- An inserted entry stands before or among the entries of the other names. -/
theorem entries_insert_perm (t : Table α) (name : String) (value : α) :
    (t.insert name value).entries.Perm ((name, value) :: (t.erase name).entries) := by
  have hfresh : (name, value) ∉ (t.erase name).entries := by
    simp [mem_entries_iff]
  refine (List.perm_ext_iff_of_nodup (nodup_entries _)
    (List.nodup_cons.2 ⟨hfresh, nodup_entries _⟩)).2 ?_
  rintro ⟨k, v⟩
  rw [List.mem_cons, mem_entries_iff, mem_entries_iff, find?_insert, find?_erase]
  split_ifs with hk
  · simp [hk, eq_comm]
  · simp [hk]

/-- A found entry stands before or among the entries of the other names. -/
theorem entries_perm_of_find? {t : Table α} {name : String} {value : α}
    (h : t.find? name = some value) :
    t.entries.Perm ((name, value) :: (t.erase name).entries) := by
  have hperm := t.entries_insert_perm name value
  rwa [insert_of_find? h] at hperm

/-- Inserting a new name adds an entry. -/
theorem size_insert_of_find?_eq_none {t : Table α} {name : String} (value : α)
    (h : t.find? name = none) : (t.insert name value).size = t.size + 1 := by
  have hlength := (t.entries_insert_perm name value).length_eq
  rwa [erase_of_find?_eq_none h, List.length_cons] at hlength

/-- Removing a known name removes one entry. -/
theorem size_erase_of_find? {t : Table α} {name : String} {value : α}
    (h : t.find? name = some value) : (t.erase name).size + 1 = t.size := by
  have hlength := (entries_perm_of_find? h).length_eq
  rw [List.length_cons] at hlength
  exact hlength.symm

/-- Tables of the same names have the same number of entries. -/
theorem size_eq_of_contains {t : Table α} {u : Table β}
    (h : ∀ name, t.contains name = u.contains name) : t.size = u.size := by
  have hnames : t.map (fun _ => ()) = u.map (fun _ => ()) := by
    refine ext_find? fun name => ?_
    have hname := h name
    rw [find?_map, find?_map]
    simp only [contains] at hname
    cases ht : t.find? name <;> cases hu : u.find? name <;> simp_all
  rw [← size_map (fun _ => ()) t, hnames, size_map]

/-- Values that pass a test, counted after an insertion under a new name. -/
theorem countP_values_insert_of_find?_eq_none {t : Table α} {name : String} (value : α)
    (test : α → Bool) (h : t.find? name = none) :
    (t.insert name value).values.countP test =
      t.values.countP test + if test value then 1 else 0 := by
  have hperm := (t.entries_insert_perm name value).map Prod.snd
  rw [erase_of_find?_eq_none h] at hperm
  exact (hperm.countP_eq test).trans (by simp [values, List.countP_cons])

/-- A known name's value is counted apart from the others. -/
theorem countP_values_of_find? {t : Table α} {name : String} {value : α} (test : α → Bool)
    (h : t.find? name = some value) :
    t.values.countP test = (t.erase name).values.countP test + if test value then 1 else 0 := by
  have hperm := (entries_perm_of_find? h).map Prod.snd
  exact (hperm.countP_eq test).trans (by simp [values, List.countP_cons])

/-- No value passes a test when none that is found does. -/
theorem countP_values_eq_zero {t : Table α} {test : α → Bool} :
    t.values.countP test = 0 ↔ ∀ name value, t.find? name = some value → test value = false := by
  simp only [List.countP_eq_zero, values, List.mem_map, Prod.exists, exists_eq_right,
    mem_entries_iff, Bool.not_eq_true, forall_exists_index]
  exact forall_comm

end Table

end Steward
