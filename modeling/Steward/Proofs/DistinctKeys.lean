import Steward.Toml.Document
import Steward.Proofs.Lookup

/-!
# Distinct keys

No table of a settings file has two entries of one key. Values are read without such tables, and
every change of a table puts its entry in the place of an old one or under a new key.
-/

namespace Steward

/-- Nowhere in a datum does a table have two entries of one key. -/
inductive Datum.Distinct : Datum → Prop where
  | null : Distinct .null
  | flag (value : Bool) : Distinct (.flag value)
  | integer (value : Int) : Distinct (.integer value)
  | real (value : Binary64) : Distinct (.real value)
  | text (value : String) : Distinct (.text value)
  | list {items : List Datum} (each : ∀ item ∈ items, Distinct item) : Distinct (.list items)
  | table {fields : List (String × Datum)} (keys : (fields.map Prod.fst).Nodup)
    (each : ∀ field ∈ fields, Distinct field.2) : Distinct (.table fields)

namespace Toml

open Datum (Distinct)

/-! ## Tables while a file is put together -/

/-- Entries as data, one by one. -/
theorem entriesToData_eq (entries : List (String × Item)) :
    entriesToData entries = entries.map fun (key, item) => (key, item.toDatum) := by
  induction entries with
  | nil => rfl
  | cons entry entries ih => rw [entriesToData, ih, List.map_cons]

/-- The rows of an array of tables as data, one by one. -/
theorem rowsToData_eq (rows : List (List (String × Item))) :
    rowsToData rows = rows.map fun row => .table (entriesToData row) := by
  induction rows with
  | nil => rfl
  | cons row rows ih => rw [rowsToData, ih, List.map_cons]

/-- Entries whose table has distinct keys, and every table inside it. -/
def Keyed (entries : List (String × Item)) : Prop := Distinct (.table (entriesToData entries))

/-- Entries are keyed exactly if their names are distinct and what stands under them is keyed. -/
theorem keyed_iff {entries : List (String × Item)} :
    Keyed entries ↔
      (entries.map Prod.fst).Nodup ∧ ∀ entry ∈ entries, entry.2.toDatum.Distinct := by
  have hkeys : (entriesToData entries).map Prod.fst = entries.map Prod.fst := by
    simp [entriesToData_eq, Function.comp_def]
  constructor
  · rintro (_ | _ | _ | _ | _ | _ | ⟨hnodup, heach⟩)
    rw [hkeys] at hnodup
    refine ⟨hnodup, fun entry hmem => heach (entry.1, entry.2.toDatum) ?_⟩
    rw [entriesToData_eq]
    exact List.mem_map_of_mem hmem
  · rintro ⟨hnodup, heach⟩
    refine .table (hkeys ▸ hnodup) fun field hmem => ?_
    rw [entriesToData_eq, List.mem_map] at hmem
    obtain ⟨entry, hentry, rfl⟩ := hmem
    exact heach entry hentry

/-- There is nothing to be distinct without entries. -/
theorem keyed_nil : Keyed [] := keyed_iff.2 ⟨.nil, by simp⟩

/-- An array of tables is keyed exactly if its rows are. -/
theorem distinct_rows_iff {rows : List (List (String × Item))} :
    (Item.rows rows).toDatum.Distinct ↔ ∀ row ∈ rows, Keyed row := by
  rw [Item.toDatum, rowsToData_eq]
  constructor
  · rintro (_ | _ | _ | _ | _ | heach) row hmem
    exact heach _ (List.mem_map_of_mem hmem)
  · refine fun heach => .list fun item hmem => ?_
    obtain ⟨row, hrow, rfl⟩ := List.mem_map.1 hmem
    exact heach row hrow

section Changes

variable {entries : List (String × Item)} {key : String} {item : Item}

/-- What is found in keyed entries is keyed. -/
theorem Keyed.of_lookup (hkeyed : Keyed entries) (hfound : entries.lookup key = some item) :
    item.toDatum.Distinct :=
  (keyed_iff.1 hkeyed).2 _ (Entries.mem_of_lookup hfound)

/-- Entries stay keyed when something keyed is put among them. -/
theorem Keyed.put (hkeyed : Keyed entries) (key : String) (hitem : item.toDatum.Distinct) :
    Keyed (Entries.put key item entries) := by
  obtain ⟨hnodup, heach⟩ := keyed_iff.1 hkeyed
  refine keyed_iff.2 ⟨Entries.nodup_put hnodup key item, fun entry hmem => ?_⟩
  rcases Entries.mem_put hmem with rfl | hmem
  · exact hitem
  · exact heach entry hmem

/-- Entries stay keyed when something keyed is added under a new key. -/
theorem Keyed.append (hkeyed : Keyed entries) (hnew : entries.lookup key = none)
    (hitem : item.toDatum.Distinct) : Keyed (entries ++ [(key, item)]) :=
  Entries.put_eq_append hnew item ▸ hkeyed.put key hitem

end Changes

/-- A change that leaves keyed entries keyed. -/
def Safe (change : Change) : Prop :=
  ∀ dotted entries changed, change dotted entries = some changed → Keyed entries → Keyed changed

/-- Adding a value is safe, if its own tables are keyed. -/
theorem safe_addValue (viaDots : Bool) (key : String) {value : Datum} (hvalue : value.Distinct) :
    Safe (addValue viaDots key value) := by
  intro dotted entries changed hchange hkeyed
  unfold addValue at hchange
  split at hchange
  · cases hchange
  · split at hchange
    · cases hchange
    · next hnew =>
      cases hchange
      exact hkeyed.append hnew hvalue

/-- Opening a table is safe. -/
theorem safe_openTable (key : String) : Safe (openTable key) := by
  intro dotted entries changed hchange hkeyed
  unfold openTable at hchange
  split at hchange
  · next hnew =>
    cases hchange
    exact hkeyed.append hnew keyed_nil
  · next hfound =>
    cases hchange
    have hinner := hkeyed.of_lookup hfound
    exact hkeyed.put key hinner
  · cases hchange

/-- Adding a row is safe. -/
theorem safe_addRow (key : String) : Safe (addRow key) := by
  intro dotted entries changed hchange hkeyed
  unfold addRow at hchange
  split at hchange
  · next hnew =>
    cases hchange
    exact hkeyed.append hnew (distinct_rows_iff.2 (by simpa using keyed_nil))
  · next rows hfound =>
    cases hchange
    have hrows := distinct_rows_iff.1 (hkeyed.of_lookup hfound)
    refine hkeyed.put key (distinct_rows_iff.2 fun row hmem => ?_)
    rcases List.mem_append.1 hmem with hmem | hmem
    · exact hrows row hmem
    · rw [List.mem_singleton.1 hmem]
      exact keyed_nil
  · cases hchange

/-- A safe change is safe at the end of every path. -/
theorem safe_changeAt (viaDots : Bool) {change : Change} (hsafe : Safe change)
    (path : List String) : Safe (changeAt viaDots change path) := by
  induction path with
  | nil => exact hsafe
  | cons key path ih =>
    intro dotted entries changed hchange hkeyed
    rw [changeAt] at hchange
    split at hchange
    · next hnew =>
      obtain ⟨inner, hinner, heq⟩ := Option.bind_eq_some_iff.1 hchange
      cases heq
      exact hkeyed.append hnew (ih _ _ _ hinner keyed_nil)
    · cases hchange
    · next hfound =>
      split at hchange
      · cases hchange
      · obtain ⟨inner, hinner, heq⟩ := Option.bind_eq_some_iff.1 hchange
        cases heq
        exact hkeyed.put key (ih _ _ _ hinner (hkeyed.of_lookup hfound))
    · next rows hfound =>
      split at hchange
      · cases hchange
      · next row hlast =>
        obtain ⟨inner, hinner, heq⟩ := Option.bind_eq_some_iff.1 hchange
        cases heq
        have hrows := distinct_rows_iff.1 (hkeyed.of_lookup hfound)
        have hrow := ih _ _ _ hinner (hrows row (List.mem_of_getLast? hlast))
        refine hkeyed.put key (distinct_rows_iff.2 fun other hmem => ?_)
        rcases List.mem_append.1 hmem with hmem | hmem
        · exact hrows other ((List.dropLast_sublist rows).subset hmem)
        · rw [List.mem_singleton.1 hmem]
          exact hrow

/-- Adding a value under a dotted key is safe, if its own tables are keyed. -/
theorem safe_addAt (segments : List String) {value : Datum} (hvalue : value.Distinct) :
    Safe (addAt segments value) := by
  unfold addAt
  split
  · intro _ _ _ hchange
    cases hchange
  · exact safe_changeAt true (safe_addValue _ _ hvalue) _

/-- A change that is safe for every key is safe before the last segment of a path. -/
theorem safe_changeBeforeLast {change : String → Change} (hsafe : ∀ key, Safe (change key))
    (path : List String) : Safe (changeBeforeLast change path) := by
  unfold changeBeforeLast
  split
  · intro _ _ _ hchange
    cases hchange
  · exact safe_changeAt false (hsafe _) _

/-! ## Readers -/

/-- A reader that gives keyed data only. -/
def ReadsDistinct (read : List Char → Option (Datum × List Char)) : Prop :=
  ∀ cs datum left, read cs = some (datum, left) → datum.Distinct

variable {read : List Char → Option (Datum × List Char)}

/-- The items of an array are read without a key twice. -/
theorem distinct_readItems (hread : ReadsDistinct read) {fuel : Nat} {cs left : List Char}
    {items : List Datum} (hitems : readItems read fuel cs = some (items, left)) :
    ∀ item ∈ items, item.Distinct := by
  induction fuel generalizing cs items with
  | zero => cases hitems
  | succ fuel ih =>
    rw [readItems] at hitems
    split at hitems
    · cases hitems
      simp
    · obtain ⟨⟨item, after⟩, hitem, hrest⟩ := Option.bind_eq_some_iff.1 hitems
      have hfirst := hread _ _ _ hitem
      dsimp only at hrest
      split at hrest
      · obtain ⟨⟨others, rest⟩, hothers, heq⟩ := Option.bind_eq_some_iff.1 hrest
        cases heq
        exact List.forall_mem_cons.2 ⟨hfirst, ih hothers⟩
      · cases hrest
        simpa using hfirst
      · cases hrest

/-- What is read after a key has no key twice. -/
theorem distinct_readPair (hread : ReadsDistinct read) {cs left : List Char} {key : List String}
    {value : Datum} (hpair : readPair read cs = some ((key, value), left)) : value.Distinct := by
  obtain ⟨⟨segments, after⟩, -, hrest⟩ := Option.bind_eq_some_iff.1 hpair
  dsimp only at hrest
  split at hrest
  · obtain ⟨⟨datum, rest⟩, hdatum, heq⟩ := Option.bind_eq_some_iff.1 hrest
    cases heq
    exact hread _ _ _ hdatum
  · cases hrest

/-- Inline tables are put together without a key twice. -/
theorem keyed_readPairs (hread : ReadsDistinct read) {fuel : Nat} {cs left : List Char}
    {entries result : List (String × Item)} (hkeyed : Keyed entries)
    (hpairs : readPairs read fuel entries cs = some (result, left)) : Keyed result := by
  induction fuel generalizing cs entries with
  | zero => cases hpairs
  | succ fuel ih =>
    obtain ⟨⟨⟨key, value⟩, after⟩, hpair, hrest⟩ := Option.bind_eq_some_iff.1 hpairs
    obtain ⟨extended, hextended, hrest⟩ := Option.bind_eq_some_iff.1 hrest
    have hvalue := distinct_readPair hread hpair
    have hkeyed := safe_addAt key hvalue _ _ _ hextended hkeyed
    split at hrest
    · exact ih hkeyed hrest
    · cases hrest
      exact hkeyed
    · cases hrest

/-- What is read of a number in another base is an integer. -/
theorem readsDistinct_readBased (base : Nat) : ReadsDistinct (readBased base) := by
  intro cs datum left hread
  unfold readBased at hread
  split at hread
  · cases hread
  · split at hread
    · split_ifs at hread
      cases hread
      exact .integer _
    · cases hread

/-- What the parts of a number denote is an integer or a number. -/
theorem distinct_of_numberOf {sign whole tail rest left : List Char} {datum : Datum}
    (hnumber : numberOf sign whole tail rest = some (datum, left)) : datum.Distinct := by
  unfold numberOf at hnumber
  split at hnumber
  · dsimp only at hnumber
    split_ifs at hnumber <;> cases hnumber <;> exact .integer _
  · split at hnumber
    · split_ifs at hnumber
      cases hnumber
      exact .real _
    · cases hnumber

/-- What is read of a decimal number is an integer or a number. -/
theorem readsDistinct_readDecimalNumber : ReadsDistinct readDecimalNumber := by
  intro cs datum left hread
  unfold readDecimalNumber at hread
  obtain ⟨⟨whole, afterWhole⟩, -, hread⟩ := Option.bind_eq_some_iff.1 hread
  obtain ⟨⟨fraction, afterFraction⟩, -, hread⟩ := Option.bind_eq_some_iff.1 hread
  obtain ⟨⟨exponent, rest⟩, -, hread⟩ := Option.bind_eq_some_iff.1 hread
  exact distinct_of_numberOf hread

/-- What is read of a word for a number is a number. -/
theorem readsDistinct_readNumberWord : ReadsDistinct readNumberWord := by
  intro cs datum left hread
  unfold readNumberWord at hread
  dsimp only at hread
  split at hread <;> cases hread <;> exact .real _

/-- Numbers hold no entries. -/
theorem readsDistinct_readNumber : ReadsDistinct readNumber := by
  intro cs datum left hread
  unfold readNumber at hread
  split at hread
  · exact readsDistinct_readBased _ _ _ _ hread
  · exact readsDistinct_readBased _ _ _ _ hread
  · exact readsDistinct_readBased _ _ _ _ hread
  · rcases (Option.orElse_eq_some _ _ _).1 hread with hword | ⟨-, hdecimal⟩
    · exact readsDistinct_readNumberWord _ _ _ hword
    · exact readsDistinct_readDecimalNumber _ _ _ hdecimal

/-- Numbers, dates and times hold no entries. -/
theorem readsDistinct_readScalar : ReadsDistinct readScalar := by
  intro cs datum left hread
  have hnone : Distinct (.table []) := .table .nil (by simp)
  unfold readScalar at hread
  split at hread
  · cases hread
    exact hnone
  · cases hread
  · split at hread
    · obtain ⟨rest, -, heq⟩ := Option.map_eq_some_iff.1 hread
      cases heq
      exact hnone
    · exact readsDistinct_readNumber _ _ _ hread

/-- No value is read with a key twice, however deep it nests. -/
theorem readsDistinct_readValue (depth : Nat) : ReadsDistinct (readValue depth) := by
  induction depth using Nat.strongRecOn with
  | _ depth ih =>
    intro cs datum left hread
    unfold readValue at hread
    -- Only arrays and inline tables go one level deeper.
    split at hread
    · obtain ⟨_, -, heq⟩ := Option.map_eq_some_iff.1 hread
      cases heq
      exact .text _
    · obtain ⟨_, -, heq⟩ := Option.map_eq_some_iff.1 hread
      cases heq
      exact .text _
    · cases hread
      exact .flag _
    · cases hread
      exact .flag _
    · cases depth with
      | zero => cases hread
      | succ depth =>
        obtain ⟨_, hitems, heq⟩ := Option.map_eq_some_iff.1 hread
        cases heq
        exact .list (distinct_readItems (ih depth (Nat.lt_succ_self depth)) hitems)
    · cases depth with
      | zero => cases hread
      | succ depth =>
        dsimp only at hread
        split at hread
        · cases hread
          exact keyed_nil
        · obtain ⟨_, hpairs, heq⟩ := Option.map_eq_some_iff.1 hread
          cases heq
          exact keyed_readPairs (ih depth (Nat.lt_succ_self depth)) keyed_nil hpairs
    · exact readsDistinct_readScalar _ _ _ hread

/-! ## Files -/

/-- A line whose value, if it has one, has no key twice. -/
def Line.Distinct : Line → Prop
  | .pair _ value => value.Distinct
  | .table _ | .row _ => True

/-- Lines are read without a key twice in their values. -/
theorem distinct_readLine {cs left : List Char} {line : Line}
    (hline : readLine cs = some (line, left)) : line.Distinct := by
  unfold readLine at hline
  split at hline
  · split at hline <;> cases hline
    trivial
  · split at hline <;> cases hline
    trivial
  · obtain ⟨⟨⟨key, value⟩, rest⟩, hpair, heq⟩ := Option.map_eq_some_iff.1 hline
    cases heq
    exact distinct_readPair (readsDistinct_readValue _) hpair

/-- All lines of a file are read so. -/
theorem distinct_readLines {fuel : Nat} {cs : List Char} {lines : List Line}
    (hlines : readLines fuel cs = some lines) : ∀ line ∈ lines, line.Distinct := by
  fun_induction readLines fuel cs generalizing lines with
  | case1 =>
    cases hlines
    simp
  | case2 => cases hlines
  | case3 _ _ _ _ _ ih => exact ih hlines
  | case4 fuel cs _ _ ih =>
    obtain ⟨⟨line, after⟩, hline, hlines⟩ := Option.bind_eq_some_iff.1 hlines
    obtain ⟨rest, -, hlines⟩ := Option.bind_eq_some_iff.1 hlines
    obtain ⟨others, hothers, heq⟩ := Option.bind_eq_some_iff.1 hlines
    cases heq
    exact List.forall_mem_cons.2 ⟨distinct_readLine hline, ih _ hothers⟩

/-- Lines are put together without a key twice. -/
theorem keyed_assemble {lines : List Line} (hlines : ∀ line ∈ lines, line.Distinct)
    {opened : List String} {entries result : List (String × Item)} (hkeyed : Keyed entries)
    (hresult : assemble opened entries lines = some result) : Keyed result := by
  induction lines generalizing opened entries with
  | nil =>
    cases hresult
    exact hkeyed
  | cons line lines ih =>
    obtain ⟨hline, hothers⟩ := List.forall_mem_cons.1 hlines
    cases line with
    | table path =>
      obtain ⟨changed, hchanged, hrest⟩ := Option.bind_eq_some_iff.1 hresult
      exact ih hothers (safe_changeBeforeLast safe_openTable path _ _ _ hchanged hkeyed) hrest
    | row path =>
      obtain ⟨changed, hchanged, hrest⟩ := Option.bind_eq_some_iff.1 hresult
      exact ih hothers (safe_changeBeforeLast safe_addRow path _ _ _ hchanged hkeyed) hrest
    | pair key value =>
      obtain ⟨changed, hchanged, hrest⟩ := Option.bind_eq_some_iff.1 hresult
      exact ih hothers (safe_changeAt false (safe_addAt key hline) opened _ _ _ hchanged hkeyed)
        hrest

/-- No table of a settings file has two entries of one key. -/
theorem distinct_parse? {text : List Char} {entries : List (String × Datum)}
    (hparse : parse? text = some entries) : Distinct (.table entries) := by
  obtain ⟨lines, hlines, hrest⟩ := Option.bind_eq_some_iff.1 hparse
  obtain ⟨items, hitems, heq⟩ := Option.bind_eq_some_iff.1 hrest
  cases heq
  exact keyed_assemble (distinct_readLines hlines) keyed_nil hitems

end Toml

end Steward
