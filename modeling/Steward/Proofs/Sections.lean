import Steward.Proofs.DistinctKeys
import Steward.Proofs.LayeredRecords

/-!
# Data in sections

Settings are data of two levels: sections, and fields in them. What stands at a field after layers
were merged follows from what stands there in each layer, as long as every layer has tables for its
sections and no table has a key twice.
-/

namespace Steward

/-! ## Merging by look-ups -/

/-- What stands under a name in merged entries: the upper value over the lower one. -/
theorem lookup_mergeFields {above : List (String × Datum)} (hdistinct : (above.map Prod.fst).Nodup)
    (under : List (String × Datum)) (name : String) :
    (mergeFields under above).lookup name =
      Option.merge Datum.over (under.lookup name) (above.lookup name) := by
  induction above generalizing under with
  | nil => simp [mergeFields]
  | cons entry above ih =>
    obtain ⟨key, value⟩ := entry
    rw [List.map_cons, List.nodup_cons] at hdistinct
    have hnew : above.lookup key = none := Entries.lookup_eq_none hdistinct.1
    rw [mergeFields, ih hdistinct.2, Entries.lookup_put, Entries.lookup_cons]
    split_ifs with hname
    · subst hname
      rw [hnew]
      cases under.lookup name <;> rfl
    · rfl

/-- Names stay distinct when entries are merged. -/
theorem nodup_mergeFields {under : List (String × Datum)} (hdistinct : (under.map Prod.fst).Nodup)
    (above : List (String × Datum)) : ((mergeFields under above).map Prod.fst).Nodup := by
  induction above generalizing under with
  | nil => rwa [mergeFields]
  | cons entry above ih =>
    rw [mergeFields]
    exact ih (Entries.nodup_put hdistinct _ _)

namespace Datum

/-- A value that is no table. -/
def Plain (d : Datum) : Prop := ∀ entries, d ≠ .table entries

/-- What lies over a plain value replaces it. -/
theorem Plain.over {under : Datum} (hplain : under.Plain) (above : Datum) :
    under.over above = above := by
  cases above with
  | table entries =>
    cases under with
    | table lower => exact absurd rfl (hplain lower)
    | _ => rfl
  | _ => simp [Datum.over]

/-- A plain value on top is what stands there. -/
theorem Plain.merge {above : Datum} (hplain : above.Plain) (under : Option Datum) :
    Option.merge Datum.over under (some above) = some above := by
  cases under with
  | none => rfl
  | some under => exact congrArg some (over_eq hplain)

/-- What stands at the end of a path. -/
def at? (d : Datum) (path : List String) : Option Datum := path.foldlM field? d

/-- What stands at a field of a section. -/
theorem at?_pair (d : Datum) (name key : String) :
    d.at? [name, key] = (d.field? name).bind fun inner => inner.field? key := by
  simp [at?]

/-- A table without a key twice. -/
def IsSection (d : Datum) : Prop := ∃ entries, d = .table entries ∧ (entries.map Prod.fst).Nodup

/-- What stands under a name after one table was laid over another. -/
theorem field?_over {under above : Datum} (hunder : under.IsSection) (habove : above.IsSection)
    (name : String) :
    (under.over above).field? name =
      Option.merge Datum.over (under.field? name) (above.field? name) := by
  obtain ⟨lower, rfl, -⟩ := hunder
  obtain ⟨upper, rfl, hdistinct⟩ := habove
  exact lookup_mergeFields hdistinct lower name

/-- A table without a key twice over another one is such a table. -/
theorem IsSection.over {under above : Datum} (hunder : under.IsSection)
    (habove : above.IsSection) : (under.over above).IsSection := by
  obtain ⟨lower, rfl, hdistinct⟩ := hunder
  obtain ⟨upper, rfl, -⟩ := habove
  exact ⟨_, rfl, nodup_mergeFields hdistinct upper⟩

/-- Data in sections of some names: tables without a key twice, as far as there are any. -/
structure Sectioned (names : List String) (d : Datum) : Prop where
  root : d.IsSection
  sections : ∀ name ∈ names, ∀ inner, d.field? name = some inner → inner.IsSection

variable {names : List String} {under above : Datum}

/-- Sections over sections are sections. -/
theorem Sectioned.over (hunder : under.Sectioned names) (habove : above.Sectioned names) :
    (under.over above).Sectioned names := by
  refine ⟨hunder.root.over habove.root, fun name hname inner hinner => ?_⟩
  rw [field?_over hunder.root habove.root] at hinner
  cases hlower : under.field? name with
  | none =>
    rw [hlower, Option.merge_none_left] at hinner
    exact habove.sections name hname inner hinner
  | some lower =>
    cases hupper : above.field? name with
    | none =>
      rw [hlower, hupper, Option.merge_none_right] at hinner
      exact hunder.sections name hname inner (hlower.trans hinner)
    | some upper =>
      rw [hlower, hupper] at hinner
      cases hinner
      exact (hunder.sections name hname lower hlower).over
        (habove.sections name hname upper hupper)

/-- What stands at a field of merged sections: the upper value over the lower one. -/
theorem at?_over (hunder : under.Sectioned names) (habove : above.Sectioned names)
    {name : String} (hname : name ∈ names) (key : String) :
    (under.over above).at? [name, key] =
      Option.merge Datum.over (under.at? [name, key]) (above.at? [name, key]) := by
  simp only [at?_pair, field?_over hunder.root habove.root]
  cases hlower : under.field? name with
  | none => simp
  | some lower =>
    cases hupper : above.field? name with
    | none => simp
    | some upper =>
      exact field?_over (hunder.sections name hname lower hlower)
        (habove.sections name hname upper hupper) key

/-! ## Data of one field -/

/-- Data of one field stand at its path only. -/
theorem at?_nest (name key : String) (value : Datum) (other inner : String) :
    (nest [name, key] value).at? [other, inner] =
      if [other, inner] = [name, key] then some value else none := by
  simp only [nest, List.foldr, at?_pair, field?, Entries.lookup_cons]
  split_ifs with hother hboth hboth <;> simp_all [Entries.lookup_cons]

/-- Data of one field are data in sections. -/
theorem sectioned_nest (names : List String) (name key : String) (value : Datum) :
    (nest [name, key] value).Sectioned names := by
  refine ⟨⟨_, rfl, List.nodup_singleton _⟩, fun other _ inner hinner => ?_⟩
  simp only [nest, List.foldr, field?, Entries.lookup_cons] at hinner
  split_ifs at hinner
  · cases hinner
    exact ⟨_, rfl, List.nodup_singleton _⟩
  · cases hinner

/-- Without sections there is nothing to merge. -/
theorem sectioned_empty (names : List String) : (Datum.table []).Sectioned names :=
  ⟨⟨[], rfl, .nil⟩, fun _ _ _ hinner => by cases hinner⟩

/-- Data without a key twice are data in sections if their sections are tables. -/
theorem Distinct.sectioned {entries : List (String × Datum)}
    (hdistinct : (Datum.table entries).Distinct)
    (htables : ∀ name ∈ names, ∀ inner, entries.lookup name = some inner →
      ∃ fields, inner = .table fields) :
    (Datum.table entries).Sectioned names := by
  obtain _ | _ | _ | _ | _ | _ | ⟨hkeys, heach⟩ := hdistinct
  refine ⟨⟨entries, rfl, hkeys⟩, fun name hname inner hinner => ?_⟩
  obtain ⟨fields, rfl⟩ := htables name hname inner hinner
  obtain _ | _ | _ | _ | _ | _ | ⟨hfields, -⟩ := heach _ (Entries.mem_of_lookup hinner)
  exact ⟨fields, rfl, hfields⟩

end Datum

/-! ## Variables -/

namespace Variables

/-- The keys that the variables under a mark set, with the values that they set them to. -/
def assignments (mark : String) (environment : Table String) : List (List String × Datum) :=
  environment.entries.filterMap fun (name, value) =>
    (keyOf? mark name).map fun segments => (segments, parseValue value)

end Variables

/-- The layer of the variables lays one assignment over the other. -/
theorem variableLayer_eq_foldl (mark : String) (environment : Table String) :
    variableLayer mark environment =
      (Variables.assignments mark environment).foldl
        (fun layer assignment => layer.over (nest assignment.1 assignment.2)) (.table []) := by
  rw [variableLayer, Variables.assignments, List.foldl_filterMap]
  congr
  funext layer entry
  obtain ⟨name, value⟩ := entry
  dsimp only
  cases Variables.keyOf? mark name <;> rfl

/-- Assignments of plain values to different fields, laid over data in sections, give data in
sections, with the assigned value at each field that is assigned one. -/
theorem assigned {names : List String} {assignments : List (List String × Datum)}
    (hpaths : ∀ assignment ∈ assignments, ∃ name ∈ names, ∃ key, assignment.1 = [name, key])
    (hdistinct : (assignments.map Prod.fst).Nodup)
    (hplain : ∀ assignment ∈ assignments, assignment.2.Plain) {layer : Datum}
    (hlayer : layer.Sectioned names) :
    let assigned := assignments.foldl
      (fun layer assignment => layer.over (nest assignment.1 assignment.2)) layer
    assigned.Sectioned names ∧ ∀ name ∈ names, ∀ key,
      assigned.at? [name, key] = (assignments.lookup [name, key]).or (layer.at? [name, key]) := by
  -- Each assignment makes the layer for the next ones, so the layer has to be arbitrary.
  induction assignments generalizing layer with
  | nil => exact ⟨hlayer, fun _ _ _ => rfl⟩
  | cons assignment assignments ih =>
    obtain ⟨path, value⟩ := assignment
    rw [List.forall_mem_cons] at hpaths hplain
    rw [List.map_cons, List.nodup_cons] at hdistinct
    obtain ⟨⟨name, hname, key, rfl⟩, hpaths⟩ := hpaths
    have hnest := Datum.sectioned_nest names name key value
    obtain ⟨hsections, hfields⟩ := ih hpaths hdistinct.2 hplain.2 (hlayer.over hnest)
    refine ⟨hsections, fun other hother inner => ?_⟩
    rw [List.foldl_cons, hfields other hother inner, Datum.at?_over hlayer hnest hother,
      Datum.at?_nest, Entries.lookup_cons]
    split_ifs with hsame
    · rw [hsame, Entries.lookup_eq_none hdistinct.1, hplain.1.merge]
      rfl
    · rw [Option.merge_none_right]

end Steward
