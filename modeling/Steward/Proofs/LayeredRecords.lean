import Steward.Record
import Steward.Settings.Layers
import Steward.Proofs.PrintedDocuments

/-!
# Records laid over each other

A record that is laid over another one of its kind gives the upper record, also when what is absent
was left out of it, and a record is read back from its table. Both need no more than distinct keys.
-/

namespace Steward

/-! ## Merging -/

/-- Only tables merge. -/
theorem Datum.over_eq {under above : Datum} (hplain : ∀ entries, above ≠ .table entries) :
    under.over above = above := by
  cases above with
  | table entries => exact absurd rfl (hplain entries)
  | _ => simp [Datum.over]

/-- Entries are laid over others of the same names one by one. -/
theorem mergeFields_map {ι : Type} (key : ι → String) (under above : ι → Datum) (keep : ι → Bool)
    {earlier : List (String × Datum)} {indices : List ι}
    (hdistinct : (earlier.map Prod.fst ++ indices.map key).Nodup) :
    mergeFields (earlier ++ indices.map fun i => (key i, under i))
        ((indices.filter keep).map fun i => (key i, above i)) =
      earlier ++ indices.map fun i =>
        (key i, if keep i then (under i).over (above i) else under i) := by
  induction indices generalizing earlier with
  | nil => simp [mergeFields]
  | cons i indices ih =>
    have hnew : earlier.lookup (key i) = none := by
      refine Entries.lookup_eq_none fun hmem => ?_
      rw [List.map_cons, List.nodup_middle, List.nodup_cons] at hdistinct
      exact hdistinct.1 (List.mem_append_left _ hmem)
    have hnext (value : Datum) :
        ((earlier ++ [(key i, value)]).map Prod.fst ++ indices.map key).Nodup := by
      simpa using hdistinct
    simp only [List.map_cons]
    cases hkeep : keep i with
    | false =>
      rw [List.filter_cons_of_neg (by simp [hkeep]), List.append_cons, ih (hnext _)]
      simp
    | true =>
      rw [List.filter_cons_of_pos hkeep, List.map_cons, mergeFields,
        Entries.lookup_append_cons hnew]
      simp only [Entries.put_append hnew]
      rw [List.append_cons, ih (hnext _)]
      simp

/-- Without variables under the mark there is nothing to lay on top. -/
theorem variableLayer_eq {mark : String} {environment : Table String}
    (hplain : ∀ entry ∈ environment.entries, Variables.keyOf? mark entry.1 = none) :
    variableLayer mark environment = .table [] := by
  unfold variableLayer
  generalize environment.entries = named at hplain ⊢
  induction named with
  | nil => rfl
  | cons entry named ih =>
    rw [List.forall_mem_cons] at hplain
    obtain ⟨name, value⟩ := entry
    rw [List.foldl_cons]
    simp only [hplain.1]
    exact ih hplain.2

namespace Record

variable {σ : Type} {fields : List (Field σ)}

/-- The entries of a record. -/
def entries (fields : List (Field σ)) (s : σ) : List (String × Datum) :=
  fields.map fun field => (field.key, field.write s)

/-- What a record writes is absent or can be read back. -/
def Storable (fields : List (Field σ)) (s : σ) : Prop :=
  ∀ field ∈ fields, field.write s = .null ∨ Toml.Writable (field.write s)

/-- The fields of a record have bare, distinct keys. -/
structure WellKeyed (fields : List (Field σ)) : Prop where
  bare : ∀ key ∈ fields.map Field.key, Toml.IsBareKey key
  distinct : (fields.map Field.key).Nodup

/-- The entries of a storable record can be printed. -/
theorem printable_entries (hkeyed : WellKeyed fields) {s : σ} (hstorable : Storable fields s) :
    Toml.Printable (entries fields s) where
  bare := by
    rintro _ hmem
    obtain ⟨field, hfield, rfl⟩ := List.mem_map.1 hmem
    exact hkeyed.bare field.key (List.mem_map_of_mem hfield)
  writable := by
    rintro _ hmem
    obtain ⟨field, hfield, rfl⟩ := List.mem_map.1 hmem
    refine (hstorable field hfield).imp_left fun habsent => ?_
    rw [habsent]
    rfl
  distinct := by simpa [entries, Function.comp_def] using hkeyed.distinct

/-- A record without what is absent, laid over another one, is the record, if the other one has
nothing there either. -/
theorem over_present (hkeyed : WellKeyed fields) {s : σ} (hstorable : Storable fields s)
    (below : σ)
    (habsent : ∀ field ∈ fields, field.write s = .null → field.write below = .null) :
    (write fields below).over (.table (Toml.present (entries fields s))) = write fields s := by
  have hpresent : Toml.present (entries fields s) =
      (fields.filter fun field => (Toml.writeScalar? (field.write s)).isSome).map fun field =>
        (field.key, field.write s) := by
    rw [Toml.present, entries, List.filter_map]
    rfl
  have hmerged := @mergeFields_map _ Field.key (fun field => field.write below)
    (fun field => field.write s) (fun field => (Toml.writeScalar? (field.write s)).isSome) []
    fields hkeyed.distinct
  rw [List.nil_append, List.nil_append, ← hpresent] at hmerged
  rw [write, Datum.over, hmerged, write]
  refine congrArg Datum.table (List.map_congr_left fun field hmem => ?_)
  rcases hstorable field hmem with hnull | hwritable
  · simp [hnull, habsent field hmem hnull, Toml.writeScalar?]
  · have hplain : ∀ inner, field.write s ≠ .table inner := by
      rintro inner heq
      rw [heq] at hwritable
      cases hwritable
    rw [if_pos (Toml.isSome_writeScalar? hwritable), Datum.over_eq hplain]

/-- Fields that a table has are read one after the other. -/
theorem readTable?_of_lookup {rule : RecordRule} {given : List (String × Datum)}
    {value : Field σ → Datum}
    (hfound : ∀ field ∈ fields, given.lookup field.key = some (value field)) (start : σ) :
    readTable? rule given fields start =
      fields.foldlM (fun t field => field.read? (value field) t) start := by
  induction fields generalizing start with
  | nil => rfl
  | cons field fields ih =>
    rw [List.forall_mem_cons] at hfound
    rw [readTable?, hfound.1, List.foldlM_cons]
    simp only [Option.bind_eq_bind]
    congr
    funext t
    exact ih hfound.2 t

/-- What a field writes is found under its key. -/
theorem lookup_entries (hdistinct : (fields.map Field.key).Nodup) (s : σ) :
    ∀ field ∈ fields, (entries fields s).lookup field.key = some (field.write s) := by
  intro field hmem
  obtain ⟨earlier, later, rfl⟩ := List.append_of_mem hmem
  rw [List.map_append, List.map_cons, List.nodup_middle, List.nodup_cons] at hdistinct
  have hnew : (entries earlier s).lookup field.key = none := by
    refine Entries.lookup_eq_none fun hmem => hdistinct.1 (List.mem_append_left _ ?_)
    simpa [entries] using hmem
  have hsplit : entries (earlier ++ field :: later) s =
      entries earlier s ++ (field.key, field.write s) :: entries later s := by
    simp [entries]
  rw [hsplit, Entries.lookup_append_cons hnew]

/-- A record is read back from its table, if its fields are read back one after the other. -/
theorem read?_write (hdistinct : (fields.map Field.key).Nodup) (rule : RecordRule) {start s : σ}
    (hback : fields.foldlM (fun t field => field.read? (field.write s) t) start = some s) :
    read? rule fields start (write fields s) = some s := by
  rw [← hback]
  exact readTable?_of_lookup (lookup_entries hdistinct s) start

end Record

end Steward
