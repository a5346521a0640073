import Steward.Proofs.SavedSettings
import Steward.Proofs.Sections

/-!
# Precedence

Each field of the settings is resolved on its own, by its variable, or else by the file, or else by
its default. Layers are merged before they are read, so this takes two steps: what stands at a field
of the merged layers is what wins there, and the settings that are read from merged layers follow
from what stands at their fields.
-/

namespace Steward

/-! ## Reading values -/

namespace Record

variable {σ : Type}

/-- Read a value for each field into a record. -/
def gather? (fields : List (Field σ)) (value : String → Datum) (start : σ) : Option σ :=
  fields.foldlM (fun s field => field.read? (value field.key) s) start

/-- Values of which each is of its field's type. -/
def Typed (fields : List (Field σ)) (value : String → Datum) : Prop :=
  ∀ field ∈ fields, ∃ s t, field.read? (value field.key) s = some t

/-- A record holds values if it does not change when they are read into it. -/
def Holds (fields : List (Field σ)) (value : String → Datum) (s : σ) : Prop :=
  ∀ field ∈ fields, field.read? (value field.key) s = some s

/-- Fields that are read without regard to each other, and make up the record. -/
structure Separate (fields : List (Field σ)) : Prop where
  uniform : ∀ field ∈ fields, ∀ d s t, (field.read? d s).isSome = (field.read? d t).isSome
  gather?_eq_some_iff : ∀ value start s,
    gather? fields value start = some s ↔ Holds fields value s

/-- Values are read if each is of its field's type. -/
theorem exists_gather? {fields : List (Field σ)}
    (huniform : ∀ field ∈ fields, ∀ d s t, (field.read? d s).isSome = (field.read? d t).isSome)
    {value : String → Datum} (htyped : Typed fields value) (start : σ) :
    ∃ s, gather? fields value start = some s := by
  induction fields generalizing start with
  | nil => exact ⟨start, rfl⟩
  | cons field fields ih =>
    obtain ⟨hfield, hfields⟩ := List.forall_mem_cons.1 huniform
    obtain ⟨⟨s, t, ht⟩, hrest⟩ := List.forall_mem_cons.1 htyped
    obtain ⟨u, hu⟩ := Option.isSome_iff_exists.1
      ((hfield (value field.key) start s).trans (Option.isSome_of_eq_some ht))
    obtain ⟨v, hv⟩ := ih hfields hrest u
    refine ⟨v, ?_⟩
    rw [← hv, gather?, List.foldlM_cons, hu]
    rfl

/-- Some record holds the values exactly if each is of its field's type. -/
theorem Separate.exists_holds_iff {fields : List (Field σ)} (hseparate : Separate fields)
    {value : String → Datum} (start : σ) : (∃ s, Holds fields value s) ↔ Typed fields value := by
  constructor
  · rintro ⟨s, hs⟩ field hfield
    exact ⟨s, s, hs field hfield⟩
  · intro htyped
    obtain ⟨s, hs⟩ := exists_gather? hseparate.uniform htyped start
    exact ⟨s, (hseparate.gather?_eq_some_iff value start s).1 hs⟩

/-- Values that agree at every field are held alike. -/
theorem Holds.congr {fields : List (Field σ)} {value other : String → Datum} {s : σ}
    (hsame : ∀ field ∈ fields, value field.key = other field.key) (hs : Holds fields value s) :
    Holds fields other s :=
  fun field hfield => hsame field hfield ▸ hs field hfield

/-- A section is read from what stands at its fields. -/
theorem exists_section (fields : List (Field σ)) (hsome : fields ≠ []) {d : Datum} {name : String}
    {value : List String → Datum}
    (hat : ∀ field ∈ fields, d.at? [name, field.key] = some (value [name, field.key]))
    (rule : RecordRule) (start : σ) :
    ∃ inner, d.field? name = some inner ∧
      read? rule fields start inner = gather? fields (fun key => value [name, key]) start := by
  simp only [Datum.at?_pair] at hat
  obtain ⟨field, hfield⟩ := List.exists_mem_of_ne_nil fields hsome
  obtain ⟨inner, hinner, hfound⟩ := Option.bind_eq_some_iff.1 (hat field hfield)
  refine ⟨inner, hinner, ?_⟩
  simp only [hinner, Option.bind_some] at hat
  -- Something was found in the section, so it is a table.
  cases inner with
  | table entries => exact readTable?_of_lookup hat start
  | _ => cases hfound

/-- A record is written as a table without a key twice. -/
theorem isSection_write {fields : List (Field σ)} (hkeyed : WellKeyed fields) (s : σ) :
    (write fields s).IsSection :=
  ⟨_, rfl, by simpa [Function.comp_def] using hkeyed.distinct⟩

/-- What a record writes stands at its fields. -/
theorem at?_write {fields : List (Field σ)} (hkeyed : WellKeyed fields) {s : σ} {d : Datum}
    {name : String} (hsection : d.field? name = some (write fields s)) :
    ∀ field ∈ fields, d.at? [name, field.key] = some (field.write s) := by
  intro field hfield
  rw [Datum.at?_pair, hsection, Option.bind_some]
  exact lookup_entries hkeyed.distinct s field hfield

end Record

open Record

/-- The fields of the section are separate. -/
theorem SystemSettings.separate : Separate fields where
  uniform := by simp [fields, Form.field]
  gather?_eq_some_iff value start s := by
    cases s
    simp [gather?, Holds, fields, Form.field, Option.bind_eq_some_iff, Option.map_eq_some_iff]

/-- The fields of the section are separate. -/
theorem SecuritySettings.separate : Separate fields where
  uniform := by simp [fields, Form.field]
  gather?_eq_some_iff value start s := by
    cases s
    simp [gather?, Holds, fields, Form.field, Option.bind_eq_some_iff, Option.map_eq_some_iff]

/-- The fields of the section are separate. -/
theorem ExecutionSettings.separate : Separate fields where
  uniform := by simp [fields, Form.field]
  gather?_eq_some_iff value start s := by
    cases s
    simp [gather?, Holds, fields, Form.field, Option.bind_eq_some_iff, Option.map_eq_some_iff]

/-- The fields of the section are separate. -/
theorem LoggingSettings.separate : Separate fields where
  uniform := by simp [fields, Form.field]
  gather?_eq_some_iff value start s := by
    cases s
    simp [-Bool.exists_bool, gather?, Holds, fields, Form.field, Option.bind_eq_some_iff,
      Option.map_eq_some_iff]

namespace Settings

/-- The keys of the sections. -/
def sectionNames : List String := ["system", "security", "execution", "logging"]

/-- The paths of the fields. -/
def paths : List (List String) :=
  SystemSettings.fields.map (fun field => ["system", field.key]) ++
    SecuritySettings.fields.map (fun field => ["security", field.key]) ++
    ExecutionSettings.fields.map (fun field => ["execution", field.key]) ++
    LoggingSettings.fields.map fun field => ["logging", field.key]

/-- Each field stands in a section. -/
theorem exists_of_mem_paths {path : List String} (hpath : path ∈ paths) :
    ∃ name ∈ sectionNames, ∃ key, path = [name, key] := by
  simp only [paths, List.mem_append, List.mem_map] at hpath
  rcases hpath with ((⟨field, -, rfl⟩ | ⟨field, -, rfl⟩) | ⟨field, -, rfl⟩) | ⟨field, -, rfl⟩ <;>
    exact ⟨_, by simp [sectionNames], field.key, rfl⟩

/-- Something that holds of the values at all paths holds section by section. -/
theorem forall_mem_paths {P : List String → Prop} : (∀ path ∈ paths, P path) ↔
    (∀ field ∈ SystemSettings.fields, P ["system", field.key]) ∧
      (∀ field ∈ SecuritySettings.fields, P ["security", field.key]) ∧
      (∀ field ∈ ExecutionSettings.fields, P ["execution", field.key]) ∧
      ∀ field ∈ LoggingSettings.fields, P ["logging", field.key] := by
  simp only [paths, List.forall_mem_append, List.forall_mem_map, and_assoc]

variable {value : List String → Datum}

/-- Values of which each is of its field's type. -/
structure Typed (value : List String → Datum) : Prop where
  system : Record.Typed SystemSettings.fields fun key => value ["system", key]
  security : Record.Typed SecuritySettings.fields fun key => value ["security", key]
  execution : Record.Typed ExecutionSettings.fields fun key => value ["execution", key]
  logging : Record.Typed LoggingSettings.fields fun key => value ["logging", key]

/-- Each field of the settings holds its value. -/
structure Holds (value : List String → Datum) (s : Settings) : Prop where
  system : Record.Holds SystemSettings.fields (fun key => value ["system", key]) s.system
  security : Record.Holds SecuritySettings.fields (fun key => value ["security", key]) s.security
  execution :
    Record.Holds ExecutionSettings.fields (fun key => value ["execution", key]) s.execution
  logging : Record.Holds LoggingSettings.fields (fun key => value ["logging", key]) s.logging

/-- Read a value for each field. -/
def gather? (value : List String → Datum) : Option Settings := do
  let system ← Record.gather? SystemSettings.fields (fun key => value ["system", key]) {}
  let security ← Record.gather? SecuritySettings.fields (fun key => value ["security", key]) {}
  let execution ← Record.gather? ExecutionSettings.fields (fun key => value ["execution", key]) {}
  let logging ← Record.gather? LoggingSettings.fields (fun key => value ["logging", key]) {}
  some ⟨system, security, execution, logging⟩

/-- The settings that are read hold the values. -/
theorem gather?_eq_some_iff {s : Settings} : gather? value = some s ↔ Holds value s := by
  constructor
  · intro hs
    obtain ⟨system, hsystem, hs⟩ := Option.bind_eq_some_iff.1 hs
    obtain ⟨security, hsecurity, hs⟩ := Option.bind_eq_some_iff.1 hs
    obtain ⟨execution, hexecution, hs⟩ := Option.bind_eq_some_iff.1 hs
    obtain ⟨logging, hlogging, hs⟩ := Option.bind_eq_some_iff.1 hs
    cases hs
    exact ⟨(SystemSettings.separate.gather?_eq_some_iff _ _ _).1 hsystem,
      (SecuritySettings.separate.gather?_eq_some_iff _ _ _).1 hsecurity,
      (ExecutionSettings.separate.gather?_eq_some_iff _ _ _).1 hexecution,
      (LoggingSettings.separate.gather?_eq_some_iff _ _ _).1 hlogging⟩
  · intro hs
    have hsystem := (SystemSettings.separate.gather?_eq_some_iff _ {} _).2 hs.system
    have hsecurity := (SecuritySettings.separate.gather?_eq_some_iff _ {} _).2 hs.security
    have hexecution := (ExecutionSettings.separate.gather?_eq_some_iff _ {} _).2 hs.execution
    have hlogging := (LoggingSettings.separate.gather?_eq_some_iff _ {} _).2 hs.logging
    simp [gather?, hsystem, hsecurity, hexecution, hlogging]

/-- Values make up settings, and only one, exactly if each is of its field's type. -/
theorem typed_iff : Typed value ↔ ∃! s, Holds value s := by
  constructor
  · intro htyped
    obtain ⟨system, hsystem⟩ := (SystemSettings.separate.exists_holds_iff {}).2 htyped.system
    obtain ⟨security, hsecurity⟩ :=
      (SecuritySettings.separate.exists_holds_iff {}).2 htyped.security
    obtain ⟨execution, hexecution⟩ :=
      (ExecutionSettings.separate.exists_holds_iff {}).2 htyped.execution
    obtain ⟨logging, hlogging⟩ := (LoggingSettings.separate.exists_holds_iff {}).2 htyped.logging
    have hs : Holds value ⟨system, security, execution, logging⟩ :=
      ⟨hsystem, hsecurity, hexecution, hlogging⟩
    refine ⟨_, hs, fun other hother => ?_⟩
    exact Option.some.inj ((gather?_eq_some_iff.2 hother).symm.trans (gather?_eq_some_iff.2 hs))
  · rintro ⟨s, hs, -⟩
    exact ⟨(SystemSettings.separate.exists_holds_iff {}).1 ⟨_, hs.system⟩,
      (SecuritySettings.separate.exists_holds_iff {}).1 ⟨_, hs.security⟩,
      (ExecutionSettings.separate.exists_holds_iff {}).1 ⟨_, hs.execution⟩,
      (LoggingSettings.separate.exists_holds_iff {}).1 ⟨_, hs.logging⟩⟩

/-- Settings are read from what stands at their fields. -/
theorem ofLayers?_eq_gather? {d : Datum} (hroot : d.IsSection)
    (hat : ∀ path ∈ paths, d.at? path = some (value path)) : ofLayers? d = gather? value := by
  obtain ⟨entries, rfl, -⟩ := hroot
  obtain ⟨hsystem, hsecurity, hexecution, hlogging⟩ := forall_mem_paths.1 hat
  obtain ⟨system, hsystem, hreadSystem⟩ :=
    exists_section SystemSettings.fields (by simp [SystemSettings.fields]) hsystem ⟨true, true⟩ {}
  obtain ⟨security, hsecurity, hreadSecurity⟩ :=
    exists_section SecuritySettings.fields (by simp [SecuritySettings.fields]) hsecurity
      ⟨true, true⟩ {}
  obtain ⟨execution, hexecution, hreadExecution⟩ :=
    exists_section ExecutionSettings.fields (by simp [ExecutionSettings.fields]) hexecution
      ⟨true, true⟩ {}
  obtain ⟨logging, hlogging, hreadLogging⟩ :=
    exists_section LoggingSettings.fields (by simp [LoggingSettings.fields]) hlogging
      ⟨true, true⟩ {}
  simp only [Datum.field?] at hsystem hsecurity hexecution hlogging
  change readTable? ⟨true, true⟩ entries (fields ⟨true, true⟩) {} = gather? value
  simp [readTable?, fields, Form.field, Record.form, hsystem, hsecurity, hexecution, hlogging,
    hreadSystem, hreadSecurity, hreadExecution, hreadLogging, gather?, Option.map_eq_bind,
    Option.bind_assoc]

/-- Values that agree at every field are held alike. -/
theorem Holds.congr {other : List String → Datum} (hsame : ∀ path ∈ paths, value path = other path)
    {s : Settings} (hs : Holds value s) : Holds other s := by
  obtain ⟨hsystem, hsecurity, hexecution, hlogging⟩ := forall_mem_paths.1 hsame
  exact ⟨hs.system.congr hsystem, hs.security.congr hsecurity, hs.execution.congr hexecution,
    hs.logging.congr hlogging⟩

/-- What is read depends on the values at the fields only. -/
theorem gather?_congr {other : List String → Datum}
    (hsame : ∀ path ∈ paths, value path = other path) : gather? value = gather? other := by
  refine Option.ext fun s => ?_
  rw [gather?_eq_some_iff, gather?_eq_some_iff]
  exact ⟨Holds.congr hsame, Holds.congr fun path hpath => (hsame path hpath).symm⟩

/-- The sections of settings as data. -/
theorem field?_toDatum (s : Settings) :
    s.toDatum.field? "system" = some (write SystemSettings.fields s.system) ∧
      s.toDatum.field? "security" = some (write SecuritySettings.fields s.security) ∧
      s.toDatum.field? "execution" = some (write ExecutionSettings.fields s.execution) ∧
      s.toDatum.field? "logging" = some (write LoggingSettings.fields s.logging) := by
  simp [toDatum, sections, fields, Form.field, Record.form, Datum.field?, Entries.lookup_cons]

/-- A plain value stands at each field of settings. -/
theorem at?_toDatum (s : Settings) :
    ∀ path ∈ paths, ∃ d, s.toDatum.at? path = some d ∧ d.Plain := by
  obtain ⟨hsystem, hsecurity, hexecution, hlogging⟩ := s.field?_toDatum
  refine forall_mem_paths.2 ⟨fun field hfield => ?_, fun field hfield => ?_, fun field hfield => ?_,
    fun field hfield => ?_⟩
  · refine ⟨_, at?_write SystemSettings.wellKeyed hsystem field hfield, ?_⟩
    revert field
    simp [SystemSettings.fields, Form.field, Form.word, Form.number, Datum.Plain]
  · refine ⟨_, at?_write SecuritySettings.wellKeyed hsecurity field hfield, ?_⟩
    revert field
    simp [SecuritySettings.fields, Form.field, Form.word, Datum.Plain]
  · refine ⟨_, at?_write ExecutionSettings.wellKeyed hexecution field hfield, ?_⟩
    revert field
    simp [ExecutionSettings.fields, Form.field, Form.word, Datum.Plain]
  · refine ⟨_, at?_write LoggingSettings.wellKeyed hlogging field hfield, ?_⟩
    revert field
    cases hfile : s.logging.file <;>
      simp [LoggingSettings.fields, Form.field, Form.text, Form.flag, Form.optionalText,
        Datum.Plain, hfile]

/-- Settings are data in sections. -/
theorem sectioned_toDatum (s : Settings) : s.toDatum.Sectioned sectionNames := by
  obtain ⟨hsystem, hsecurity, hexecution, hlogging⟩ := s.field?_toDatum
  refine ⟨⟨_, rfl, by simp [sections, fields, Form.field]⟩, fun name hname inner hinner => ?_⟩
  simp only [sectionNames, List.mem_cons, List.not_mem_nil, or_false] at hname
  rcases hname with rfl | rfl | rfl | rfl
  · rw [← Option.some.inj (hsystem.symm.trans hinner)]
    exact isSection_write SystemSettings.wellKeyed s.system
  · rw [← Option.some.inj (hsecurity.symm.trans hinner)]
    exact isSection_write SecuritySettings.wellKeyed s.security
  · rw [← Option.some.inj (hexecution.symm.trans hinner)]
    exact isSection_write ExecutionSettings.wellKeyed s.execution
  · rw [← Option.some.inj (hlogging.symm.trans hinner)]
    exact isSection_write LoggingSettings.wellKeyed s.logging

end Settings

/-! ## Sources -/

namespace Surroundings

variable {t : Surroundings} {named : Option String}

/-- Where a settings file may stand: at the named path only, or else in the usual places. -/
def candidates (t : Surroundings) : Option String → List String
  | some path => [joinPath t.workingDirectory path]
  | none => t.usualPaths

/-- Where the settings file stands, if there is one. -/
def chosen? (t : Surroundings) (named : Option String) : Option String :=
  (t.candidates named).find? fun path => (t.place path).isPresent

/-- Without a file at any candidate none is used. -/
theorem settingsFile_of_none (hchosen : t.chosen? named = none) :
    (t.settingsFile named).1 = none := by
  cases named with
  | some path =>
    have habsent : (t.place (joinPath t.workingDirectory path)).isPresent = false := by
      simpa [chosen?, candidates] using hchosen
    simp [settingsFile, habsent]
  | none =>
    rw [chosen?, candidates] at hchosen
    simp [settingsFile, hchosen]

/-- The file that was chosen is used. -/
theorem settingsFile_of_some
    (hseen : named = none → ∀ path ∈ t.usualPaths,
      t.place (joinPath t.workingDirectory path) = t.place path)
    {path text : String} (hchosen : t.chosen? named = some path)
    (hplace : t.place path = .file text) : (t.settingsFile named).1 = some text := by
  have hmem := List.mem_of_find?_eq_some hchosen
  cases named with
  | some given =>
    have hpath : path = joinPath t.workingDirectory given := by
      simpa [candidates] using hmem
    rw [settingsFile_eq (hpath ▸ hplace)]
  | none =>
    rw [chosen?, candidates] at hchosen
    simp [settingsFile, hchosen, findFile?_eq ((hseen rfl path hmem).trans hplace)]

/-- The value that wins at a field: that of its variable, or else the file's, or else the
default. -/
def winning (t : Surroundings) (mark : String) (entries : List (String × Datum))
    (path : List String) : Datum :=
  ((((Variables.assignments (mark ++ "__") t.environment).lookup path).or
    ((Datum.table entries).at? path)).or ((Settings.toDatum {}).at? path)).getD .null

/-- Surroundings in which the settings file, if there is one, is well-formed with tables for its
sections, and the variables under the mark name different fields and are no tables. -/
structure Orderly (t : Surroundings) (named : Option String) (mark : String)
    (entries : List (String × Datum)) : Prop where
  /-- The usual places, which matter if no other one is named, are seen from the working directory:
  that goes without saying for absolute paths. -/
  seen : named = none → ∀ path ∈ t.usualPaths,
    t.place (joinPath t.workingDirectory path) = t.place path
  /-- Without a settings file there are no entries. -/
  absent : t.chosen? named = none → entries = []
  /-- The settings file is well-formed and has the entries. -/
  present : ∀ path, t.chosen? named = some path →
    ∃ text, t.place path = .file text ∧ Toml.parse? text.toList = some entries
  sections : ∀ name ∈ Settings.sectionNames, ∀ inner, entries.lookup name = some inner →
    ∃ fields, inner = .table fields
  known : ∀ assignment ∈ Variables.assignments (mark ++ "__") t.environment,
    assignment.1 ∈ Settings.paths
  different : ((Variables.assignments (mark ++ "__") t.environment).map Prod.fst).Nodup
  plain : ∀ assignment ∈ Variables.assignments (mark ++ "__") t.environment, assignment.2.Plain

variable {mark : String} {entries : List (String × Datum)} (ht : t.Orderly named mark entries)

include ht

/-- What is used of a settings file is well-formed. -/
theorem Orderly.file_eq :
    ((t.settingsFile named).1.map fun text => Toml.parse? text.toList).getD (some []) =
      some entries := by
  cases hchosen : t.chosen? named with
  | none => simp [settingsFile_of_none hchosen, ht.absent hchosen]
  | some path =>
    obtain ⟨text, hplace, hparse⟩ := ht.present path hchosen
    simp [settingsFile_of_some ht.seen hchosen hplace, hparse]

/-- The entries of the settings file are data in sections. -/
theorem Orderly.sectioned : (Datum.table entries).Sectioned Settings.sectionNames := by
  cases hchosen : t.chosen? named with
  | none =>
    rw [ht.absent hchosen]
    exact Datum.sectioned_empty _
  | some path =>
    obtain ⟨text, -, hparse⟩ := ht.present path hchosen
    exact (Toml.distinct_parse? hparse).sectioned ht.sections

/-- In merged layers the value that wins stands at each field. -/
theorem Orderly.layers :
    let layers := ((Settings.toDatum {}).over (.table entries)).over
      (variableLayer (mark ++ "__") t.environment)
    layers.IsSection ∧ ∀ path ∈ Settings.paths,
      layers.at? path = some (t.winning mark entries path) := by
  have hassigned := assigned (fun assignment hmem => Settings.exists_of_mem_paths
    (ht.known assignment hmem)) ht.different ht.plain (Datum.sectioned_empty Settings.sectionNames)
  rw [← variableLayer_eq_foldl] at hassigned
  obtain ⟨hvariables, hvalues⟩ := hassigned
  have hdefaults := Settings.sectioned_toDatum {}
  have hunder := hdefaults.over ht.sectioned
  refine ⟨(hunder.over hvariables).root, fun path hpath => ?_⟩
  obtain ⟨default, hdefault, hplain⟩ := Settings.at?_toDatum {} path hpath
  obtain ⟨name, hname, key, rfl⟩ := Settings.exists_of_mem_paths hpath
  have hnone : (Datum.table []).at? [name, key] = none := rfl
  rw [Datum.at?_over hunder hvariables hname, Datum.at?_over hdefaults ht.sectioned hname,
    hvalues name hname, winning, hdefault, hnone, Option.or_none]
  -- The variable is no table and so replaces what lies below it; so does the file, because the
  -- default is none.
  cases hvariable :
      (Variables.assignments (mark ++ "__") t.environment).lookup [name, key] with
  | some value =>
    rw [(ht.plain _ (Entries.mem_of_lookup hvariable)).merge]
    rfl
  | none =>
    rw [Option.merge_none_right]
    cases (Datum.table entries).at? [name, key] with
    | none => rfl
    | some value => exact congrArg some (hplain.over value)

end Surroundings

namespace Settings

variable {t : Surroundings} {named : Option String} {mark : String}
  {entries : List (String × Datum)}

/-- What is loaded is read from the values that win, and validated. -/
theorem load_eq (ht : t.Orderly named mark entries) :
    (load t named mark).1 =
      match gather? (t.winning mark entries) with
      | some s => s.validate
      | none => .error (unreadable "a value is not of its field's type") := by
  obtain ⟨hroot, hat⟩ := ht.layers
  have hload : (load t named mark).1 =
      (extract (t.settingsFile named).1 mark t.environment).bind validate := rfl
  rw [hload, extract, ht.file_eq]
  dsimp only
  rw [ofLayers?_eq_gather? hroot hat]
  cases gather? (t.winning mark entries) <;> rfl

/-- Each field is resolved on its own. Settings are loaded exactly if the values that win are of
their fields' types and make up settings that pass validation, and then each field holds the value
that wins there. Nothing else of the file and the variables counts: surroundings in which the same
values win give the same settings, or the same fault. -/
theorem fields_resolve_by_precedence (ht : t.Orderly named mark entries) :
    let value := t.winning mark entries
    (Typed value ↔ ∃! s, Holds value s) ∧
    (∀ s, (load t named mark).1 = .ok s ↔ Holds value s ∧ s.validate = .ok s) ∧
    ∀ (u : Surroundings) other otherMark otherEntries, u.Orderly other otherMark otherEntries →
      (∀ path ∈ paths, u.winning otherMark otherEntries path = value path) →
      (load u other otherMark).1 = (load t named mark).1 := by
  intro value
  refine ⟨typed_iff, fun s => ?_, fun u other otherMark otherEntries hu hsame => ?_⟩
  · rw [load_eq ht, ← gather?_eq_some_iff]
    cases gather? value with
    | none => simp
    | some settings =>
      rw [Option.some_inj]
      constructor
      · intro hvalid
        obtain rfl := eq_of_validate hvalid
        exact ⟨rfl, hvalid⟩
      · rintro ⟨rfl, hvalid⟩
        exact hvalid
  · rw [load_eq hu, load_eq ht, gather?_congr hsame]

/-- A variable overrules a value of another type in the file of the working directory, which also
holds an unknown key and an unknown section; a variable without the whole mark does not count. -/
theorem fields_resolve_by_precedence_of_override :
    let text := "[security]\nmax_sessions_per_ip = \"many\"\nnovelty = 1\n\n[extras]\nhue = 3\n"
    let t : Surroundings := ⟨fun path => if path = "/srv/bgov.toml" then .file text else .absent,
      "/srv", none, .ofList [("BGOV__SECURITY__MAX_SESSIONS_PER_IP", "2"),
        ("BGOV_LOGGING__JSON_FORMAT", "true")]⟩
    let entries : List (String × Datum) :=
      [("security", .table [("max_sessions_per_ip", .text "many"), ("novelty", .integer 1)]),
        ("extras", .table [("hue", .integer 3)])]
    let s : Settings := { security := { maxPerAddress := 2 } }
    t.Orderly none usualMark entries ∧ (load t none usualMark).1 = .ok s ∧
      Holds (t.winning usualMark entries) s := by
  intro text t entries s
  have hchosen : t.chosen? none = some "/srv/bgov.toml" := by decide +kernel
  have hparse : Toml.parse? text.toList = some entries := by
    simp only [text, String.reduceToList]
    rfl
  have hassignments : Variables.assignments (usualMark ++ "__") t.environment =
      [(["security", "max_sessions_per_ip"], .integer 2)] := rfl
  have ht : t.Orderly none usualMark entries := by
    refine ⟨fun _ => by decide +kernel, ?_, ?_, ?_, ?_, ?_, ?_⟩
    · rw [hchosen]
      exact fun h => by cases h
    · rw [hchosen]
      rintro _ ⟨⟩
      exact ⟨text, rfl, hparse⟩
    · simp [sectionNames, entries, Entries.lookup_cons]
    · rw [hassignments]
      decide
    · rw [hassignments]
      decide
    · rw [hassignments]
      simp [Datum.Plain]
  have hload : (load t none usualMark).1 = .ok s := by decide +kernel
  exact ⟨ht, hload, ((fields_resolve_by_precedence ht).2.1 s).1 hload |>.1⟩

end Settings

end Steward
