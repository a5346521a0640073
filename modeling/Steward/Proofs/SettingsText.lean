import Steward.Settings.Loading
import Steward.Proofs.CpuShares
import Steward.Proofs.LayeredRecords

/-!
# Settings as text

The text of accepted settings is read back as the settings: each section is a record that can be
stored, laid over the defaults the stored sections give all settings, and these are read back field
by field. Only integers beyond the signed range and numbers that are not finite are lost, and the
checks leave a NaN for the CPU floor as the only one of these numbers.
-/

namespace Steward

open Record

/-! ## Sections -/

/-- The integers of the section. -/
def SystemSettings.words (s : SystemSettings) : List Nat :=
  [s.maxUsers, s.reservedMemory, s.minSystemMemory, s.monitorSeconds, s.maxInactiveSeconds,
    s.guardSeconds, s.minMemory]

/-- The integers of the section. -/
def SecuritySettings.words (s : SecuritySettings) : List Nat :=
  [s.maxPerUser, s.maxPerAddress, s.maxMessages, s.maxBytes, s.sweepSeconds, s.idleSeconds]

/-- The integers of the section. -/
def ExecutionSettings.words (s : ExecutionSettings) : List Nat :=
  [s.maxWorkers, s.maxExecutionSeconds, s.maxFileSize, s.maxFiles, s.maxCommands, s.maxLoops]

/-- The integers among the settings. -/
def Settings.words (s : Settings) : List Nat :=
  s.system.words ++ s.security.words ++ s.execution.words

/-- An integer of the signed range can be written. -/
theorem writable_word {n : Nat} (hn : n < signBound) : Toml.Writable (Form.word.write n) := by
  simp [Toml.Writable, Form.word, Toml.inRange]
  omega

/-- A finite number can be written. -/
theorem writable_number {x : Binary64} (hfinite : x.isFinite = true) :
    Toml.Writable (Form.number.write x) := hfinite

/-- An integer of the signed range is read back. -/
theorem word_read?_write {n : Nat} (hn : n < signBound) :
    Form.word.read? (Form.word.write n) = some n := by
  have hword : n ≤ wordMax := hn.le.trans (by decide)
  simp [Form.word, Datum.naturalUpTo?, hword]

namespace SystemSettings

variable {s : SystemSettings}

/-- The keys of the section are bare and distinct. -/
theorem wellKeyed : WellKeyed fields := ⟨by decide, by decide⟩

/-- Integers of the signed range and finite numbers can be stored. -/
theorem storable (hwords : ∀ n ∈ s.words, n < signBound) (hreserved : s.reservedCpu.isFinite = true)
    (hfloor : s.minCpu.isFinite = true) : Storable fields s := by
  simp only [words, List.forall_mem_cons] at hwords
  simp only [Storable, fields, List.forall_mem_cons, Form.field]
  simp [writable_word, writable_number, hwords, hreserved, hfloor]

/-- Fields with integers of the signed range are read back. -/
theorem read?_write (hwords : ∀ n ∈ s.words, n < signBound) (rule : RecordRule) :
    Record.read? rule fields {} (Record.write fields s) = some s := by
  simp only [words, List.forall_mem_cons] at hwords
  refine Record.read?_write wellKeyed.distinct rule ?_
  simp [fields, Form.field, word_read?_write, hwords, Form.number, Datum.number?]

end SystemSettings

namespace SecuritySettings

variable {s : SecuritySettings} (hwords : ∀ n ∈ s.words, n < signBound)

/-- The keys of the section are bare and distinct. -/
theorem wellKeyed : WellKeyed fields := ⟨by decide, by decide⟩

include hwords

/-- Integers of the signed range can be stored. -/
theorem storable : Storable fields s := by
  simp only [words, List.forall_mem_cons] at hwords
  simp only [Storable, fields, List.forall_mem_cons, Form.field]
  simp [writable_word, hwords]

/-- Integers of the signed range are read back. -/
theorem read?_write (rule : RecordRule) :
    Record.read? rule fields {} (Record.write fields s) = some s := by
  simp only [words, List.forall_mem_cons] at hwords
  refine Record.read?_write wellKeyed.distinct rule ?_
  simp [fields, Form.field, word_read?_write, hwords]

end SecuritySettings

namespace ExecutionSettings

variable {s : ExecutionSettings} (hwords : ∀ n ∈ s.words, n < signBound)

/-- The keys of the section are bare and distinct. -/
theorem wellKeyed : WellKeyed fields := ⟨by decide, by decide⟩

include hwords

/-- Integers of the signed range can be stored. -/
theorem storable : Storable fields s := by
  simp only [words, List.forall_mem_cons] at hwords
  simp only [Storable, fields, List.forall_mem_cons, Form.field]
  simp [writable_word, hwords]

/-- Integers of the signed range are read back. -/
theorem read?_write (rule : RecordRule) :
    Record.read? rule fields {} (Record.write fields s) = some s := by
  simp only [words, List.forall_mem_cons] at hwords
  refine Record.read?_write wellKeyed.distinct rule ?_
  simp [fields, Form.field, word_read?_write, hwords]

end ExecutionSettings

namespace LoggingSettings

/-- The keys of the section are bare and distinct. -/
theorem wellKeyed : WellKeyed fields := ⟨by decide, by decide⟩

/-- Texts and truth values can be stored, and so can a missing text. -/
theorem storable (s : LoggingSettings) : Storable fields s := by
  simp only [Storable, fields, List.forall_mem_cons, Form.field]
  cases hfile : s.file <;> simp [Toml.Writable, Form.text, Form.flag, Form.optionalText]

/-- Texts and truth values are read back, and so is a missing text. -/
theorem read?_write (s : LoggingSettings) (rule : RecordRule) :
    Record.read? rule fields {} (Record.write fields s) = some s := by
  refine Record.read?_write wellKeyed.distinct rule ?_
  obtain ⟨level, json, file⟩ := s
  cases file <;>
    simp [fields, Form.field, Form.text, Form.flag, Form.optionalText, Datum.text?, Datum.flag?]

end LoggingSettings

namespace Settings

/-- Settings that a file can hold. -/
structure Storable (s : Settings) : Prop where
  words : ∀ n ∈ s.words, n < signBound
  reserved : s.system.reservedCpu.isFinite = true
  floor : s.system.minCpu.isFinite = true

/-- What a file of settings holds: the sections without what is absent. -/
def stored (s : Settings) : List (String × Datum) :=
  [("system", .table (Toml.present (entries SystemSettings.fields s.system))),
    ("security", .table (Toml.present (entries SecuritySettings.fields s.security))),
    ("execution", .table (Toml.present (entries ExecutionSettings.fields s.execution))),
    ("logging", .table (Toml.present (entries LoggingSettings.fields s.logging)))]

/-- The parts of settings that a file can hold. -/
structure StorableSections (s : Settings) : Prop where
  system : Record.Storable SystemSettings.fields s.system
  security : Record.Storable SecuritySettings.fields s.security
  execution : Record.Storable ExecutionSettings.fields s.execution
  logging : Record.Storable LoggingSettings.fields s.logging

variable {s : Settings} (hs : s.Storable)

include hs

/-- The integers of the sections lie in the signed range. -/
theorem Storable.section_words :
    (∀ n ∈ s.system.words, n < signBound) ∧ (∀ n ∈ s.security.words, n < signBound) ∧
      ∀ n ∈ s.execution.words, n < signBound :=
  ⟨fun n hmem => hs.words n (by simp [Settings.words, hmem]),
    fun n hmem => hs.words n (by simp [Settings.words, hmem]),
    fun n hmem => hs.words n (by simp [Settings.words, hmem])⟩

/-- Each section can be stored. -/
theorem Storable.sections : s.StorableSections := by
  obtain ⟨hsystem, hsecurity, hexecution⟩ := hs.section_words
  exact ⟨SystemSettings.storable hsystem hs.reserved hs.floor, SecuritySettings.storable hsecurity,
    ExecutionSettings.storable hexecution, LoggingSettings.storable s.logging⟩

/-- The text of settings is read as what they hold, whatever number of line ends follows it. -/
theorem parse?_print (count : Nat) :
    Toml.parse? (Toml.print s.sections ++ List.replicate count '\n') = some s.stored := by
  have hsections : Toml.sections s.sections =
      [("system", entries SystemSettings.fields s.system),
        ("security", entries SecuritySettings.fields s.security),
        ("execution", entries ExecutionSettings.fields s.execution),
        ("logging", entries LoggingSettings.fields s.logging)] := rfl
  have hstorable := hs.sections
  rw [Toml.parse?_print, hsections]
  · rfl
  · rw [hsections]
    simp only [List.forall_mem_cons]
    exact ⟨⟨by decide, printable_entries SystemSettings.wellKeyed hstorable.system⟩,
      ⟨by decide, printable_entries SecuritySettings.wellKeyed hstorable.security⟩,
      ⟨by decide, printable_entries ExecutionSettings.wellKeyed hstorable.execution⟩,
      ⟨by decide, printable_entries LoggingSettings.wellKeyed hstorable.logging⟩, by simp⟩
  · rw [hsections]
    simp

/-- Laid over settings without a file for events, what settings hold gives the settings. -/
theorem over_stored {below : Settings} (hfile : below.logging.file = none) :
    below.toDatum.over (.table s.stored) = s.toDatum := by
  have hstorable := hs.sections
  have hsystem := over_present SystemSettings.wellKeyed hstorable.system below.system
    (by simp [SystemSettings.fields, Form.field, Form.word, Form.number])
  have hsecurity := over_present SecuritySettings.wellKeyed hstorable.security below.security
    (by simp [SecuritySettings.fields, Form.field, Form.word])
  have hexecution := over_present ExecutionSettings.wellKeyed hstorable.execution
    below.execution (by simp [ExecutionSettings.fields, Form.field, Form.word])
  have hlogging := over_present LoggingSettings.wellKeyed hstorable.logging below.logging
    (by simp [LoggingSettings.fields, Form.field, Form.text, Form.flag, Form.optionalText, hfile])
  rw [toDatum, Datum.over, toDatum]
  simp [sections, fields, stored, Form.field, Record.form, mergeFields, Entries.put,
    Entries.lookup_cons, hsystem, hsecurity, hexecution, hlogging]

omit hs in
/-- Settings are written in the same way whatever is allowed when they are read. -/
theorem toDatum_eq_write (rule : RecordRule) : s.toDatum = Record.write (fields rule) s := by
  simp [toDatum, sections, Record.write, fields, Record.form, Form.field]

/-- Settings are read back from their data. -/
theorem ofLayers?_toDatum : ofLayers? s.toDatum = some s := by
  obtain ⟨hsystem, hsecurity, hexecution⟩ := hs.section_words
  have hdistinct : ((fields ⟨true, true⟩).map Field.key).Nodup := by
    simp [fields, Form.field]
  rw [toDatum_eq_write ⟨true, true⟩, ofLayers?]
  refine Record.read?_write hdistinct ⟨true, true⟩ ?_
  simp [fields, Form.field, Record.form, SystemSettings.read?_write hsystem,
    SecuritySettings.read?_write hsecurity, ExecutionSettings.read?_write hexecution,
    LoggingSettings.read?_write]

/-- The text of settings is read as the settings, whatever number of line ends follows it. -/
theorem extract_text {text : String} {count : Nat}
    (htext : text.toList = Toml.print s.sections ++ List.replicate count '\n')
    {mark : String} {environment : Table String}
    (hplain : ∀ entry ∈ environment.entries, Variables.keyOf? (mark ++ "__") entry.1 = none) :
    extract (some text) mark environment = .ok s := by
  have hover : s.toDatum.over (.table []) = s.toDatum := by
    simp [toDatum, Datum.over, mergeFields]
  have hlaid : (toDatum {}).over (.table s.stored) = s.toDatum := over_stored hs rfl
  unfold extract
  simp only [Option.map_some, htext, parse?_print hs, Option.getD_some, hlaid,
    variableLayer_eq hplain, hover, ofLayers?_toDatum hs]

omit hs in
/-- Accepted settings can be stored, apart from integers beyond the signed range and a floor that is
no number. -/
theorem storable_of_accepted (haccepted : s.validate = .ok s)
    (hwords : ∀ n ∈ s.words, n < signBound) (hnumber : s.system.minCpu ≠ .nan) : s.Storable := by
  have ha := system_accepted haccepted
  refine ⟨hwords, ?_, ?_⟩
  · obtain ⟨negative, rank, hreserved, -, hless, -⟩ := ha.reserved_cases
    obtain ⟨hundred, -, hfinite, hunits⟩ := hasUnits_hundred
    rw [← hunits, rankUnits_strictMono.lt_iff_lt] at hless
    rw [hreserved]
    exact decide_eq_true (hless.trans hfinite)
  · obtain ⟨pool, hpool⟩ := ha.available_isPool
    obtain hnan | ⟨-, floor, -, hfloor, -⟩ := ha.floor_hasUnits hpool.1
    · exact absurd hnan hnumber
    · exact hfloor.isFinite

end Settings

end Steward
