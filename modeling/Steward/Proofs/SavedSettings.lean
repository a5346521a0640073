import Steward.CommandLine
import Steward.Proofs.SettingsText

/-!
# Saved settings

A text is found where it was written, since the walk to a place is not led elsewhere by what stands
at its end. So settings that were saved are loaded from their file, whatever path names it, and so
are settings whose text was printed and stored.
-/

namespace Steward

/-! ## Written files -/

namespace Files

variable {f : Files}

/-- A path is writable if some text can be written there. -/
def Writable (f : Files) (path : String) : Prop := ∃ text after, f.write path text = .ok after

/-- The writable paths lead to a place that is no directory, and do not end in a slash. -/
theorem writable_iff {path : String} : f.Writable path ↔ ∃ segments,
    f.locate path = .ok segments ∧ f.isDirectory segments = false ∧ path.endsWith "/" = false := by
  unfold Writable write
  constructor
  · rintro ⟨text, after, hwrite⟩
    split at hwrite
    · cases hwrite
    · next segments hlocate =>
      split at hwrite
      · cases hwrite
      · next hplain =>
        rw [Bool.not_eq_true, Bool.or_eq_false_iff] at hplain
        exact ⟨segments, hlocate, hplain⟩
  · rintro ⟨segments, hlocate, hdirectory, hslash⟩
    simp [hlocate, hdirectory, hslash]

/-- Files with a text written at a place. -/
def withText (f : Files) (segments : List String) (text : String) : Files :=
  { f with texts := (segments, text) :: f.texts }

/-- What is a directory stays one. -/
theorem isDirectory_withText (place segments : List String) (text : String) :
    (f.withText segments text).isDirectory place =
      (f.isDirectory place || place.isPrefixOf segments.dropLast) := by
  simp only [isDirectory, withText, List.map_cons, List.any_append, List.any_cons]
  ac_rfl

/-- A directory still stands where one stood. -/
theorem standing_withText {place : List String} (segments : List String) (text : String)
    (hstanding : f.standing place = .directory) :
    (f.withText segments text).standing place = .directory := by
  have hdirectory : f.isDirectory place = true := by
    unfold standing at hstanding
    split at hstanding
    · assumption
    · cases hlookup : f.texts.lookup place <;> rw [hlookup] at hstanding <;> cases hstanding
  rw [standing, isDirectory_withText, hdirectory]
  rfl

/-- A walk leads to the same place after a text was written. -/
theorem walk_withText {segments : List String} {text : String} {steps place target : List String}
    (hwalk : f.walk place steps = .ok target) :
    (f.withText segments text).walk place steps = .ok target := by
  induction steps generalizing place with
  | nil => exact hwalk
  | cons step steps ih =>
    rw [walk] at hwalk ⊢
    cases hplace : f.standing place with
    | absent =>
      rw [hplace] at hwalk
      cases hwalk
    | file =>
      rw [hplace] at hwalk
      cases hwalk
    | directory =>
      rw [hplace] at hwalk
      rw [standing_withText segments text hplace]
      dsimp only at hwalk ⊢
      split_ifs at hwalk ⊢
      · exact ih hwalk
      · exact ih hwalk
      · exact ih hwalk

/-- A text is found where it was written. -/
theorem Writable.exists_write {path : String} (hwritable : f.Writable path) (text : String) :
    ∃ after, f.write path text = .ok after ∧ after.place path = .file text := by
  obtain ⟨segments, hlocate, hdirectory, hslash⟩ := writable_iff.1 hwritable
  refine ⟨f.withText segments text, ?_, ?_⟩
  · rw [Files.write, hlocate]
    simp [hdirectory, hslash, withText]
  · have hsame : (f.withText segments text).locate path = .ok segments := by
      unfold locate at hlocate ⊢
      split_ifs at hlocate ⊢
      exact walk_withText hlocate
    have hplain : (f.withText segments text).isDirectory segments = false := by
      rw [isDirectory_withText, hdirectory, Bool.false_or]
      have hsome : segments ≠ [] := by
        rintro rfl
        cases hdirectory
      refine Bool.eq_false_iff.2 fun hinside => ?_
      have hlength := (List.isPrefixOf_iff_prefix.1 hinside).length_le
      have hpositive := List.length_pos_iff.2 hsome
      rw [List.length_dropLast] at hlength
      omega
    have hfound : (f.withText segments text).standing segments = .file text := by
      rw [standing, hplain]
      simp [withText]
    rw [place, hsame]
    simp [hfound, hslash]

end Files

/-! ## The settings file -/

/-- The first of the directories above a directory is the directory. -/
theorem ancestors_eq_cons (directory : String) :
    ∃ others, ancestors directory = directory :: others := by
  have hjoin : "/".intercalate (pathParts directory) = directory := by
    rw [← String.toList_inj, String.toList_intercalate, pathParts, List.map_map]
    have hid : String.toList ∘ String.ofList = id := by
      funext cs
      simp
    rw [hid, List.map_id]
    exact List.intercalate_splitOn '/'
  have hsome : pathParts directory ≠ [] := by
    simp [pathParts]
  obtain ⟨count, hcount⟩ : ∃ n, (pathParts directory).length = n + 1 :=
    ⟨_, (Nat.succ_pred (List.length_pos_iff.2 hsome).ne').symm⟩
  rw [ancestors, hcount, List.range_succ_eq_map, List.map_cons, Nat.sub_zero, ← hcount,
    List.take_length, hjoin]
  exact ⟨_, rfl⟩

/-- A file that stands at a path, as seen from the working directory, is found there. -/
theorem Surroundings.findFile?_eq {t : Surroundings} {path text : String}
    (hplace : t.place (joinPath t.workingDirectory path) = .file text) :
    t.findFile? path = some text := by
  unfold findFile?
  split_ifs with habsolute
  · rw [joinPath, if_pos habsolute] at hplace
    rw [hplace]
    rfl
  · obtain ⟨others, hothers⟩ := ancestors_eq_cons t.workingDirectory
    rw [hothers, List.findSome?_cons, hplace]
    rfl

/-- A file that stands at the named path is loaded. -/
theorem Surroundings.settingsFile_eq {t : Surroundings} {path text : String}
    (hplace : t.place (joinPath t.workingDirectory path) = .file text) :
    t.settingsFile (some path) = (some text, [.loaded path]) := by
  simp [settingsFile, hplace, Place.isPresent, findFile?_eq hplace]

namespace Settings

/-- Accepted settings are loaded from their text. -/
theorem load_of_text {s : Settings} (hs : s.Storable) (haccepted : s.validate = .ok s)
    {t : Surroundings} {path mark text : String} (count : Nat)
    (hplace : t.place (joinPath t.workingDirectory path) = .file text)
    (htext : text.toList = Toml.print s.sections ++ List.replicate count '\n')
    (hplain : ∀ entry ∈ t.environment.entries, Variables.keyOf? (mark ++ "__") entry.1 = none) :
    load t (some path) mark = (.ok s, [.loaded path]) := by
  rw [load, Surroundings.settingsFile_eq hplace]
  simp only [extract_text hs htext hplain, Except.bind, haccepted]

/-- Settings that are accepted, with integers of the signed range and a floor that is a number, are
saved at every writable path, and loaded from there as they were; so are they from the text that the
program prints as the settings in effect. No variable may stand under the mark, since variables lie
above the file. -/
theorem saved_settings_load_back {s : Settings} (haccepted : s.validate = .ok s)
    (hwords : ∀ n ∈ s.words, n ≤ 2 ^ 63 - 1) (hnumber : s.system.minCpu ≠ .nan)
    {t : Surroundings} {files : Files} {path mark : String}
    (hwritable : files.Writable (joinPath t.workingDirectory path))
    (hplain : ∀ entry ∈ t.environment.entries, Variables.keyOf? (mark ++ "__") entry.1 = none) :
    (∃ after, s.save files (joinPath t.workingDirectory path) = .ok after ∧
      load { t with place := after.place } (some path) mark = (.ok s, [.loaded path])) ∧
    ∀ u args request, CommandLine.read args = .request request → request.printConfig = true →
      (load u request.config usualMark).1 = .ok s →
      ∃ printed after, CommandLine.respond u args = .answer 0 printed "" ∧
        files.write (joinPath t.workingDirectory path) printed = .ok after ∧
        load { t with place := after.place } (some path) mark = (.ok s, [.loaded path]) := by
  have hrange : ∀ n ∈ s.words, n < signBound := fun n hmem =>
    (hwords n hmem).trans_lt (by decide)
  have hs := storable_of_accepted haccepted hrange hnumber
  constructor
  · obtain ⟨after, hwrite, hplace⟩ := hwritable.exists_write s.toText
    refine ⟨after, ?_, ?_⟩
    · rw [save, hwrite]
      rfl
    · refine load_of_text hs haccepted 0 hplace ?_ hplain
      simp [toText]
  · intro u args request hread hprint hload
    obtain ⟨after, hwrite, hplace⟩ := hwritable.exists_write (s.toText ++ "\n")
    refine ⟨s.toText ++ "\n", after, ?_, hwrite, ?_⟩
    · simp [CommandLine.respond, hread, hload, hprint]
    · refine load_of_text hs haccepted 1 hplace ?_ hplain
      simp [toText]

/-- A log file whose name holds a backslash, quotes of both kinds and a line end survives saving,
loading and printing. -/
theorem saved_settings_load_back_of_quotes :
    let s : Settings := { logging := { level := "DEBUG", file := some "logs\\\"'''\".txt\n" } }
    let t : Surroundings := ⟨fun _ => .absent, "/srv", none, .empty⟩
    let files : Files := { directories := [["srv"]] }
    s.validate = .ok s ∧ (∀ n ∈ s.words, n ≤ 2 ^ 63 - 1) ∧ s.system.minCpu ≠ .nan ∧
      files.Writable (joinPath t.workingDirectory "bgov.toml") ∧
      ∃ after, s.save files (joinPath t.workingDirectory "bgov.toml") = .ok after ∧
        load { t with place := after.place } (some "bgov.toml") usualMark =
          (.ok s, [.loaded "bgov.toml"]) ∧
        ∃ printed, CommandLine.respond { t with place := after.place }
          ["--config", "bgov.toml", "--print-config"] = .answer 0 printed "" := by
  intro s t files
  have haccepted : s.validate = .ok s := validate_eq_ok_iff.2 (by decide +kernel)
  have hwords : ∀ n ∈ s.words, n ≤ 2 ^ 63 - 1 := by decide
  have hnumber : s.system.minCpu ≠ .nan := by decide +kernel
  have hpath : joinPath t.workingDirectory "bgov.toml" = "/srv/bgov.toml" := by decide +kernel
  have hlocate : files.locate "/srv/bgov.toml" = .ok ["srv", "bgov.toml"] := by
    rw [Files.locate, if_neg (by simp), if_neg (by decide +kernel)]
    decide +kernel
  have hwritable : files.Writable (joinPath t.workingDirectory "bgov.toml") :=
    hpath ▸ Files.writable_iff.2 ⟨_, hlocate, by decide +kernel, by decide +kernel⟩
  have hread : CommandLine.read ["--config", "bgov.toml", "--print-config"] =
      .request ⟨some "bgov.toml", true⟩ := by decide +kernel
  obtain ⟨⟨after, hsave, hload⟩, hprint⟩ :=
    @saved_settings_load_back s haccepted hwords hnumber t files "bgov.toml" usualMark hwritable
      (List.forall_mem_nil _)
  obtain ⟨printed, -, hrespond, -⟩ :=
    hprint { t with place := after.place } _ _ hread rfl (by rw [hload])
  exact ⟨haccepted, hwords, hnumber, hwritable, after, hsave, hload, printed, hrespond⟩

end Settings

end Steward
