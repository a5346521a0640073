import Steward.Proofs.DistinctKeys
import Steward.Proofs.ScalarText
import Mathlib.Data.List.Nodup

/-!
# Printed documents

A document of sections with bare, distinct names is read back line by line, and its lines make up
the tables that were printed, without what was absent. Every line takes one step of the reader and
has at least one character, so a step for every character is enough.
-/

namespace Steward.Toml

/-! ## Keys -/

/-- A bare key: at least one character, and only those that need no quotes. -/
def IsBareKey (key : String) : Prop := (!key.toList.isEmpty && key.toList.all isBare) = true

instance (key : String) : Decidable (IsBareKey key) := inferInstanceAs (Decidable (_ = true))

/-- A character of a bare key is none of the others. -/
theorem ne_of_isBare {c d : Char} (hbare : isBare c = true) (hother : isBare d = false) :
    c ≠ d := by
  rintro rfl
  rw [hbare] at hother
  cases hother

/-- No blank stands before what begins with a bare character. -/
theorem skipBlanks_bare {first : Char} (hfirst : isBare first = true) (others : List Char) :
    skipBlanks (first :: others) = first :: others := by
  have hblank : isBlank first = false := by
    simp [isBlank, ne_of_isBare hfirst (rfl : isBare ' ' = false),
      ne_of_isBare hfirst (rfl : isBare '\t' = false)]
  exact List.dropWhile_cons_of_neg (by simp [hblank])

namespace IsBareKey

variable {key : String} (hkey : IsBareKey key)

include hkey

/-- A bare key has characters. -/
theorem nonempty : key.toList ≠ [] := by
  have hsome := (Bool.and_eq_true_iff.1 hkey).1
  rintro hnone
  rw [hnone] at hsome
  cases hsome

/-- All characters of a bare key are bare. -/
theorem bare : ∀ c ∈ key.toList, isBare c = true :=
  List.all_eq_true.1 (Bool.and_eq_true_iff.1 hkey).2

/-- A bare key begins with a bare character. -/
theorem exists_cons : ∃ first others, key.toList = first :: others ∧ isBare first = true := by
  obtain ⟨first, others, hcons⟩ := List.exists_cons_of_ne_nil hkey.nonempty
  exact ⟨first, others, hcons, hkey.bare first (by simp [hcons])⟩

/-- A bare word is read up to the first other character. -/
theorem readSegment_append {stop : Char} (hstop : isBare stop = false) (rest : List Char) :
    readSegment (key.toList ++ stop :: rest) = some (key, stop :: rest) := by
  have htake : (key.toList ++ stop :: rest).takeWhile isBare = key.toList := by
    rw [List.takeWhile_append_of_pos hkey.bare, List.takeWhile_cons_of_neg (by simp [hstop]),
      List.append_nil]
  have hdrop : (key.toList ++ stop :: rest).dropWhile isBare = stop :: rest := by
    rw [List.dropWhile_append_of_pos hkey.bare, List.dropWhile_cons_of_neg (by simp [hstop])]
  obtain ⟨first, others, hcons, hfirst⟩ := hkey.exists_cons
  unfold readSegment
  split
  · next heq =>
    rw [hcons] at heq
    exact absurd (List.cons.inj heq).1 (ne_of_isBare hfirst rfl)
  · next heq =>
    rw [hcons] at heq
    exact absurd (List.cons.inj heq).1 (ne_of_isBare hfirst rfl)
  · rw [htake, hdrop]
    split
    · next heq => exact absurd heq hkey.nonempty
    · rw [String.ofList_toList]

/-- A bare key is read with the blanks behind it. -/
theorem readKey_append {stop : Char} (hstop : isBare stop = false) {rest next : List Char}
    (hnext : skipBlanks (stop :: rest) = next) (hdot : ∀ left, next ≠ '.' :: left) :
    readKey (key.toList ++ stop :: rest) = some ([key], next) := by
  have hsegment := hkey.readSegment_append hstop rest
  obtain ⟨first, others, hcons, hfirst⟩ := hkey.exists_cons
  rw [hcons, List.cons_append] at hsegment ⊢
  unfold readKey
  rw [List.length_cons, readSegments, skipBlanks_bare hfirst, hsegment]
  simp [hnext, depthLimit]

end IsBareKey

/-! ## Lines -/

/-- A text holds lines if they are read from it with enough fuel. -/
def HasLines (cs : List Char) (lines : List Line) : Prop :=
  ∀ fuel, cs.length ≤ fuel → readLines fuel cs = some lines

/-- The empty text holds no line. -/
theorem hasLines_nil : HasLines [] [] := by
  intro fuel _
  unfold readLines
  rfl

/-- Nothing stands before a line end. -/
theorem restOfLine?_lineEnd (rest : List Char) : restOfLine? ('\n' :: rest) = some rest := by
  simp [restOfLine?, skipBlanks, isBlank, skipComment, lineEnd?]

/-- An empty line does not count. -/
theorem HasLines.emptyLine {rest : List Char} {lines : List Line} (hrest : HasLines rest lines) :
    HasLines ('\n' :: rest) lines := by
  intro fuel hfuel
  rw [List.length_cons] at hfuel
  obtain ⟨fuel, rfl⟩ : ∃ n, fuel = n + 1 := ⟨fuel - 1, by omega⟩
  rw [readLines]
  · simp [restOfLine?_lineEnd, hrest fuel (by omega)]
  · simp

/-- A line with content is read before the rest. -/
theorem HasLines.cons {first : Char} {others rest : List Char} {line : Line} {lines : List Line}
    (hrest : HasLines rest lines) (hfirst : isBare first = true ∨ first = '[')
    (hline : readLine (first :: others) = some (line, '\n' :: rest))
    (hshorter : rest.length ≤ others.length) : HasLines (first :: others) (line :: lines) := by
  intro fuel hfuel
  have hskip : skipBlanks (first :: others) = first :: others := by
    rcases hfirst with hbare | rfl
    · exact skipBlanks_bare hbare others
    · rfl
  have hcontent : restOfLine? (first :: others) = none := by
    have hother (c : Char) (hc : isBare c = false ∧ c ≠ '[') : first ≠ c := by
      rcases hfirst with hbare | rfl
      · exact ne_of_isBare hbare hc.1
      · exact hc.2.symm
    have hcomment := hother '#' (by decide)
    have hfeed := hother '\n' (by decide)
    have hreturn := hother '\r' (by decide)
    simp [restOfLine?, hskip, skipComment, lineEnd?, hcomment, hfeed, hreturn]
  rw [List.length_cons] at hfuel
  obtain ⟨fuel, rfl⟩ : ∃ n, fuel = n + 1 := ⟨fuel - 1, by omega⟩
  rw [readLines]
  · simp [hcontent, hskip, hline, restOfLine?_lineEnd, hrest fuel (by omega)]
  · simp

/-- The line of a pair is read back. -/
theorem HasLines.pair {key : String} (hkey : IsBareKey key) {value : Datum} {written : List Char}
    (hwritable : Writable value) (hwritten : writeScalar? value = some written)
    {rest : List Char} {lines : List Line} (hrest : HasLines rest lines) :
    HasLines (key.toList ++ [' ', '=', ' '] ++ written ++ '\n' :: rest)
      (.pair [key] value :: lines) := by
  have hread : readKey (key.toList ++ ' ' :: '=' :: ' ' :: (written ++ '\n' :: rest)) =
      some ([key], '=' :: ' ' :: (written ++ '\n' :: rest)) :=
    hkey.readKey_append rfl rfl (by simp)
  have hvalue := readValue_writeScalar? hwritable hwritten (depthLimit - 1) rest
  have hskip : skipBlanks (' ' :: (written ++ '\n' :: rest)) = written ++ '\n' :: rest :=
    skipBlanks_written hwritable hwritten _
  have hpair : readPair (readValue (depthLimit - 1))
      (key.toList ++ ' ' :: '=' :: ' ' :: (written ++ '\n' :: rest)) =
        some (([key], value), '\n' :: rest) := by
    simp [readPair, hread, hskip, hvalue]
  obtain ⟨first, others, hcons, hfirst⟩ := hkey.exists_cons
  simp only [List.append_assoc, List.cons_append, List.nil_append]
  rw [hcons, List.cons_append] at hpair ⊢
  refine hrest.cons (.inl hfirst) ?_ ?_
  · unfold readLine
    split
    · next heq => exact absurd (List.cons.inj heq).1 (ne_of_isBare hfirst rfl)
    · next heq => exact absurd (List.cons.inj heq).1 (ne_of_isBare hfirst rfl)
    · rw [hpair]
      rfl
  · simp
    omega

/-- The header of a table is read back. -/
theorem HasLines.header {name : String} (hname : IsBareKey name) {rest : List Char}
    {lines : List Line} (hrest : HasLines rest lines) :
    HasLines ('[' :: name.toList ++ [']', '\n'] ++ rest) (.table [name] :: lines) := by
  have hread : readKey (name.toList ++ ']' :: '\n' :: rest) = some ([name], ']' :: '\n' :: rest) :=
    hname.readKey_append rfl rfl (by simp)
  obtain ⟨first, others, hcons, hfirst⟩ := hname.exists_cons
  simp only [List.append_assoc, List.cons_append, List.nil_append]
  refine hrest.cons (.inr rfl) ?_ ?_
  · rw [hcons, List.cons_append] at hread ⊢
    unfold readLine
    split
    · next heq =>
      exact absurd (List.cons.inj (List.cons.inj heq).2).1 (ne_of_isBare hfirst rfl)
    · next heq =>
      rw [← (List.cons.inj heq).2, hread]
      rfl
    · next hother => exact absurd rfl (hother _)
  · simp
    omega

/-! ## Sections -/

/-- The pairs of a section that are written; the others are absent. -/
def present (pairs : List (String × Datum)) : List (String × Datum) :=
  pairs.filter fun (_, value) => (writeScalar? value).isSome

/-- Pairs that a section can hold: their keys are bare and distinct, and their values can be read
back or are left out. -/
structure Printable (pairs : List (String × Datum)) : Prop where
  bare : ∀ entry ∈ pairs, IsBareKey entry.1
  writable : ∀ entry ∈ pairs, writeScalar? entry.2 = none ∨ Writable entry.2
  distinct : (pairs.map Prod.fst).Nodup

/-- The lines of the pairs of a section. -/
def pairLines (pairs : List (String × Datum)) : List Line :=
  (present pairs).map fun (key, value) => .pair [key] value

/-- The lines of a section. -/
def sectionLines (name : String) (pairs : List (String × Datum)) : List Line :=
  .table [name] :: pairLines pairs

/-- The lines of a section's pairs are read back. -/
theorem hasLines_writePairs {pairs : List (String × Datum)} (hprintable : Printable pairs)
    {rest : List Char} {lines : List Line} (hrest : HasLines rest lines) :
    HasLines (writePairs pairs ++ rest) (pairLines pairs ++ lines) := by
  induction pairs with
  | nil => exact hrest
  | cons entry pairs ih =>
    obtain ⟨key, value⟩ := entry
    obtain ⟨hbare, hwritable, hdistinct⟩ := hprintable
    rw [List.forall_mem_cons] at hbare hwritable
    rw [List.map_cons, List.nodup_cons] at hdistinct
    have hnext := ih ⟨hbare.2, hwritable.2, hdistinct.2⟩
    rw [writePairs]
    cases hwritten : writeScalar? value with
    | none =>
      have hlines : pairLines ((key, value) :: pairs) = pairLines pairs := by
        simp [pairLines, present, hwritten]
      rw [hlines]
      exact hnext
    | some written =>
      have hlines : pairLines ((key, value) :: pairs) = .pair [key] value :: pairLines pairs := by
        simp [pairLines, present, hwritten]
      have hvalue : Writable value := hwritable.1.resolve_left (by simp [hwritten])
      rw [hlines, List.append_assoc, List.cons_append, List.cons_append]
      exact hnext.pair hbare.1 hvalue hwritten

/-- The lines of a section are read back. -/
theorem hasLines_writeSection {name : String} (hname : IsBareKey name)
    {pairs : List (String × Datum)} (hprintable : Printable pairs) {rest : List Char}
    {lines : List Line} (hrest : HasLines rest lines) :
    HasLines (writeSection name pairs ++ rest) (sectionLines name pairs ++ lines) := by
  rw [writeSection, List.append_assoc]
  exact (hasLines_writePairs hprintable hrest).header hname

/-- The lines of all sections are read back, with empty lines between them. -/
theorem hasLines_sections {sections : List (String × List (String × Datum))}
    (hprintable : ∀ entry ∈ sections, IsBareKey entry.1 ∧ Printable entry.2)
    {rest : List Char} (hrest : HasLines rest []) :
    HasLines
      (['\n'].intercalate (sections.map fun (name, pairs) => writeSection name pairs) ++ rest)
      (sections.flatMap fun (name, pairs) => sectionLines name pairs) := by
  induction sections with
  | nil => exact hrest
  | cons entry sections ih =>
    obtain ⟨name, pairs⟩ := entry
    rw [List.forall_mem_cons] at hprintable
    obtain ⟨⟨hname, hpairs⟩, hothers⟩ := hprintable
    have hnext := ih hothers
    rw [List.flatMap_cons]
    cases sections with
    | nil =>
      simpa using hasLines_writeSection hname hpairs hrest
    | cons second sections =>
      have h := hasLines_writeSection hname hpairs hnext.emptyLine
      simpa [List.intercalate] using h

/-! ## Tables -/

/-- Pairs as they stand in a table while a file is put together. -/
def items (pairs : List (String × Datum)) : List (String × Item) :=
  pairs.map fun (key, value) => (key, .value value)

/-- One more pair is one more item. -/
theorem items_append (pairs : List (String × Datum)) (key : String) (value : Datum) :
    items (pairs ++ [(key, value)]) = items pairs ++ [(key, .value value)] := by
  simp [items]

/-- Such pairs are their own data. -/
theorem entriesToData_items (pairs : List (String × Datum)) :
    entriesToData (items pairs) = pairs := by
  rw [entriesToData_eq, items, List.map_map]
  exact List.map_id pairs

/-- A pair is added to the table that was opened last. -/
theorem assemble_pair {name key : String} {done : List (String × Item)}
    (hname : done.lookup name = none) {inner : List (String × Datum)}
    (hkey : key ∉ inner.map Prod.fst) (value : Datum) (lines : List Line) :
    assemble [name] (done ++ [(name, .table false false (items inner))])
        (.pair [key] value :: lines) =
      assemble [name] (done ++ [(name, .table false false (items (inner ++ [(key, value)])))])
        lines := by
  have hfound := Entries.lookup_append_cons hname (.table false false (items inner)) []
  have hnew : (items inner).lookup key = none :=
    Entries.lookup_eq_none (by simpa [items, Function.comp_def] using hkey)
  have hput := Entries.put_append hname (.table false false (items (inner ++ [(key, value)])))
    (.table false false (items inner)) []
  have hadd : addAt [key] value false (items inner) = some (items (inner ++ [(key, value)])) := by
    simp [addAt, changeAt, addValue, hnew, items_append]
  rw [assemble, changeAt]
  simp [hfound, changeAt, hadd, hput]

/-- The pairs of a section are added to its table. -/
theorem assemble_pairs {name : String} {done : List (String × Item)}
    (hname : done.lookup name = none) (pairs : List (String × Datum))
    {inner : List (String × Datum)} (hdistinct : ((inner ++ pairs).map Prod.fst).Nodup)
    (lines : List Line) :
    assemble [name] (done ++ [(name, .table false false (items inner))])
        ((pairs.map fun (key, value) => .pair [key] value) ++ lines) =
      assemble [name] (done ++ [(name, .table false false (items (inner ++ pairs)))]) lines := by
  induction pairs generalizing inner with
  | nil => rw [List.append_nil]; rfl
  | cons entry pairs ih =>
    obtain ⟨key, value⟩ := entry
    have hkey : key ∉ inner.map Prod.fst := by
      rw [List.map_append, List.map_cons, List.nodup_middle, List.nodup_cons] at hdistinct
      exact fun hmem => hdistinct.1 (List.mem_append_left _ hmem)
    have hone : inner ++ (key, value) :: pairs = inner ++ [(key, value)] ++ pairs :=
      List.append_cons inner (key, value) pairs
    rw [hone] at hdistinct ⊢
    rw [List.map_cons, List.cons_append, assemble_pair hname hkey, ih hdistinct]

/-- A section opens its table and fills it. -/
theorem assemble_section {name : String} {done : List (String × Item)}
    (hname : done.lookup name = none) {pairs : List (String × Datum)} (hprintable : Printable pairs)
    (opened : List String) (lines : List Line) :
    assemble opened done (sectionLines name pairs ++ lines) =
      assemble [name] (done ++ [(name, .table false false (items (present pairs)))]) lines := by
  have hopen : changeBeforeLast openTable [name] false done =
      some (done ++ [(name, .table false false [])]) := by
    simp [changeBeforeLast, changeAt, openTable, hname]
  have hdistinct : ((present pairs).map Prod.fst).Nodup :=
    hprintable.distinct.sublist (List.filter_sublist.map _)
  have hpairs := @assemble_pairs name done hname (present pairs) [] hdistinct lines
  rw [sectionLines, List.cons_append, assemble, hopen]
  exact hpairs

/-- The tables of sections. -/
def tables (sections : List (String × List (String × Datum))) : List (String × Item) :=
  sections.map fun (name, pairs) => (name, .table false false (items (present pairs)))

/-- The lines of all sections make up their tables. -/
theorem assemble_sections {done sections : List (String × List (String × Datum))}
    (hprintable : ∀ entry ∈ sections, Printable entry.2)
    (hdistinct : ((done ++ sections).map Prod.fst).Nodup) (opened : List String) :
    assemble opened (tables done) (sections.flatMap fun (name, pairs) => sectionLines name pairs) =
      some (tables (done ++ sections)) := by
  induction sections generalizing done opened with
  | nil => rw [List.append_nil]; rfl
  | cons entry sections ih =>
    obtain ⟨name, pairs⟩ := entry
    rw [List.forall_mem_cons] at hprintable
    have hname : (tables done).lookup name = none := by
      refine Entries.lookup_eq_none fun hmem => ?_
      rw [List.map_append, List.map_cons, List.nodup_middle, List.nodup_cons] at hdistinct
      exact hdistinct.1 (List.mem_append_left _ (by simpa [tables, Function.comp_def] using hmem))
    have htables : tables (done ++ [(name, pairs)]) =
        tables done ++ [(name, .table false false (items (present pairs)))] := by
      simp [tables]
    have hone : done ++ (name, pairs) :: sections = done ++ [(name, pairs)] ++ sections :=
      List.append_cons done (name, pairs) sections
    rw [hone] at hdistinct ⊢
    rw [List.flatMap_cons, assemble_section hname hprintable.1, ← htables,
      ih hprintable.2 hdistinct]

/-- The tables of sections as data. -/
theorem entriesToData_tables (sections : List (String × List (String × Datum))) :
    entriesToData (tables sections) =
      sections.map fun (name, pairs) => (name, .table (present pairs)) := by
  rw [entriesToData_eq, tables, List.map_map]
  refine List.map_congr_left fun entry _ => ?_
  exact congrArg (fun pairs => (entry.1, Datum.table pairs)) (entriesToData_items _)

/-- A printed document is read back as its sections without what is absent, whatever number of line
ends follows it. -/
theorem parse?_print {entries : List (String × Datum)}
    (hprintable : ∀ entry ∈ sections entries, IsBareKey entry.1 ∧ Printable entry.2)
    (hdistinct : ((sections entries).map Prod.fst).Nodup) (count : Nat) :
    parse? (print entries ++ List.replicate count '\n') =
      some ((sections entries).map fun (name, pairs) => (name, .table (present pairs))) := by
  have hend : HasLines (List.replicate count '\n') [] := by
    induction count with
    | zero => exact hasLines_nil
    | succ count ih => exact ih.emptyLine
  have hlines := hasLines_sections hprintable hend
  have hmark : dropMark (print entries ++ List.replicate count '\n') =
      print entries ++ List.replicate count '\n' := by
    rcases hsections : sections entries with _ | ⟨⟨name, pairs⟩, _ | ⟨second, others⟩⟩
    · cases count <;> simp [print, hsections, dropMark, List.replicate_succ]
    · simp [print, hsections, dropMark, writeSection]
    · simp [print, hsections, dropMark, writeSection, List.intercalate]
  unfold parse?
  rw [hmark]
  have hread : readLines (print entries ++ List.replicate count '\n').length
      (print entries ++ List.replicate count '\n') =
        some ((sections entries).flatMap fun (name, pairs) => sectionLines name pairs) :=
    hlines _ le_rfl
  have htables : assemble [] [] ((sections entries).flatMap fun (name, pairs) =>
      sectionLines name pairs) = some (tables (sections entries)) :=
    @assemble_sections [] _ (fun entry hmem => (hprintable entry hmem).2) hdistinct []
  simp only [hread, htables, Option.bind_eq_bind, Option.bind_some, entriesToData_tables]

end Steward.Toml
