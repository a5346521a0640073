import Steward.Toml.Quoted
import Mathlib.Order.MinMax
import Mathlib.Tactic.SplitIfs

/-!
# Text in quotes

Text of any characters is read back from the quotes it is written in. Escapes are undone one
character at a time; bare quotes in a row are too few to close the text, and those before the
closing quotes are told apart from them by their number.
-/

namespace Steward.Toml

/-! ## Characters of basic text -/

/-- The ways in which basic text holds a character: behind a backslash as a letter or a code point,
or as it is. -/
inductive Holds (long : Bool) (c : Char) : List Char → Prop where
  | letter {e : Char} (hescaped : escaped? e = some c) : Holds long c ['\\', e]
  | code {h₁ h₂ h₃ h₄ : Char} (hcode : codePoint? [h₁, h₂, h₃, h₄] = some c) :
    Holds long c ['\\', 'u', h₁, h₂, h₃, h₄]
  | plain (hquote : c ≠ '"') (hbackslash : c ≠ '\\') (hcontrol : isControl c = false) :
    Holds long c [c]
  | lineEnd (hlong : long = true) (hline : c = '\n') : Holds long c [c]

/-- Four digits name every ASCII character. -/
theorem codePoint?_fourHex : ∀ n < 128, codePoint? (fourHex n) = some (Char.ofNat n) := by
  decide

/-- Control characters are ASCII. -/
theorem isControl_lt {c : Char} (hcontrol : isControl c = true) : c.toNat < 128 := by
  simp only [isControl, Bool.or_eq_true, Bool.and_eq_true, decide_eq_true_eq] at hcontrol
  omega

/-- Every character other than a quote is written in one of the ways. -/
theorem holds_escape? {c : Char} (hquote : c ≠ '"') (long : Bool) :
    Holds long c ((escape? long c).getD [c]) := by
  unfold escape?
  split_ifs with hback htab hline hlong hfeed hreturn hslash hcontrol
  · exact .letter (by simp [escaped?, hback])
  · exact .letter (by simp [escaped?, htab])
  · exact .lineEnd hlong hline
  · exact .letter (by simp [escaped?, hline])
  · exact .letter (by simp [escaped?, hfeed])
  · exact .letter (by simp [escaped?, hreturn])
  · exact .letter (by simp [escaped?, hslash])
  · refine .code (codePoint?_fourHex _ (isControl_lt hcontrol) |>.trans ?_)
    rw [Char.ofNat_toNat]
  · exact .plain hquote hslash (by simpa using hcontrol)

/-- A letter behind a backslash is read as what it stands for. -/
theorem readBasic_escaped {e c : Char} (hescaped : escaped? e = some c) (tail : List Char) :
    readBasic ('\\' :: e :: tail) = push c (readBasic tail) := by
  unfold escaped? at hescaped
  split at hescaped <;> cases hescaped <;> simp [readBasic, escaped?, push?]

/-- A character is read back from basic text. -/
theorem Holds.readBasic_append {c : Char} {held : List Char} (hheld : Holds false c held)
    (tail : List Char) : readBasic (held ++ tail) = push c (readBasic tail) := by
  cases hheld with
  | letter hescaped => exact readBasic_escaped hescaped tail
  | code hcode => simp [readBasic, hcode, push?]
  | plain _ hbackslash hcontrol => simp [readBasic, hbackslash, hcontrol]
  | lineEnd hlong => cases hlong

/-- A letter behind a backslash does not end a line, and is read as what it stands for. -/
theorem readLongBasic_escaped {e c : Char} (hescaped : escaped? e = some c) (tail : List Char) :
    readLongBasic false ('\\' :: e :: tail) = push c (readLongBasic false tail) := by
  unfold escaped? at hescaped
  split at hescaped <;> cases hescaped <;>
    simp [readLongBasic, escaped?, push?, lineEndsHere, skipBlanks, isBlank, lineEnd?]

/-- A character is read back from basic text of several lines. -/
theorem Holds.readLongBasic_append {long : Bool} {c : Char} {held : List Char}
    (hheld : Holds long c held) (tail : List Char) :
    readLongBasic false (held ++ tail) = push c (readLongBasic false tail) := by
  cases hheld with
  | letter hescaped => exact readLongBasic_escaped hescaped tail
  | code hcode => simp [readLongBasic, hcode, push?]
  | plain hquote hbackslash hcontrol =>
    have hreturn : c ≠ '\r' := by
      rintro rfl
      cases hcontrol
    have hline : c ≠ '\n' := by
      rintro rfl
      cases hcontrol
    simp [readLongBasic, hquote, hbackslash, hcontrol, hreturn]
  | lineEnd hlong hline => simp [readLongBasic, hline]

/-! ## The inside of quotes -/

/-- A character other than a quote stands inside basic text as its escape or as it is. -/
theorem writeBasicInside_cons {c : Char} (hquote : c ≠ '"') (long : Bool) (allowed run : Nat)
    (text : List Char) :
    writeBasicInside long allowed run (c :: text) =
      (escape? long c).getD [c] ++ writeBasicInside long allowed 0 text := by
  rw [writeBasicInside, if_neg hquote]
  cases escape? long c <;> rfl

/-- Where no further quote may stand bare, the inside of basic text does not begin with one. -/
theorem head?_writeBasicInside {first : Char} {allowed run : Nat}
    (hescaped : first ≠ '"' ∨ allowed ≤ run) (long : Bool) (others tail : List Char) :
    (writeBasicInside long allowed run (first :: others) ++ tail).head? ≠ some '"' := by
  by_cases hquote : first = '"'
  · have hrun : ¬ run < allowed := Nat.not_lt.2 (hescaped.resolve_left (not_not_intro hquote))
    simp [writeBasicInside, hquote, hrun]
  · rw [writeBasicInside_cons hquote]
    have hheld := holds_escape? hquote long
    generalize (escape? long first).getD [first] = held at hheld
    cases hheld <;> simp [hquote]

/-- Basic text is read back up to its closing quote. -/
theorem readBasic_writeBasicInside (text rest : List Char) (run : Nat) :
    readBasic (writeBasicInside false 0 run text ++ '"' :: rest) = some (text, rest) := by
  induction text generalizing run with
  | nil => simp [writeBasicInside, readBasic]
  | cons c text ih =>
    by_cases hquote : c = '"'
    · have hescaped : escaped? '"' = some '"' := rfl
      rw [writeBasicInside, if_pos hquote, if_neg (Nat.not_lt_zero run)]
      simp only [List.cons_append, readBasic_escaped hescaped, ih]
      rw [hquote]
      rfl
    · rw [writeBasicInside_cons hquote, List.append_assoc,
        (holds_escape? hquote false).readBasic_append, ih]
      rfl

/-- A quote that is not the first of three stands for itself. -/
theorem readLongBasic_quote {body : List Char} (hbody : ∀ tail, body ≠ '"' :: '"' :: tail) :
    readLongBasic false ('"' :: body) = push '"' (readLongBasic false body) := by
  rw [readLongBasic]
  · rfl
  all_goals grind

/-- A bare quote is read back with the text after it: at most one more quote may follow bare, unless
the closing quotes do. -/
theorem readLongBasic_bareQuote {text rest : List Char} {run : Nat} (hbare : run < 2)
    (htext : ∀ run, readLongBasic false
      (writeBasicInside true 2 run text ++ '"' :: '"' :: '"' :: '\n' :: rest) =
        some (text, '\n' :: rest)) :
    readLongBasic false
      ('"' :: (writeBasicInside true 2 (run + 1) text ++ '"' :: '"' :: '"' :: '\n' :: rest)) =
        some ('"' :: text, '\n' :: rest) := by
  rcases text with _ | ⟨first, others⟩
  · simp [writeBasicInside, readLongBasic]
  · by_cases hnext : first ≠ '"' ∨ 2 ≤ run + 1
    · rw [readLongBasic_quote, htext]
      · rfl
      · intro tail heq
        exact head?_writeBasicInside hnext true others _ (by rw [heq]; rfl)
    · obtain ⟨rfl, hrun⟩ : first = '"' ∧ run = 0 := by
        rw [not_or, not_not] at hnext
        exact ⟨hnext.1, by omega⟩
      rcases others with _ | ⟨second, others⟩
      · simp [hrun, writeBasicInside, readLongBasic]
      · rw [readLongBasic_quote, htext]
        · rfl
        · intro tail heq
          rw [hrun, writeBasicInside, if_pos rfl, if_pos (by decide), List.cons_append,
            List.cons.injEq] at heq
          exact head?_writeBasicInside (.inr le_rfl) true others _ (by rw [heq.2]; rfl)

/-- Basic text of several lines is read back up to its closing quotes. -/
theorem readLongBasic_writeBasicInside (text rest : List Char) (run : Nat) :
    readLongBasic false (writeBasicInside true 2 run text ++ '"' :: '"' :: '"' :: '\n' :: rest) =
      some (text, '\n' :: rest) := by
  induction text generalizing run with
  | nil => simp [writeBasicInside, readLongBasic]
  | cons c text ih =>
    by_cases hquote : c = '"'
    · subst hquote
      by_cases hbare : run < 2
      · rw [writeBasicInside, if_pos rfl, if_pos hbare, List.cons_append,
          readLongBasic_bareQuote hbare ih]
      · have hescaped : escaped? '"' = some '"' := rfl
        rw [writeBasicInside, if_pos rfl, if_neg hbare]
        simp only [List.cons_append, readLongBasic_escaped hescaped, ih]
        rfl
    · rw [writeBasicInside_cons hquote, List.append_assoc,
        (holds_escape? hquote true).readLongBasic_append, ih]
      rfl

/-- Literal text is read back up to its closing quote. -/
theorem readLiteral_append {text : List Char}
    (hplain : ∀ c ∈ text, isControl c = false ∧ c ≠ '\'') (rest : List Char) :
    readLiteral (text ++ '\'' :: rest) = some (text, rest) := by
  induction text with
  | nil => simp [readLiteral]
  | cons c text ih =>
    obtain ⟨hcontrol, hquote⟩ := hplain c List.mem_cons_self
    simp [readLiteral, hcontrol, ih fun d hmem => hplain d (List.mem_cons_of_mem c hmem),
      push]

/-- A run is at least as long as what it starts from. -/
theorem le_longestRun (target : Char) (text : List Char) (current : Nat) :
    current ≤ longestRun target current text := by
  induction text generalizing current with
  | nil => exact le_rfl
  | cons c text ih =>
    rw [longestRun]
    split_ifs
    · exact (Nat.le_succ current).trans (ih (current + 1))
    · exact Nat.le_max_left _ _

/-- A run that starts earlier is not shorter. -/
theorem longestRun_mono (target : Char) (text : List Char) {less more : Nat} (hle : less ≤ more) :
    longestRun target less text ≤ longestRun target more text := by
  induction text generalizing less more with
  | nil => exact hle
  | cons c text ih =>
    rw [longestRun, longestRun]
    split_ifs
    · exact ih (Nat.succ_le_succ hle)
    · exact max_le_max_right _ hle

/-- Without its first character, a text has no longer runs. -/
theorem longestRun_tail (target c : Char) (text : List Char) (current : Nat) :
    longestRun target 0 text ≤ longestRun target current (c :: text) := by
  rw [longestRun]
  split_ifs
  · exact longestRun_mono target text (Nat.zero_le _)
  · exact Nat.le_max_right _ _

/-- An apostrophe that is not the first of three stands for itself. -/
theorem readLongLiteral_quote {body : List Char} (hbody : ∀ tail, body ≠ '\'' :: '\'' :: tail) :
    readLongLiteral ('\'' :: body) = push '\'' (readLongLiteral body) := by
  rw [readLongLiteral]
  · rfl
  all_goals grind

/-- Literal text of several lines is read back up to its closing quotes. -/
theorem readLongLiteral_append {text : List Char} (hrun : longestRun '\'' 0 text ≤ 2)
    (hplain : ∀ c ∈ text, isControl c = true → c = '\n') (rest : List Char) :
    readLongLiteral (text ++ '\'' :: '\'' :: '\'' :: '\n' :: rest) = some (text, '\n' :: rest) := by
  induction text with
  | nil => simp [readLongLiteral]
  | cons c text ih =>
    have hnext := ih ((longestRun_tail '\'' c text 0).trans hrun)
      fun d hmem => hplain d (List.mem_cons_of_mem c hmem)
    by_cases hquote : c = '\''
    · subst hquote
      rcases text with _ | ⟨first, others⟩
      · simp [readLongLiteral]
      · by_cases hfirst : first = '\''
        · subst hfirst
          rcases others with _ | ⟨second, others⟩
          · simp [readLongLiteral]
          · have hsecond : second ≠ '\'' := by
              rintro rfl
              exact absurd ((le_longestRun '\'' others 3).trans hrun) (by decide)
            rw [List.cons_append, readLongLiteral_quote, hnext]
            · rfl
            · intro tail heq
              exact hsecond (List.cons.inj (List.cons.inj heq).2).1
        · rw [List.cons_append, readLongLiteral_quote, hnext]
          · rfl
          · intro tail heq
            exact hfirst (List.cons.inj heq).1
    · by_cases hline : c = '\n'
      · simp [hline, readLongLiteral, hnext, push]
      · have hcontrol : isControl c = false :=
          Bool.eq_false_iff.2 fun hcontrol => hline (hplain c List.mem_cons_self hcontrol)
        have hreturn : c ≠ '\r' := by
          rintro rfl
          cases hcontrol
        simp [readLongLiteral, hquote, hreturn, hcontrol, hnext, push]

/-! ## Text in quotes -/

/-- What does not begin with a line end stays as it is. -/
theorem dropFirstLineEnd_eq {cs : List Char} (hline : cs.head? ≠ some '\n')
    (hreturn : cs.head? ≠ some '\r') : dropFirstLineEnd cs = cs := by
  unfold dropFirstLineEnd lineEnd?
  split
  · exact absurd rfl hline
  · exact absurd rfl hreturn
  · rfl

/-- Two quotes are not taken for the first of three. -/
theorem readText_basic {body : List Char} (hbody : ∀ tail, body ≠ '"' :: '"' :: tail) :
    readText ('"' :: body) = readBasic body := by
  rw [readText]
  grind

/-- Two apostrophes are not taken for the first of three. -/
theorem readText_literal {body : List Char} (hbody : ∀ tail, body ≠ '\'' :: '\'' :: tail) :
    readText ('\'' :: body) = readLiteral body := by
  rw [readText]
  grind

/-- Quotes fit a text if no character of it is taken for their end or refused. -/
def Quotes.Fit (text : List Char) : Quotes → Prop
  | .basic => True
  | .literal => ∀ c ∈ text, isControl c = false ∧ c ≠ '\''
  | .longBasic => True
  | .longLiteral => longestRun '\'' 0 text ≤ 2 ∧ ∀ c ∈ text, isControl c = true → c = '\n'

/-- The opening of long quotes is taken off again. -/
theorem dropFirstLineEnd_opening {text inside : List Char}
    (hline : '\n' ∉ text → inside.head? ≠ some '\n')
    (hreturn : inside.head? ≠ some '\r') :
    dropFirstLineEnd ((if text.contains '\n' then ['\n'] else []) ++ inside) = inside := by
  split_ifs with hlines
  · rfl
  · exact dropFirstLineEnd_eq (hline (by simpa using hlines)) hreturn

/-- Without any run, the character does not occur. -/
theorem ne_of_longestRun_eq_zero {target : Char} {text : List Char}
    (hnone : longestRun target 0 text = 0) : ∀ c ∈ text, c ≠ target := by
  induction text with
  | nil => simp
  | cons first text ih =>
    rw [longestRun] at hnone
    split_ifs at hnone with hfirst
    · have hstart := le_longestRun target text (0 + 1)
      omega
    · exact List.forall_mem_cons.2 ⟨hfirst, ih (by omega)⟩

/-- The quotes that are chosen fit the text. -/
theorem quotesFor_fit (text : List Char) : (quotesFor text).Fit text := by
  have hcontrols (hnone : (text.any fun c => isControl c && c ≠ '\n') = false) :
      ∀ c ∈ text, isControl c = true → c = '\n' := by
    simpa using hnone
  unfold quotesFor
  dsimp only
  split_ifs with hbasic hliteral hlongBasic hlongLiteral hlines
  · trivial
  · simp only [Bool.and_eq_true, Bool.not_eq_true', decide_eq_true_eq] at hliteral
    obtain ⟨⟨hlines, hnone⟩, hrun⟩ := hliteral
    refine fun c hmem => ⟨Bool.eq_false_iff.2 fun hcontrol => ?_,
      ne_of_longestRun_eq_zero hrun c hmem⟩
    obtain rfl := hcontrols hnone c hmem hcontrol
    exact Bool.eq_false_iff.1 hlines (List.contains_iff_mem.2 hmem)
  · trivial
  · simp only [Bool.and_eq_true, Bool.not_eq_true', decide_eq_true_eq] at hlongLiteral
    exact ⟨hlongLiteral.2, hcontrols hlongLiteral.1⟩
  · trivial
  · trivial

/-- The inside of basic text begins with a line end only if the text has lines. -/
theorem head?_writeBasicInside_line (text tail : List Char) (run : Nat) :
    (writeBasicInside true 2 run text ++ '"' :: tail).head? ≠ some '\r' ∧
      ('\n' ∉ text → (writeBasicInside true 2 run text ++ '"' :: tail).head? ≠ some '\n') := by
  rcases text with _ | ⟨first, others⟩
  · simp [writeBasicInside]
  · by_cases hquote : first = '"'
    · subst hquote
      rw [writeBasicInside, if_pos rfl]
      split_ifs <;> simp
    · rw [writeBasicInside_cons hquote]
      have hheld := holds_escape? hquote true
      generalize (escape? true first).getD [first] = held at hheld
      cases hheld with
      | letter | code => simp
      | plain _ _ hcontrol =>
        constructor
        · rintro ⟨⟩
          cases hcontrol
        · rintro - ⟨⟩
          cases hcontrol
      | lineEnd _ hline => simp [hline]

/-- Text is read back from quotes that fit it. -/
theorem readText_writeTextIn {quotes : Quotes} {text : List Char} (hfit : quotes.Fit text)
    (rest : List Char) :
    readText (writeTextIn quotes text ++ '\n' :: rest) = some (text, '\n' :: rest) := by
  cases quotes with
  | basic =>
    simp only [writeTextIn, List.cons_append, List.append_assoc, List.nil_append]
    rw [readText_basic, readBasic_writeBasicInside]
    intro tail heq
    rcases text with _ | ⟨first, others⟩
    · cases heq
    · exact head?_writeBasicInside (.inr le_rfl) false others _ (by rw [heq]; rfl)
  | literal =>
    simp only [writeTextIn, List.cons_append, List.append_assoc, List.nil_append]
    rw [readText_literal, readLiteral_append hfit]
    intro tail heq
    rcases text with _ | ⟨first, others⟩
    · cases heq
    · exact (hfit first List.mem_cons_self).2 (List.cons.inj heq).1
  | longBasic =>
    simp only [writeTextIn, List.cons_append, List.append_assoc, List.nil_append, readText]
    obtain ⟨hreturn, hline⟩ := head?_writeBasicInside_line text ('"' :: '"' :: '\n' :: rest) 0
    rw [dropFirstLineEnd_opening hline hreturn, readLongBasic_writeBasicInside]
  | longLiteral =>
    simp only [writeTextIn, List.cons_append, List.append_assoc, List.nil_append, readText]
    have hhead : (text ++ '\'' :: '\'' :: '\'' :: '\n' :: rest).head? ≠ some '\r' ∧
        ('\n' ∉ text → (text ++ '\'' :: '\'' :: '\'' :: '\n' :: rest).head? ≠ some '\n') := by
      rcases text with _ | ⟨first, others⟩
      · simp
      · constructor
        · rintro ⟨⟩
          cases hfit.2 '\r' List.mem_cons_self rfl
        · rintro hline ⟨⟩
          exact hline List.mem_cons_self
    rw [dropFirstLineEnd_opening hhead.2 hhead.1, readLongLiteral_append hfit.1 hfit.2]

/-- Text is read back from its quotes. -/
theorem readText_writeText (text rest : List Char) :
    readText (writeText text ++ '\n' :: rest) = some (text, '\n' :: rest) :=
  readText_writeTextIn (quotesFor_fit text) rest

end Steward.Toml
