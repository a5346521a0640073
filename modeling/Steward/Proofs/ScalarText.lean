import Steward.Toml.Printer
import Steward.Toml.Value
import Steward.Proofs.DecimalText
import Steward.Proofs.QuotedText

/-!
# Values as text

A value is read back from its text up to the end of its line. Numbers begin with a minus or a digit
and end at a point or a line end, so they are taken for nothing else: no date, no time, and no
integer in another base.
-/

namespace Steward.Toml

/-! ## Digits -/

/-- Digits are read up to the first character that is neither a digit nor separates digits. -/
theorem readDigits_append {digits : List Char} (hdigits : ∀ c ∈ digits, c.isDigit = true)
    {stop : Char} (hstop : stop.isDigit = false) (hseparator : stop ≠ '_') (rest : List Char) :
    readDigits Char.isDigit (digits ++ stop :: rest) = (digits, stop :: rest) := by
  induction digits with
  | nil =>
    rw [List.nil_append]
    unfold readDigits
    split <;> simp_all
  | cons c digits ih =>
    have hnext := ih fun d hmem => hdigits d (List.mem_cons_of_mem c hmem)
    have hplain : ∀ d others, digits ++ stop :: rest ≠ '_' :: d :: others := by
      intro d others heq
      rcases digits with _ | ⟨first, digits⟩
      · exact hseparator (List.cons.inj heq).1
      · have hfirst := hdigits first (by simp)
        rw [(List.cons.inj heq).1] at hfirst
        cases hfirst
    rw [List.cons_append, readDigits]
    · simp [hdigits c List.mem_cons_self, hnext]
    · intro d others heq
      exact hplain d others heq

/-- A text is split into digits and the rest in one way. -/
theorem stop_unique {digits others : List Char} (hdigits : ∀ c ∈ digits, c.isDigit = true)
    (hothers : ∀ c ∈ others, c.isDigit = true) {stop other : Char} (hstop : stop.isDigit = false)
    (hother : other.isDigit = false) {rest left : List Char}
    (hsame : digits ++ stop :: rest = others ++ other :: left) : stop = other := by
  have hdrop := congrArg (List.dropWhile Char.isDigit) hsame
  rw [List.dropWhile_append_of_pos hdigits, List.dropWhile_append_of_pos hothers,
    List.dropWhile_cons_of_neg (by simp [hstop]), List.dropWhile_cons_of_neg (by simp [hother])]
    at hdrop
  exact (List.cons.inj hdrop).1

/-! ## Numbers -/

section Numbers

variable {whole : List Char} (hw : IsWhole whole) {stop : Char} (hstop : stop = '\n' ∨ stop = '.')
  (negative : Bool) (rest : List Char)

include hw

/-- A natural begins with a digit. -/
theorem exists_digit_cons : ∃ first others, whole = first :: others ∧ first.isDigit = true := by
  obtain ⟨first, others, rfl⟩ := List.exists_cons_of_ne_nil hw.nonempty
  exact ⟨first, others, rfl, hw.digits first List.mem_cons_self⟩

/-- The sign is read apart from the digits. -/
theorem readSign_append (tail : List Char) :
    readSign (signOf negative ++ (whole ++ tail)) = (signOf negative, whole ++ tail) := by
  cases negative with
  | true => rfl
  | false =>
    obtain ⟨first, others, rfl, hdigit⟩ := exists_digit_cons hw
    simp only [signOf, Bool.false_eq_true, if_false, List.nil_append, List.cons_append]
    unfold readSign
    split
    · next heq =>
      cases heq
      cases hdigit
    · next heq =>
      cases heq
      cases hdigit
    · rfl

include hstop

/-- The whole part is read up to its end. -/
theorem readWhole_append : readWhole (whole ++ stop :: rest) = some (whole, stop :: rest) := by
  have hdigit : stop.isDigit = false ∧ stop ≠ '_' := by
    rcases hstop with rfl | rfl <;> decide
  have hdigits := readDigits_append hw.digits hdigit.1 hdigit.2 rest
  obtain ⟨first, others, rfl, -⟩ := exists_digit_cons hw
  unfold readWhole
  split
  · next heq =>
    obtain ⟨rfl, rfl⟩ := List.cons.inj heq
    cases hw.leading rfl
    rfl
  · rw [hdigits]

/-- The digits a number begins with end at a point or a line end. -/
theorem number_end {others : List Char} (hothers : ∀ c ∈ others, c.isDigit = true)
    (hsome : others ≠ []) {other : Char} (hother : other.isDigit = false) {left : List Char}
    (hsame : signOf negative ++ (whole ++ stop :: rest) = others ++ other :: left) :
    other = '\n' ∨ other = '.' := by
  have hplain : stop.isDigit = false := by
    rcases hstop with rfl | rfl <;> decide
  cases negative with
  | true =>
    obtain ⟨first, others, rfl⟩ := List.exists_cons_of_ne_nil hsome
    have hfirst := hothers first List.mem_cons_self
    rw [← (List.cons.inj hsame).1] at hfirst
    cases hfirst
  | false => rwa [← stop_unique hw.digits hothers hplain hother hsame]

/-- A number is no date. -/
theorem skipDate?_number : skipDate? (signOf negative ++ (whole ++ stop :: rest)) = none := by
  unfold skipDate?
  split
  · next y₁ y₂ y₃ y₄ left heq =>
    refine if_neg fun hyear => ?_
    have hyear := List.all_eq_true.1 hyear
    exact absurd (number_end hw hstop negative rest hyear (by simp) rfl (heq.trans rfl)) (by decide)
  · rfl

/-- A number is no time. -/
theorem startsTime_number : startsTime (signOf negative ++ (whole ++ stop :: rest)) = false := by
  unfold startsTime
  split
  · next a b left heq =>
    refine Bool.eq_false_iff.2 fun hhour => ?_
    have hhour : ∀ c ∈ [a, b], c.isDigit = true := by simpa using hhour
    exact absurd (number_end hw hstop negative rest hhour (by simp) rfl (heq.trans rfl)) (by decide)
  · rfl

/-- A number does not begin with the mark of another base. -/
theorem number_ne_based {mark : Char} (hmark : mark = 'x' ∨ mark = 'o' ∨ mark = 'b')
    (left : List Char) : signOf negative ++ (whole ++ stop :: rest) ≠ '0' :: mark :: left := by
  intro heq
  have hzero : ∀ c ∈ ['0'], c.isDigit = true := by simp
  have hdigit : mark.isDigit = false := by
    rcases hmark with rfl | rfl | rfl <;> decide
  rcases number_end hw hstop negative rest hzero (by simp) hdigit (heq.trans rfl) with rfl | rfl <;>
    exact absurd hmark (by decide)

omit hstop in
/-- A number is no word. -/
theorem readNumberWord_number (tail : List Char) :
    readNumberWord (signOf negative ++ (whole ++ tail)) = none := by
  obtain ⟨first, others, rfl, hdigit⟩ := exists_digit_cons hw
  unfold readNumberWord
  rw [readSign_append hw]
  dsimp only
  split
  · next heq =>
    rw [(List.cons.inj heq).1] at hdigit
    cases hdigit
  · next heq =>
    rw [(List.cons.inj heq).1] at hdigit
    cases hdigit
  · rfl

/-- A number is not taken for a date, a time, an integer in another base, or a word. -/
theorem readScalar_number : readScalar (signOf negative ++ (whole ++ stop :: rest)) =
    readDecimalNumber (signOf negative ++ (whole ++ stop :: rest)) := by
  have hbased {mark : Char} (hmark : mark = 'x' ∨ mark = 'o' ∨ mark = 'b') (left : List Char) :=
    number_ne_based hw hstop negative rest hmark left
  unfold readScalar
  rw [skipDate?_number hw hstop]
  simp only [startsTime_number hw hstop, Bool.false_eq_true, if_false]
  unfold readNumber
  split
  · next heq => exact absurd heq (hbased (by simp) _)
  · next heq => exact absurd heq (hbased (by simp) _)
  · next heq => exact absurd heq (hbased (by simp) _)
  · rw [readNumberWord_number hw]
    rfl

end Numbers

/-- An integer in range is read up to the end of its line. -/
theorem readScalar_integer {value : Int} (hrange : inRange value = true) (rest : List Char) :
    readScalar (signOf (decide (value < 0)) ++ (Nat.toDigits 10 value.natAbs ++ '\n' :: rest)) =
      some (.integer value, '\n' :: rest) := by
  have hw := isWhole_toDigits value.natAbs
  have hvalue : (if signOf (decide (value < 0)) = ['-'] then
      -(digitsValue (Nat.toDigits 10 value.natAbs) : Int)
      else digitsValue (Nat.toDigits 10 value.natAbs)) = value := by
    rw [digitsValue, Nat.ofDigitChars_ten_toDigits]
    by_cases hnegative : value < 0
    · have hsign : signOf (decide (value < 0)) = ['-'] := by simp [signOf, hnegative]
      rw [if_pos hsign]
      omega
    · have hsign : signOf (decide (value < 0)) ≠ ['-'] := by simp [signOf, hnegative]
      rw [if_neg hsign]
      omega
  rw [readScalar_number hw (.inl rfl)]
  unfold readDecimalNumber
  rw [readSign_append hw]
  dsimp only
  rw [readWhole_append hw (.inl rfl)]
  simp [readFraction, readExponentPart, numberOf, hvalue, hrange]

/-- A finite number is read up to the end of its line. -/
theorem readScalar_real {x : Binary64} (hfinite : x.isFinite = true) (rest : List Char) :
    readScalar (x.chars .settings ++ '\n' :: rest) = some (.real x, '\n' :: rest) := by
  have hback := Binary64.readBinary64?_chars hfinite
  have hbounded : x ≠ .infinity false := by
    rintro rfl
    simp [Binary64.isFinite, Binary64.infinity, Binary64.ofRank] at hfinite
  obtain ⟨negative, whole, fraction, hn, hwritten, -⟩ := Binary64.chars_settings hfinite
  have hfraction : readFraction ('.' :: (fraction ++ '\n' :: rest)) =
      some ('.' :: fraction, '\n' :: rest) := by
    obtain ⟨first, others, rfl⟩ := List.exists_cons_of_ne_nil hn.fraction_nonempty
    rw [readFraction, readDigits_append hn.fraction_digits rfl (by decide)]
  rw [hwritten] at hback ⊢
  rw [List.append_assoc, List.append_assoc, List.cons_append,
    readScalar_number hn.toIsWhole (.inr rfl)]
  unfold readDecimalNumber
  rw [readSign_append hn.toIsWhole]
  dsimp only
  rw [readWhole_append hn.toIsWhole (.inr rfl)]
  simp [hfraction, readExponentPart, numberOf, hback, hbounded]

/-! ## Values -/

/-- The values that settings files can hold: words of the integer range and finite numbers. -/
def Writable : Datum → Prop
  | .integer value => inRange value = true
  | .real value => value.isFinite = true
  | .flag _ | .text _ => True
  | _ => False

/-- Such a value is written. -/
theorem isSome_writeScalar? {value : Datum} (hwritable : Writable value) :
    (writeScalar? value).isSome = true := by
  cases value with
  | flag | integer | real | text => rfl
  | null | list | table => cases hwritable

/-- A number begins with a minus or a digit. -/
theorem number_head {whole : List Char} (hw : IsWhole whole) (negative : Bool) (tail : List Char) :
    ∃ first others, signOf negative ++ (whole ++ tail) = first :: others ∧
      (first = '-' ∨ first.isDigit = true) := by
  obtain ⟨first, others, rfl, hdigit⟩ := exists_digit_cons hw
  cases negative with
  | true => exact ⟨'-', _, rfl, .inl rfl⟩
  | false => exact ⟨first, _, rfl, .inr hdigit⟩

/-- A character that a number does not begin with. -/
theorem ne_of_number_head {first c : Char} (hfirst : first = '-' ∨ first.isDigit = true)
    (hother : c ≠ '-' ∧ c.isDigit = false) : first ≠ c := by
  rintro rfl
  rcases hfirst with hminus | hdigit
  · exact hother.1 hminus
  · exact absurd hdigit (by simp [hother.2])

/-- A number is no text, truth value, array or table. -/
theorem readValue_number {whole : List Char} (hw : IsWhole whole) (depth : Nat) (negative : Bool)
    (tail : List Char) :
    readValue depth (signOf negative ++ (whole ++ tail)) =
      readScalar (signOf negative ++ (whole ++ tail)) := by
  obtain ⟨first, others, hcons, hfirst⟩ := number_head hw negative tail
  rw [hcons]
  unfold readValue
  split <;>
    first
    | rfl
    | exact absurd (List.cons.inj ‹_›).1 (ne_of_number_head hfirst (by decide))

/-- Text begins with a quote. -/
theorem writeText_head (text : List Char) :
    ∃ others, writeText text = '"' :: others ∨ writeText text = '\'' :: others := by
  unfold writeText writeTextIn
  cases quotesFor text with
  | basic => exact ⟨_, .inl rfl⟩
  | literal => exact ⟨_, .inr rfl⟩
  | longBasic => exact ⟨_, .inl rfl⟩
  | longLiteral => exact ⟨_, .inr rfl⟩

/-- A text is read back up to the end of its line. -/
theorem readValue_text (text : String) (depth : Nat) (rest : List Char) :
    readValue depth (writeText text.toList ++ '\n' :: rest) = some (.text text, '\n' :: rest) := by
  have hread := readText_writeText text.toList rest
  obtain ⟨others, hquote | hquote⟩ := writeText_head text.toList
  all_goals
    rw [hquote, List.cons_append] at hread ⊢
    simp [readValue, hread]

/-- A value is read back up to the end of its line. -/
theorem readValue_writeScalar? {value : Datum} {written : List Char} (hwritable : Writable value)
    (hwritten : writeScalar? value = some written) (depth : Nat) (rest : List Char) :
    readValue depth (written ++ '\n' :: rest) = some (value, '\n' :: rest) := by
  cases value with
  | flag value =>
    cases hwritten
    cases value <;> simp [readValue]
  | integer value =>
    cases hwritten
    have hread := readScalar_integer hwritable rest
    rw [← readValue_number (isWhole_toDigits value.natAbs) depth] at hread
    simpa [signOf] using hread
  | real value =>
    cases hwritten
    obtain ⟨negative, whole, fraction, hn, hchars, -⟩ := Binary64.chars_settings hwritable
    rw [← readScalar_real hwritable rest, hchars, List.append_assoc, List.append_assoc,
      readValue_number hn.toIsWhole]
  | text value =>
    cases hwritten
    exact readValue_text value depth rest
  | null | list | table => cases hwritable

/-- A written value does not begin with a blank. -/
theorem skipBlanks_written {value : Datum} {written : List Char} (hwritable : Writable value)
    (hwritten : writeScalar? value = some written) (rest : List Char) :
    skipBlanks (written ++ rest) = written ++ rest := by
  have hnumber {first : Char} (hfirst : first = '-' ∨ first.isDigit = true) :
      isBlank first = false := by
    simp [isBlank, ne_of_number_head (c := ' ') hfirst (by decide),
      ne_of_number_head (c := '\t') hfirst (by decide)]
  obtain ⟨first, others, rfl, hplain⟩ : ∃ first others, written = first :: others ∧
      isBlank first = false := by
    cases value with
    | flag value =>
      cases hwritten
      cases value <;> exact ⟨_, _, rfl, rfl⟩
    | integer value =>
      cases hwritten
      obtain ⟨first, others, hcons, hfirst⟩ :=
        number_head (isWhole_toDigits value.natAbs) (decide (value < 0)) []
      exact ⟨first, others, by simpa [signOf] using hcons, hnumber hfirst⟩
    | real value =>
      cases hwritten
      obtain ⟨negative, whole, fraction, hn, hchars, -⟩ := Binary64.chars_settings hwritable
      obtain ⟨first, others, hcons, hfirst⟩ := number_head hn.toIsWhole negative ('.' :: fraction)
      exact ⟨first, others, hchars.trans hcons, hnumber hfirst⟩
    | text value =>
      cases hwritten
      obtain ⟨others, hquote | hquote⟩ := writeText_head value.toList
      · exact ⟨_, _, hquote, rfl⟩
      · exact ⟨_, _, hquote, rfl⟩
    | null | list | table => cases hwritable
  exact List.dropWhile_cons_of_neg (by simp [hplain])

end Steward.Toml
