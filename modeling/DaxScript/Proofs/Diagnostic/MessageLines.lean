import DaxScript.Proofs.QuotedTokens

/-!
# Messages over several lines

Lines put under each other are split again into what each of them is split into
(`textLines_intercalate`), so a report has one line for a message unless the message goes on in
another line.

Numbers, signs and words are on one line, and so is the character that a message about the text
shows, which is escaped.  A token is shown on several lines exactly if it is written on several
lines, and then a line break stands in its quotes or brackets (`breaksLine_of_mem_tokenize`).
-/

set_option autoImplicit false

namespace DaxScript

/-- Whether a text goes on in another line. -/
def breaksLine (text : String) : Bool :=
  '\n' ∈ text.toList

theorem breaksLine_eq_false_iff {text : String} : breaksLine text = false ↔ '\n' ∉ text.toList := by
  simp [breaksLine]

@[simp] theorem breaksLine_append (first second : String) :
    breaksLine (first ++ second) = (breaksLine first || breaksLine second) := by
  simp [breaksLine]

theorem breaksLine_ofList (chars : List Char) :
    breaksLine (String.ofList chars) = decide ('\n' ∈ chars) := by
  simp [breaksLine]

/-! ## Lines -/

/-- The lines of a text. -/
def textLines (text : String) : List String :=
  (text.toList.splitOn '\n').map String.ofList

/-- A text that goes on in no other line is a single line. -/
theorem textLines_of_single {text : String} (single : breaksLine text = false) :
    textLines text = [text] := by
  rw [textLines, List.splitOn_eq_singleton (breaksLine_eq_false_iff.mp single), List.map_singleton,
    String.ofList_toList]

/-- No line goes on in another line. -/
theorem breaksLine_of_mem_textLines {text line : String} (member : line ∈ textLines text) :
    breaksLine line = false := by
  obtain ⟨chars, isLine, rfl⟩ := List.mem_map.mp member
  rw [breaksLine_ofList, decide_eq_false_iff_not]
  clear member
  generalize text.toList = whole at isLine
  induction whole generalizing chars with
  | nil =>
    rw [List.splitOn_nil, List.mem_singleton] at isLine
    simp [isLine]
  | cons char later ih =>
    rw [List.splitOn_cons_eq_if_modifyHead] at isLine
    split at isLine
    · rcases List.mem_cons.mp isLine with rfl | inLater
      · exact List.not_mem_nil
      · exact ih _ inLater
    · next other =>
      obtain ⟨line, lines, split⟩ := List.exists_cons_of_ne_nil (List.splitOn_ne_nil '\n' later)
      rw [split, List.modifyHead_cons] at isLine
      rw [split] at ih
      rcases List.mem_cons.mp isLine with rfl | inLater
      · have notFirst : '\n' ≠ char := fun same => other (beq_iff_eq.mpr same.symm)
        exact List.not_mem_cons_of_ne_of_not_mem notFirst (ih line (.head _))
      · exact ih _ (.tail _ inLater)

theorem textLines_eq_singleton_iff {text : String} :
    textLines text = [text] ↔ breaksLine text = false := by
  refine ⟨fun single => ?_, textLines_of_single⟩
  have member : text ∈ textLines text := single ▸ .head _
  exact breaksLine_of_mem_textLines member

/-- **Lines put under each other are split into what each of them is split into.** -/
theorem textLines_intercalate {lines : List String} (some : lines ≠ []) :
    textLines ("\n".intercalate lines) = lines.flatMap textLines := by
  induction lines with
  | nil => exact absurd rfl some
  | cons first later ih =>
    cases later with
    | nil => rw [String.intercalate_singleton, List.flatMap_singleton]
    | cons second later =>
      have split : ("\n".intercalate (first :: second :: later)).toList =
          first.toList ++ '\n' :: ("\n".intercalate (second :: later)).toList := by
        rw [String.intercalate_cons_cons, String.toList_append, String.toList_append]
        simp
      rw [textLines, split, List.splitOn_append_cons_self, List.map_append, List.flatMap_cons,
        ← ih (List.cons_ne_nil _ _)]
      rfl

/-! ## Numbers -/

theorem newline_ne_digitChar (digit : Nat) : '\n' ≠ Nat.digitChar digit := by
  rcases Nat.lt_or_ge digit 16 with small | large
  · revert digit
    decide
  · rw [Nat.digitChar_eq_star.mpr large]
    decide

theorem newline_not_mem_toDigits {base : Nat} (two : 1 < base) (number : Nat) :
    '\n' ∉ Nat.toDigits base number := by
  induction number using Nat.strongRecOn with
  | ind number ih =>
    rw [Nat.toDigits_eq_if two]
    split
    · simp [newline_ne_digitChar]
    · have smaller : number / base < number := Nat.div_lt_self (by omega) two
      simp [newline_ne_digitChar, ih _ smaller]

theorem breaksLine_toString (number : Nat) : breaksLine (toString number) = false := by
  rw [breaksLine_eq_false_iff]
  simpa [toString] using newline_not_mem_toDigits (by decide) number

theorem breaksLine_renderDecimal (decimal : Decimal) : breaksLine decimal.render = false := by
  unfold Decimal.render
  simp only
  split
  · exact breaksLine_toString _
  · have point : breaksLine "." = false := by decide
    rw [breaksLine_append, breaksLine_append, breaksLine_toString, point, breaksLine_ofList]
    simp only [Bool.false_or, decide_eq_false_iff_not, List.mem_reverse]
    intro member
    have member := (List.dropWhile_suffix _).subset member
    simp only [List.mem_reverse, List.mem_append, List.mem_replicate] at member
    rcases member with ⟨_, zero⟩ | digit
    · exact absurd zero (by decide)
    · exact newline_not_mem_toDigits (by decide) _ digit

theorem breaksLine_renderNumber (value : Binary64) : breaksLine value.render = false := by
  cases value with
  | finite => exact breaksLine_renderDecimal _
  | infinite => decide

theorem breaksLine_renderPosition (position : Position) :
    breaksLine position.render = false := by
  have colon : breaksLine ":" = false := by decide
  rw [Position.render, breaksLine_append, breaksLine_append, breaksLine_toString,
    breaksLine_toString, colon]
  rfl

/-! ## Single characters -/

namespace CharLiteral

/-- **A character is shown on one line**, line breaks included. -/
theorem breaksLine_render (char : Char) : breaksLine (render char) = false := by
  have body : '\n' ∉ body char := by
    unfold body
    split
    · decide
    split
    · decide
    split
    · decide
    split
    · decide
    next notBreak =>
    have notBreak : '\n' ≠ char := fun same => notBreak same.symm
    split
    · simp [notBreak]
    split
    · simp [codeEscape, newline_not_mem_toDigits]
    · simp [notBreak]
  rw [render, breaksLine_ofList]
  simp [body]

end CharLiteral

/-! ## Tokens -/

namespace Enclosure

theorem newline_mem_write {enclosure : Enclosure} {content : List Char} :
    '\n' ∈ enclosure.write content ↔ '\n' ∈ content := by
  induction content with
  | nil => cases enclosure <;> exact Iff.rfl
  | cons char content ih =>
    rw [write_cons]
    split <;> simp [ih]

theorem breaksLine_quote (enclosure : Enclosure) (content : String) :
    breaksLine (enclosure.quote content) = breaksLine content := by
  have ends : '\n' ≠ enclosure.opener ∧ '\n' ≠ enclosure.closer := by
    cases enclosure <;> decide
  simp [quote, breaksLine, newline_mem_write, ends]

end Enclosure

namespace TokenKind

/-- Whether a line break stands in the quotes or brackets of a token. -/
def holdsBreak : TokenKind → Bool
  | quotedName content | bracketName content | text content => breaksLine content
  | _ => false

theorem holdsBreak_kind (enclosure : Enclosure) (content : String) :
    (enclosure.kind content).holdsBreak = breaksLine content := by
  cases enclosure <;> rfl

theorem breaksLine_describe_kind (enclosure : Enclosure) (content : String) :
    breaksLine (enclosure.kind content).describe = breaksLine content := by
  have title : breaksLine enclosure.title = false := by cases enclosure <;> decide
  rw [enclosure.describe_kind, breaksLine_append, title, enclosure.breaksLine_quote, Bool.false_or]

theorem breaksLine_describe_identifier (name : String) :
    breaksLine (identifier name).describe = breaksLine name := by
  have noun : breaksLine "identifier '" = false := by decide
  have quote : breaksLine "'" = false := by decide
  rw [describe, breaksLine_append, breaksLine_append, noun, quote, Bool.false_or, Bool.or_false]

theorem newline_not_mem_of_isWord {spelling : List Char}
    (spelled : Piece.isWord spelling = true) : '\n' ∉ spelling := by
  intro member
  cases spelling with
  | nil => cases member
  | cons head tail =>
    obtain ⟨starts, goesOn⟩ := Bool.and_eq_true_iff.mp spelled
    rcases List.mem_cons.mp member with rfl | member
    · exact absurd starts (by decide)
    · exact absurd (List.all_eq_true.mp goesOn _ member) (by decide)

theorem newline_not_mem_of_isDigit {chars : List Char}
    (digits : ∀ char ∈ chars, char.isDigit = true) : '\n' ∉ chars :=
  fun member => absurd (digits _ member) (by decide)

theorem newline_not_mem_of_value? {spelling : List Char} {value : Binary64}
    (known : Numeral.value? spelling = some value) : '\n' ∉ spelling := by
  rcases Piece.numeral_cases known with ⟨_, digits⟩ | ⟨whole, fraction, rfl, digits, places, _⟩
  · exact newline_not_mem_of_isDigit digits
  · simp [newline_not_mem_of_isDigit digits, newline_not_mem_of_isDigit places]

/-- **What is written on several lines holds a line break**, and is shown on several lines. -/
theorem IsWritten.breaksLine {kind : TokenKind} {spelling : List Char}
    (written : kind.IsWritten spelling) :
    DaxScript.breaksLine (String.ofList spelling) = kind.holdsBreak ∧
      DaxScript.breaksLine kind.describe = kind.holdsBreak := by
  cases written with
  | @number value _ known =>
    have noun : DaxScript.breaksLine "number " = false := by decide
    rw [describe, breaksLine_append, noun, breaksLine_renderNumber, breaksLine_ofList]
    exact ⟨decide_eq_false (newline_not_mem_of_value? known), rfl⟩
  | @keyword word _ spelled =>
    rw [breaksLine_ofList]
    exact ⟨decide_eq_false (newline_not_mem_of_isWord spelled), by cases word <;> decide⟩
  | identifier spelled =>
    have single := decide_eq_false (newline_not_mem_of_isWord spelled)
    rw [breaksLine_describe_identifier, breaksLine_ofList]
    exact ⟨single, single⟩
  | @enclosed enclosure content possible =>
    have quoted := enclosure.breaksLine_quote (String.ofList content)
    rw [Enclosure.quote, String.toList_ofList] at quoted
    rw [holdsBreak_kind, breaksLine_describe_kind]
    exact ⟨quoted, rfl⟩
  | symbol sign => cases sign <;> decide

end TokenKind

theorem Piece.newline_not_mem_splitLine (chars : List Char) : '\n' ∉ (splitLine chars).1 :=
  fun member => absurd (belongs_of_mem_takeWhile (!isLineEnd ·) chars _ member) (by decide)

/-- **A token is written on several lines exactly if it holds a line break**, and exactly then it is
shown on several lines. -/
theorem breaksLine_of_mem_tokens {source : String} {token : Token}
    (member : token ∈ (Input.ofSource source).tokens) :
    breaksLine token.spelling = token.kind.holdsBreak ∧
      breaksLine token.kind.describe = token.kind.holdsBreak := by
  rcases isWritten_or_unclosed member with written | ⟨enclosure, later, isKind, spelled⟩
  · have known := written.breaksLine
    rwa [String.ofList_toList] at known
  · -- What is never closed ends with its line.
    have line : '\n' ∉ (Piece.splitLine later).1 := Piece.newline_not_mem_splitLine later
    have notOpener : '\n' ≠ enclosure.opener := by cases enclosure <;> decide
    rw [isKind, spelled, TokenKind.holdsBreak_kind, TokenKind.breaksLine_describe_kind,
      breaksLine_ofList, breaksLine_ofList]
    simp [line, notOpener]

end DaxScript
