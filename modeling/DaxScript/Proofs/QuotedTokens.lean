import DaxScript.Proofs.ExactDiagnostics

/-!
# Quoting

What is put in quotes or brackets is read back as it was, and a token in quotes or brackets is
written in just this way (`quoting_roundTrips`).  So writing and reading are inverse to each other
in both directions: nothing can be written that is read as something else, and there is no second
way to write a name or a text.

The one exception is a token that is never closed.  It says what stands on its line, and no closing
character belongs to it.
-/

set_option autoImplicit false

namespace DaxScript

namespace Enclosure

/-- A text between its opening and its closing character, which is written twice inside. -/
def quote (enclosure : Enclosure) (content : String) : String :=
  String.ofList (enclosure.opener :: (enclosure.write content.toList ++ [enclosure.closer]))

/-- What messages put in front of a token in quotes or brackets. -/
def title : Enclosure → String
  | text => "string "
  | quotedName => "table name "
  | bracketName => "reference "

/-- Only a closing bracket cannot be enclosed. -/
theorem canHold_iff {enclosure : Enclosure} {content : List Char} :
    enclosure.CanHold content ↔ (enclosure = .bracketName → ']' ∉ content) := by
  cases enclosure <;> simp [CanHold, doubles, closer]

/-- A token says how its content was enclosed. -/
theorem kind_inj {enclosure other : Enclosure} {content content' : String}
    (same : enclosure.kind content = other.kind content') :
    enclosure = other ∧ content = content' := by
  cases enclosure <;> cases other <;> cases same <;> exact ⟨rfl, rfl⟩

/-- **Messages show a token in quotes or brackets as it is written.** -/
theorem describe_kind (enclosure : Enclosure) (content : String) :
    (enclosure.kind content).describe = enclosure.title ++ enclosure.quote content := by
  apply String.toList_inj.mp
  cases enclosure <;>
    simp [kind, TokenKind.describe, title, quote, write, doubles, opener, closer]

end Enclosure

/-- What is enclosed is written in quotes or brackets, and in no other way. -/
theorem TokenKind.IsWritten.quote {enclosure : Enclosure} {content : String}
    {spelling : List Char} (written : (enclosure.kind content).IsWritten spelling) :
    enclosure.CanHold content.toList ∧ String.ofList spelling = enclosure.quote content := by
  generalize same : enclosure.kind content = kind at written
  cases written with
  | @enclosed other inner possible =>
    obtain ⟨rfl, rfl⟩ := Enclosure.kind_inj same
    rw [Enclosure.quote, String.toList_ofList]
    exact ⟨possible, rfl⟩
  | _ => cases enclosure <;> cases same

namespace Piece

theorem spelling_enclosed (enclosure : Enclosure) (content : String) :
    (enclosed enclosure content).spelling = (enclosure.quote content).toList :=
  String.toList_ofList.symm

/-- What is put in quotes or brackets is a single piece. -/
theorem all_quote {enclosure : Enclosure} {content : String}
    (possible : enclosure.CanHold content.toList) :
    all (enclosure.quote content).toList = [enclosed enclosure content] := by
  have fits : (enclosed enclosure content).Fits [] :=
    fits_enclosed possible fun _ none => nomatch none
  have alone := fits.all_append
  rwa [all, List.append_nil, spelling_enclosed] at alone

/-- A piece that was read as an enclosed text is written as one, unless it is never closed. -/
theorem quote_of_first {char : Char} {later spelling : List Char} {enclosure : Enclosure}
    {content : String} {fault : Option LexicalFault}
    (read : (first char later).1 = token (enclosure.kind content) spelling fault)
    (closes : ¬(char = enclosure.opener ∧ enclosure.NeverCloses later)) :
    enclosure.CanHold content.toList ∧ String.ofList spelling = enclosure.quote content := by
  have meaning : (enclosure.kind content).isTrivia = false := by cases enclosure <;> rfl
  cases fault with
  | none => exact (isWritten_of_first read meaning).quote
  | some fault =>
    have wrong : (first char later).1.fault? = some fault := by rw [read]; rfl
    rcases fault?_cases wrong with ⟨isStray, _⟩ | ⟨other, rfl, never, _⟩
    · rw [isStray] at read
      cases read
    · rw [first_of_neverCloses other never] at read
      obtain ⟨rfl, _⟩ := Enclosure.kind_inj (token.inj read).1
      exact absurd ⟨rfl, never⟩ closes

end Piece

/-- A token of a source that is closed is written in quotes or brackets. -/
theorem quote_of_mem_tokenize {source : String} {token : Token} (member : token ∈ tokenize source)
    {enclosure : Enclosure} {content : String} (isEnclosed : token.kind = enclosure.kind content)
    (closed : ∀ later, ¬token.IsUnclosed source enclosure later) :
    enclosure.CanHold content.toList ∧ token.spelling = enclosure.quote content := by
  rw [tokenize_eq] at member
  rcases List.mem_append.mp member with own | isLast
  · obtain ⟨front, kind, spelling, fault, behind, cut, rfl, _, _⟩ := Piece.exists_of_mem_source own
    obtain ⟨char, later, split, read⟩ := Piece.first_of_cut cut
    have isFirst := congrArg Prod.fst read
    obtain rfl : kind = enclosure.kind content := isEnclosed
    refine Piece.quote_of_first isFirst ?_
    rintro ⟨rfl, never⟩
    exact closed later ⟨Piece.text front, split, by simp [Token.place, Position.start], never⟩
  · rw [List.mem_singleton.mp isLast] at isEnclosed
    cases enclosure <;> cases isEnclosed

/-- **A token that means something is written as what it says**, or it is never closed and says what
stands on its line. -/
theorem isWritten_or_unclosed {source : String} {token : Token}
    (member : token ∈ (Input.ofSource source).tokens) :
    token.kind.IsWritten token.spelling.toList ∨ ∃ (enclosure : Enclosure) (later : List Char),
      token.kind = enclosure.kind (String.ofList (Piece.splitLine later).1) ∧
        token.spelling = String.ofList (enclosure.opener :: (Piece.splitLine later).1) := by
  obtain ⟨own, meaning⟩ := List.mem_filter.mp member
  rw [tokenize_eq] at own
  rcases List.mem_append.mp own with own | isLast
  · obtain ⟨front, kind, spelling, fault, behind, cut, rfl, _, _⟩ := Piece.exists_of_mem_source own
    obtain ⟨char, later, _, read⟩ := Piece.first_of_cut cut
    have read := congrArg Prod.fst read
    cases fault with
    | none =>
      have noComment : kind.isTrivia = false := by cases kind <;> first | rfl | cases meaning
      rw [Token.place, String.toList_ofList]
      exact .inl (Piece.isWritten_of_first read noComment)
    | some fault =>
      have wrong : (Piece.first char later).1.fault? = some fault := by rw [read]; rfl
      rcases Piece.fault?_cases wrong with ⟨isStray, _⟩ | ⟨enclosure, rfl, never, _⟩
      · rw [isStray] at read
        cases read
      · rw [Piece.first_of_neverCloses enclosure never] at read
        cases read
        exact .inr ⟨enclosure, later, rfl, rfl⟩
  · rw [List.mem_singleton.mp isLast] at meaning
    cases meaning

/-- **Quoting is inverse to reading in both directions.**  Whatever is put in quotes, and whatever
without a closing bracket is put in brackets, is a single token that says it, and nothing is wrong.
Conversely every token in quotes or brackets that is closed covers what it says, quoted in this
way, and messages show just that. -/
theorem quoting_roundTrips (enclosure : Enclosure) :
    (∀ content : String, (enclosure = .bracketName → ']' ∉ content.toList) →
      let source := enclosure.quote content
      lexicalDiagnostics source = [] ∧
        tokenize source = [Token.place (enclosure.kind content) .start source.toList,
          Token.atEnd (Position.start.advanceAll source.toList)]) ∧
      ∀ source : String, ∀ token ∈ tokenize source, ∀ content : String,
        token.kind = enclosure.kind content →
        (∀ later, ¬token.IsUnclosed source enclosure later) →
          (enclosure = .bracketName → ']' ∉ content.toList) ∧
          token.span.slice? source.toList = some (enclosure.quote content).toList ∧
          token.kind.describe = enclosure.title ++ enclosure.quote content := by
  constructor
  · intro content possible source
    have single := Piece.all_quote (Enclosure.canHold_iff.mpr possible)
    constructor
    · rw [lexicalDiagnostics_eq_nil_iff, single]
      exact List.forall_mem_singleton.mpr rfl
    · rw [tokenize_eq, single, ← Piece.spelling_enclosed]
      rfl
  · intro source token member content isEnclosed closed
    obtain ⟨possible, written⟩ := quote_of_mem_tokenize member isEnclosed closed
    refine ⟨Enclosure.canHold_iff.mp possible, ?_, ?_⟩
    · rw [← written]
      exact slice?_of_mem_tokenize member
    · rw [isEnclosed]
      exact enclosure.describe_kind content

/-- A name with quotes at both ends, one inside and a line break, alone and with a column behind
it. -/
theorem quoting_roundTrips_quotes :
    let content := "'a'\n'"
    let text := "'''a''\n'''"
    let source := "'''a''\n'''[b]"
    let token := Token.place (.quotedName content) .start text.toList
    (lexicalDiagnostics text = [] ∧ tokenize text = [token, Token.atEnd ⟨10, 2, 4⟩]) ∧
      token.span.slice? source.toList = some text.toList ∧
      token.kind.describe = "table name " ++ text := by
  intro content text source token
  have written : Enclosure.quotedName.quote content = text := by decide +kernel
  have ending : Position.start.advanceAll text.toList = ⟨10, 2, 4⟩ := by decide +kernel
  obtain ⟨writes, reads⟩ := quoting_roundTrips .quotedName
  obtain ⟨sound, single⟩ := writes content fun other => nomatch other
  have member : token ∈ tokenize source := by decide +kernel
  have closed : ∀ later, ¬token.IsUnclosed source .quotedName later := by
    rintro later ⟨before, split, bytes, never⟩
    obtain rfl : before = [] :=
      Decidable.byContradiction fun some => absurd bytes (Nat.ne_of_gt (byteLength_pos some))
    obtain rfl : later = source.toList.tail := by rw [split]; rfl
    have open_ := Enclosure.close?_eq_none_iff.mpr never
    exact absurd open_ (by decide +kernel)
  obtain ⟨_, covers, shows⟩ := reads source token member content rfl closed
  rw [written] at sound single covers shows
  rw [ending] at single
  exact ⟨⟨sound, single⟩, covers, shows⟩

end DaxScript
