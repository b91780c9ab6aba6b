import DaxScript.Proofs.LosslessExpressions
import DaxScript.Proofs.WellFormedMeasures

/-!
# The names of measures

The names of a measure are decoded twice and independently.  When its tokens are cut off, the
characters between the quotes are collected one by one, two quotes being taken for one; when it is
recorded, the quotes are taken off the text under the span of the token and the doubled quotes in it
are replaced.  Both ways give the same names (`measureNames_agree`).

For a token that is never closed they would not.  But such a token is told to be wrong before the
end of its statement, so no measure is recorded that has it for a name.
-/

set_option autoImplicit false

namespace DaxScript

/-- What a token says: a name or a text without its quotes and brackets, and otherwise the token as
it is written. -/
def Token.payload (token : Token) : String :=
  match token.kind with
  | .identifier name | .quotedName name | .bracketName name => name
  | .text content | .comment content => content
  | _ => token.spelling

/-- Two tokens stand in the places of the table and the name of a measure: behind `MEASURE`, or
`CREATE MEASURE`, where the span of the measure begins. -/
def Measure.IsNamedBy (source : String) (measure : Measure) (table name : Token) : Prop :=
  ∃ before first others behind,
    (Input.ofSource source).tokens = before ++ first :: (others ++ table :: name :: behind) ∧
      first.span.start = measure.span.start ∧
      ((first :: others).map (·.kind) = [.keyword .create, .keyword .measure] ∨
        (first :: others).map (·.kind) = [.keyword .measure])

section Written

variable {token : Token} (written : token.kind.IsWritten token.spelling.toList)
include written

/-- **The table of a measure is decoded as it was cut off.** -/
theorem unquoteTableName_eq_payload (named : token.kind.namesTable = true) :
    String.ofList (Measure.unquoteTableName token.spelling.toList) = token.payload := by
  obtain ⟨kind, span, position, spelling⟩ := token
  generalize same : spelling.toList = chars at written
  obtain rfl : spelling = String.ofList chars := by rw [← same, String.ofList_toList]
  dsimp only at same named ⊢
  cases written with
  | keyword spelled => rw [unquoteTableName_of_isWord spelled, Token.payload]
  | identifier spelled => rw [unquoteTableName_of_isWord spelled, Token.payload]
  | @enclosed enclosure content =>
    cases enclosure with
    | quotedName =>
      rw [unquoteTableName_enclosed]
      rfl
    | _ => cases named
  | _ => cases named

/-- **The name of a measure is decoded as it was cut off.** -/
theorem kind_eq_bracketName (named : token.kind.namesMeasure = true) :
    token.kind = .bracketName (String.ofList (Measure.stripBrackets token.spelling.toList)) := by
  generalize token.kind = kind at written named
  generalize token.spelling.toList = chars at written
  cases written with
  | @enclosed enclosure content =>
    cases enclosure with
    | bracketName => rw [stripBrackets_enclosed, Enclosure.kind]
    | _ => cases named
  | _ => cases named

end Written

/-- Tokens that stand one behind the other are told apart by where they start. -/
theorem split_unique {before behind before' behind' : List Token} {token token' : Token}
    (ordered : (before ++ token :: behind).Pairwise fun first second =>
      first.span.start < second.span.start)
    (same : before ++ token :: behind = before' ++ token' :: behind')
    (starts : token.span.start = token'.span.start) :
    before = before' ∧ token = token' ∧ behind = behind' := by
  induction before generalizing before' with
  | nil =>
    cases before' with
    | nil => exact ⟨rfl, List.cons.inj same⟩
    | cons first before' =>
      obtain ⟨rfl, rfl⟩ := List.cons.inj same
      have earlier := (List.pairwise_cons.mp ordered).1 token' (by simp)
      omega
  | cons first before ih =>
    have earlier := (List.pairwise_cons.mp ordered).1 token (by simp)
    cases before' with
    | nil =>
      obtain ⟨rfl, rfl⟩ := List.cons.inj same
      omega
    | cons first' before' =>
      obtain ⟨rfl, rest⟩ := List.cons.inj same
      obtain ⟨rfl, rfl, rfl⟩ := ih (List.pairwise_cons.mp ordered).2 rest
      exact ⟨rfl, rfl, rfl⟩

/-- No two tokens that the grammar reads start in the same place. -/
theorem Input.pairwise_tokens (source : String) :
    (Input.ofSource source).tokens.Pairwise fun first second =>
      first.span.start < second.span.start :=
  ((pairwise_tokenize source).imp fun both => both.1).filter _

/-- **A measure has one table and one name.** -/
theorem Measure.IsNamedBy.unique {source : String} {measure : Measure}
    {table name table' name' : Token} (named : measure.IsNamedBy source table name)
    (named' : measure.IsNamedBy source table' name') : table = table' ∧ name = name' := by
  obtain ⟨before, first, others, behind, cut, starts, kinds⟩ := named
  obtain ⟨before', first', others', behind', cut', starts', kinds'⟩ := named'
  have ordered := Input.pairwise_tokens source
  rw [cut] at ordered cut'
  obtain ⟨rfl, rfl, same⟩ := split_unique ordered cut' (starts.trans starts'.symm)
  -- The first keyword tells how many there are.
  have sameLength : others.length = others'.length := by
    rcases kinds with kinds | kinds <;> rcases kinds' with kinds' | kinds'
    all_goals
      have lengths := congrArg List.length kinds
      have lengths' := congrArg List.length kinds'
      simp only [List.map_cons, List.cons.injEq, List.length_cons, List.length_map,
        List.length_nil] at kinds kinds' lengths lengths'
    · omega
    · cases kinds.1.symm.trans kinds'.1
    · cases kinds.1.symm.trans kinds'.1
    · omega
  obtain ⟨_, same⟩ := List.append_inj same sameLength
  exact ⟨(List.cons.inj same).1, (List.cons.inj (List.cons.inj same).2).1⟩

/-- The tokens of a measure that counts, and how its names are written. -/
theorem isNamedBy_of_counted {source : String} {options : ScriptOptions} {words : List Keyword}
    {clause : MeasureClause}
    (member : (words, clause) ∈
      (StatementReport.counted source options).flatMap (·.openedMeasures)) :
    (Measure.ofClause source.toList clause).IsNamedBy source clause.table clause.name ∧
      (clause.table.kind.namesTable = true ∧
        clause.table.kind.IsWritten clause.table.spelling.toList) ∧
      clause.name.kind.namesMeasure = true ∧
        clause.name.kind.IsWritten clause.name.spelling.toList := by
  obtain ⟨front, behind, cut, sound, texts⟩ := exists_front_of_counted source options
  obtain ⟨before, own, after, placed, text⟩ := texts.exists_of_mem member
  have ordered := Piece.inOrder_tokens .start front
  rw [placed] at ordered
  obtain ⟨whole, _⟩ := exists_excerpt cut sound placed (text.covers ordered.right.left)
    text.endsOperand
  obtain ⟨⟨isTable, tableNamed⟩, isName, measureNamed⟩ := text.names
  refine ⟨?_, ⟨tableNamed, whole.isWritten_of_mem isTable⟩, measureNamed,
    whole.isWritten_of_mem isName⟩
  have opened := words_of_counted member
  cases text with
  | @intro first table name equals others used body property? opens _ _ _ _ =>
    refine ⟨before, first, others, equals :: (used ++ (after ++
      Piece.tokens (Position.start.advanceAll (Piece.text front)) behind)), ?_, rfl, ?_⟩
    · rw [Input.tokens_ofSource, cut, Piece.tokens_append, placed]
      simp
    · rcases opened with rfl | rfl
      · exact .inl opens
      · exact .inr opens

/-- **Both ways of decoding the names of a measure agree.**  Every measure that is recorded is named
by two tokens, and its names are what these tokens say, although they are taken from the text under
the spans of the tokens. -/
theorem measureNames_agree (source : String) (options : ScriptOptions) :
    ∀ measure ∈ (readScript source options).measures,
      ∃ table name, measure.IsNamedBy source table name ∧
        (∀ table' name', measure.IsNamedBy source table' name' → table' = table ∧ name' = name) ∧
        measure.tableName = table.payload ∧
        name.kind = .bracketName measure.name ∧
        measure.tableName =
          String.ofList (Measure.unquoteTableName (table.span.slice source.toList)) ∧
        measure.name = String.ofList (Measure.stripBrackets (name.span.slice source.toList)) := by
  intro measure member
  rw [measures_eq_counted] at member
  obtain ⟨⟨words, clause⟩, isCounted, rfl⟩ := List.mem_map.mp member
  obtain ⟨named, ⟨tableNamed, tableWritten⟩, measureNamed, nameWritten⟩ :=
    isNamedBy_of_counted isCounted
  have slice (token : Token) (isToken : token ∈ (Input.ofSource source).tokens) :
      token.span.slice source.toList = token.spelling.toList := by
    rw [Span.slice, slice?_of_mem_tokenize (List.mem_filter.mp isToken).1]
    rfl
  have isToken : clause.table ∈ (Input.ofSource source).tokens ∧
      clause.name ∈ (Input.ofSource source).tokens := by
    obtain ⟨_, _, _, _, cut, _⟩ := named
    simp [cut]
  refine ⟨clause.table, clause.name, named, fun _ _ other => other.unique named,
    unquoteTableName_eq_payload tableWritten tableNamed,
    kind_eq_bracketName nameWritten measureNamed, ?_, ?_⟩
  · rw [slice _ isToken.1]
    rfl
  · rw [slice _ isToken.2]
    rfl

/-- A table with quotes at its start and inside, a name with quotes and a line break, and a keyword
for a table. -/
theorem measureNames_agree_quotes :
    let source := "DEFINE MEASURE '''a''''b'[c''\n] = 1 EVALUATE t; create measure Order[x] = 1"
    (readScript source {}).measures.map (fun measure => (measure.tableName, measure.name)) =
        [("'a''b", "c''\n"), ("Order", "x")] ∧
      ∀ measure ∈ (readScript source {}).measures,
        ∃ table name, measure.IsNamedBy source table name ∧
          (∀ table' name', measure.IsNamedBy source table' name' →
            table' = table ∧ name' = name) ∧
          measure.tableName = table.payload ∧
          name.kind = .bracketName measure.name ∧
          measure.tableName =
            String.ofList (Measure.unquoteTableName (table.span.slice source.toList)) ∧
          measure.name = String.ofList (Measure.stripBrackets (name.span.slice source.toList)) := by
  intro source
  have recorded : (readScript source {}).measures.map
      (fun measure => (measure.tableName, measure.name)) =
        [("'a''b", "c''\n"), ("Order", "x")] := by
    decide +kernel
  exact ⟨recorded, measureNames_agree source {}⟩

end DaxScript
