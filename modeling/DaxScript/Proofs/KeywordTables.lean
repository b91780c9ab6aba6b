import DaxScript.Proofs.Grammar.TableNames
import DaxScript.Proofs.LayoutIndependence
import DaxScript.Proofs.Script.MeasureTables
import DaxScript.Proofs.Token.Respelling

/-!
# Keywords for the names of tables

A keyword may be written for the unquoted name of a table wherever a table can stand
(`keywords_nameTables`), although keywords are also operators, values and names of functions, and
tell where bindings end.  An operand that begins with a keyword in front of a name in brackets is a
column, whatever else the keyword may begin, and where an operator or a mark is looked for an
accepted expression has no name.

**Columns.**  An accepted expression is accepted again, and it is the same up to spans, but for the
table of the column (`readExpression_reworded`).  `NOT` is an operator even in front of a column, so
it is left out.  The rules are described once for both texts (`Rule.ExpressionOfLevel.rewords`), and
of two nodes over the table one lies in the other (`Expr.Subtree.comparable`), so no other column is
over it.

**Measures.**  Any keyword will do, and the measures and diagnostics of a script are recorded as
before, but for the table and the text of the measure and for the places behind the table
(`readScript_reworded`).
-/

set_option autoImplicit false

namespace DaxScript

open Production

/-! ## One column over an offset -/

namespace Expr

variable {tokens : List Token} {tree : Expr}

/-- One of two expressions ends before the other begins. -/
def Apart (first second : Expr) : Prop :=
  first.span.stop ≤ second.span.start ∨ second.span.stop ≤ first.span.start

instance : Std.Symm Apart := ⟨fun _ _ => Or.symm⟩

/-- A subtree lies within the tree when children lie within their nodes. -/
theorem Subtree.within (inPlace : ∀ node : Expr, node.Subtree tree → node.ChildrenInPlace tokens)
    {node : Expr} (inside : node.Subtree tree) :
    tree.span.start ≤ node.span.start ∧ node.span.stop ≤ tree.span.stop := by
  induction inside with
  | self => exact ⟨Nat.le_refl _, Nat.le_refl _⟩
  | @under child expr member inside ih =>
    have below := ih fun node isBelow => inPlace node (.under member isBelow)
    have around := (inPlace expr .self).inside child member
    omega

/-- **Of two subtrees over an offset one lies in the other.** -/
theorem Subtree.comparable
    (inPlace : ∀ node : Expr, node.Subtree tree → node.ChildrenInPlace tokens) {first second : Expr}
    {offset : Nat} (inFirst : first.Subtree tree) (inSecond : second.Subtree tree)
    (overFirst : first.IsOver offset) (overSecond : second.IsOver offset) :
    first.Subtree second ∨ second.Subtree first := by
  induction inFirst with
  | self => exact .inr inSecond
  | @under child expr member inside ih =>
    cases inSecond with
    | self => exact .inl (.under member inside)
    | @under child' _ member' inside' =>
      have below {child : Expr} (member : child ∈ expr.children) :
          ∀ node : Expr, node.Subtree child → node.ChildrenInPlace tokens :=
        fun node isBelow => inPlace node (.under member isBelow)
      by_cases same : child = child'
      · subst same
        exact ih (below member) inside'
      · -- Children that are not the same lie apart.
        have apart : expr.children.Pairwise Apart := (inPlace expr .self).apart.imp .inl
        have apart := apart.forall member member' same
        have around := inside.within (below member)
        have around' := inside'.within (below member')
        obtain ⟨starts, stops⟩ := overFirst
        obtain ⟨starts', stops'⟩ := overSecond
        rcases apart with before | behind
        · omega
        · omega

end Expr

/-! ## The table of a column -/

/-- A token within a span over some tokens is one of them. -/
theorem Span.Covers.mem_of_within {span : Span} {before own after : List Token}
    (covered : span.Covers own) (ordered : InOrder (before ++ (own ++ after))) {token : Token}
    (member : token ∈ before ++ (own ++ after)) (solid : token.span.start < token.span.stop)
    (starts : span.start ≤ token.span.start) (stops : token.span.stop ≤ span.stop) :
    token ∈ own := by
  obtain ⟨first, last, head, tail, rfl⟩ := covered
  have isFirst : first ∈ own := List.mem_of_mem_head? head
  have isLast : last ∈ own := List.mem_of_getLast? tail
  dsimp only at starts stops
  rcases List.mem_append.mp member with inFront | inside
  · have before := ordered.stop_le inFront (List.mem_append_left _ isFirst)
    omega
  · rcases List.mem_append.mp inside with isOwn | isLater
    · exact isOwn
    · have behind := ordered.right.stop_le isLast isLater
      omega

namespace Rewording

variable {rewording : Rewording} {used before own after opening closing : List Token}
  {first second : Token}

section Column

variable {name : String} (isColumn : Rule.IsColumn own name opening first second closing)
  (inside : rewording.table ∈ own)
include isColumn inside

/-- The only name in a column is that of its table. -/
theorem table_eq_first : rewording.table = first := by
  obtain ⟨rfl, _, named, signs⟩ := isColumn
  have noName {token : Token} (member : token ∈ opening ++ closing) : rewording.table ≠ token :=
    rewording.table_ne (signs token member)
  rcases List.mem_append.mp inside with inFront | inside
  · exact absurd rfl (noName (List.mem_append_left _ inFront))
  rcases List.mem_cons.mp inside with isFirst | inside
  · exact isFirst
  rcases List.mem_cons.mp inside with isSecond | behind
  · refine absurd isSecond (rewording.table_ne ?_)
    cases kind : second.kind <;> rw [kind] at named <;> first | rfl | cases named
  · exact absurd rfl (noName (List.mem_append_right _ behind))

theorem name_eq : rewording.name = name := by
  have named := isColumn.tableNamed
  rw [← table_eq_first isColumn inside, Token.tableName?, rewording.isName] at named
  exact Option.some.inj named

/-- The name of a column stands behind that of its table. -/
theorem fits_of_isColumn (ordered : InOrder used)
    (apart : used.Pairwise fun first second => first.span.start < second.span.start)
    (cut : used = before ++ (own ++ after)) (next : TokenKind) : rewording.Fits used next := by
  have isFirst := table_eq_first isColumn inside
  refine ⟨ordered, .inl ?_, fun front behind split => ?_⟩
  · rw [cut]
    exact List.mem_append_right _ (List.mem_append_left _ inside)
  · have cut : used = (before ++ opening) ++ first :: (second :: (closing ++ after)) := by
      rw [cut, isColumn.cut]
      simp
    rw [cut] at apart split
    obtain ⟨_, _, rfl⟩ := split_unique apart split (by rw [isFirst])
    exact isColumn.named

end Column

end Rewording

/-! ## Expressions -/

/-- Tokens that are the same up to places make up the same expression up to spans. -/
theorem expressionOfTokens_of_places {first second : List Token} {expr : Expr}
    (same : first.map Relocation.nowhere.token = second.map Relocation.nowhere.token)
    (read : expressionOfTokens second = .ok expr) :
    ∃ other, expressionOfTokens first = .ok other ∧ other.bare = expr.bare := by
  have outcomes := congrArg expressionOfTokens same
  rw [Relocation.expressionOfTokens_map, Relocation.expressionOfTokens_map, read] at outcomes
  cases outcome : expressionOfTokens first with
  | error refusal =>
    rw [outcome] at outcomes
    cases outcomes
  | ok other =>
    rw [outcome] at outcomes
    have bare := Except.ok.inj outcomes
    rw [Relocation.expr_nowhere, Relocation.expr_nowhere] at bare
    exact ⟨other, rfl, bare⟩

/-- An equals sign in front stays in front. -/
theorem Rewording.withoutEquals_map (rewording : Rewording) (tokens : List Token) :
    withoutEquals (tokens.map rewording.token) = (withoutEquals tokens).map rewording.token := by
  cases tokens with
  | nil => rfl
  | cons first rest =>
    by_cases equals : first.kind = .symbol .equal
    · simp [withoutEquals, rewording.token_symbol equals, equals]
    · have noEquals : (rewording.token first).kind ≠ .symbol .equal := by
        unfold Rewording.token
        split
        · exact TokenKind.noConfusion
        · exact equals
      simp [withoutEquals, noEquals, equals]

/-- Only the table is written in another way. -/
theorem Rewording.map_token (rewording : Rewording) {before after : List Token}
    (apart : (before ++ rewording.table :: after).Pairwise fun first second =>
      first.span.start < second.span.start) :
    (before ++ rewording.table :: after).map rewording.token = before ++
      { rewording.table with kind := .keyword rewording.keyword, spelling := rewording.word } ::
        after := by
  obtain ⟨_, behind, inFront⟩ := List.pairwise_append.mp apart
  have others {tokens : List Token} (different : ∀ token ∈ tokens, token ≠ rewording.table) :
      tokens.map rewording.token = tokens :=
    (List.map_congr_left fun token member => if_neg (different token member)).trans
      (List.map_id tokens)
  rw [List.map_append, List.map_cons, others, others, Rewording.token, if_pos rfl]
  · rintro token member rfl
    exact Nat.lt_irrefl _ ((List.pairwise_cons.mp behind).1 _ member)
  · rintro token member rfl
    exact Nat.lt_irrefl _ (inFront _ member _ (.head _))

section Accepted

variable {source : String} {tree : Expr} (accepted : readExpression source = .ok tree)
include accepted

theorem expressionOfLevel_of_accepted :
    Rule.ExpressionOfLevel 0 (withoutEquals (Input.ofSource source).tokens) tree .endOfInput := by
  have read := (readExpression_ok_iff.mp accepted).1
  rw [← Input.tokens_ofSource] at read
  exact yields_expression_iff.mp (expressionOfTokens_ok_iff.mp read)

/-- Every node of an accepted expression has tokens of its own. -/
theorem exists_own_of_accepted {node : Expr} (inside : node.Subtree tree) :
    ∃ before own after, (Input.ofSource source).tokens = before ++ (own ++ after) ∧
      Rule.ExpressionOfLevel 0 own node .endOfInput := by
  obtain ⟨before, own, after, cut, reading⟩ :=
    (expressionOfLevel_of_accepted accepted).locates inside
  obtain ⟨equals, same⟩ := exists_append_withoutEquals (Input.ofSource source).tokens
  exact ⟨equals ++ before, own, after, by rw [same, cut, List.append_assoc], reading⟩

/-- Only one column reaches over an offset. -/
theorem eq_of_isOver {first second : Expr} {offset : Nat} (inFirst : first.Subtree tree)
    (inSecond : second.Subtree tree) (firstChildless : first.children = [])
    (secondChildless : second.children = []) (overFirst : first.IsOver offset)
    (overSecond : second.IsOver offset) : first = second := by
  have inPlace (node : Expr) (inside : node.Subtree tree) :
      node.ChildrenInPlace (Input.ofSource source).tokens := by
    obtain ⟨before, own, after, cut, reading⟩ := exists_own_of_accepted accepted inside
    have ordered := Input.inOrder_tokens source
    rw [cut] at ordered
    have ordered := ordered.right.left
    refine (reading.placed ordered).inPlace (reading.covers ordered) ordered (fun token isOwn => ?_)
      fun token => Input.start_lt_stop
    simp [cut, isOwn]
  rcases inFirst.comparable inPlace inSecond overFirst overSecond with inside | inside
  · exact Rule.eq_of_subtree_of_children_eq_nil secondChildless inside
  · exact (Rule.eq_of_subtree_of_children_eq_nil firstChildless inside).symm

/-- The rules read the tokens with the keyword for the table of a column. -/
theorem expressionOfTokens_reworded (rewording : Rewording) {node : Expr}
    (inside : node.Subtree tree) {table column : String}
    (isColumn : node.form = .column table column)
    (member : rewording.table ∈ (Input.ofSource source).tokens)
    (starts : node.span.start ≤ rewording.table.span.start)
    (stops : rewording.table.span.stop ≤ node.span.stop) :
    rewording.name = table ∧
      expressionOfTokens ((Input.ofSource source).tokens.map rewording.token) =
        .ok (rewording.expr tree) := by
  have whole := expressionOfLevel_of_accepted accepted
  have ordered := Input.inOrder_tokens source
  have apart := Input.pairwise_tokens source
  obtain ⟨before, own, after, cut, reading⟩ := whole.locates inside
  obtain ⟨equals, same⟩ := exists_append_withoutEquals (Input.ofSource source).tokens
  rw [same] at ordered apart
  have apart := (List.pairwise_append.mp apart).2.1
  have isOwn : rewording.table ∈ own := by
    rw [cut, ← List.append_assoc] at same
    rw [same] at member
    rw [cut, ← List.append_assoc] at ordered
    have covered := reading.covers ordered.right.left
    exact covered.mem_of_within ordered member rewording.solid starts stops
  obtain ⟨_, _, _, _, tokensOfColumn⟩ := reading.exists_isColumn isColumn
  refine ⟨Rewording.name_eq tokensOfColumn isOwn, ?_⟩
  rw [expressionOfTokens_ok_iff, Rewording.withoutEquals_map]
  refine yields_expression_iff.mpr (Rule.ExpressionOfLevel.rewords rewording 0 whole ?_)
  exact Rewording.fits_of_isColumn tokensOfColumn isOwn ordered.right apart cut .endOfInput

/-- **With a keyword for the unquoted name of a table an accepted expression is accepted again**,
and it is the same up to spans, with the keyword for the table of the column. -/
theorem readExpression_reworded {node : Expr} (inside : node.Subtree tree) {table column : String}
    (isColumn : node.form = .column table column) {token : Token} {name : String}
    (member : token ∈ (Input.ofSource source).tokens) (isName : token.kind = .identifier name)
    (starts : node.span.start ≤ token.span.start) (stops : token.span.stop ≤ node.span.stop)
    {word : String} {keyword : Keyword} (spelled : Keyword.ofWord? word = some keyword)
    (namesTable : keyword ≠ .logicalNot) :
    name = table ∧
      ∃ text same, token.span.replace? word.toList source.toList = some text ∧
        readExpression (String.ofList text) = .ok same ∧
        same.bare = (tree.withTableAt token.span.start word).bare := by
  have sound := (readExpression_ok_iff.mp accepted).2
  have apart := Input.pairwise_tokens source
  let rewording : Rewording :=
    ⟨token, name, isName, Input.start_lt_stop member, keyword, namesTable, word⟩
  obtain ⟨sameName, reworded⟩ :=
    expressionOfTokens_reworded accepted rewording inside isColumn member starts stops
  refine ⟨sameName, ?_⟩
  -- The keyword is cut off where the name was.
  obtain ⟨before, after, cut⟩ := List.append_of_mem member
  rw [Input.tokens_ofSource] at cut reworded apart
  obtain ⟨front, behind, around, _⟩ := Piece.exists_around (List.append_nil _).symm sound cut
    (by rw [isName]; rfl)
  rw [around.tokens_eq] at apart reworded
  rw [rewording.map_token apart] at reworded
  have places : (Piece.tokens .start (Piece.all (Piece.text front ++
      (word.toList ++ Piece.text behind)))).map Relocation.nowhere.token =
        (Piece.tokens .start front ++
          { token with kind := .keyword keyword, spelling := word } ::
            Piece.tokens (Position.start.advanceAll (Piece.text front ++ token.spelling.toList))
              behind).map Relocation.nowhere.token := by
    have own : Relocation.nowhere.token (Token.place (.keyword keyword)
        (Position.start.advanceAll (Piece.text front)) word.toList) =
          Relocation.nowhere.token { token with kind := .keyword keyword, spelling := word } := by
      rw [Token.place, String.ofList_toList]
      rfl
    rw [around.tokens_keyword spelled, List.map_append, List.map_append, List.map_cons,
      List.map_cons, own]
    exact congrArg (_ ++ _ :: ·) (Relocation.map_nowhere_tokens _ _ behind)
  obtain ⟨same, read, bare⟩ := expressionOfTokens_of_places places reworded
  refine ⟨_, same, around.replace? word.toList, ?_, bare⟩
  rw [readExpression_ok_iff, String.toList_ofList]
  refine ⟨read, ?_⟩
  rw [around.cut] at sound
  rw [around.all_keyword spelled]
  intro piece isPiece
  rcases List.mem_append.mp isPiece with inFront | later
  · exact around.sound piece inFront
  · rcases List.mem_cons.mp later with rfl | isBehind
    · rfl
    · exact sound piece (by simp [isBehind])

end Accepted

/-! ## The table of a measure -/

/-- The tokens of a measure that counts have pieces around its table, within its span. -/
theorem exists_around_of_counted {source : String} {options : ScriptOptions}
    {words : List Keyword} {clause : MeasureClause}
    (member : (words, clause) ∈
      (StatementReport.counted source options).flatMap (·.openedMeasures))
    (isWord : clause.table.kind.isWord = true) :
    clause.span.start ≤ clause.table.span.start ∧ clause.table.span.stop ≤ clause.span.stop ∧
      ∃ front behind, Piece.Around source.toList clause.table front behind := by
  obtain ⟨front, behind, cut, sound, texts⟩ := exists_front_of_counted source options
  obtain ⟨before, own, after, placed, text⟩ := texts.exists_of_mem member
  have ordered := Piece.inOrder_tokens .start front
  rw [placed] at ordered
  have isOwn := text.names.1.1
  obtain ⟨starts, stops⟩ :=
    (text.covers ordered.right.left).bounds ordered.right.left isOwn
  obtain ⟨_, _, rfl⟩ := List.append_of_mem isOwn
  obtain ⟨_, _, around, _⟩ := Piece.exists_around cut sound
    (placed.trans (by rw [List.append_assoc, ← List.append_assoc]; rfl)) isWord
  exact ⟨starts, stops, _, _, around⟩

/-- Each measure that counts ends before the next one begins. -/
theorem apart_of_counted (source : String) (options : ScriptOptions) :
    ((StatementReport.counted source options).flatMap (·.openedMeasures)).Pairwise
      fun first second => first.2.span.stop ≤ second.2.span.start := by
  obtain ⟨front, _, _, _, texts⟩ := exists_front_of_counted source options
  exact texts.pairwise (Piece.inOrder_tokens .start front)

/-- A measure around the table has the text under its new span, and the word for its table. -/
theorem TableChange.measure_of_wellFormed {change : TableChange} {measure : Measure}
    (starts : measure.span.start ≤ change.table.span.start)
    (stops : change.table.span.stop ≤ measure.span.stop)
    (isWord : Piece.isWord change.word.toList = true)
    (wellFormed : (change.measure measure).WellFormed (String.ofList change.moved)) :
    change.measure measure =
      { measure with
        tableName := change.word
        fullText := String.ofList ((change.relocation.span measure.span).slice change.moved)
        span := change.relocation.span measure.span } := by
  have around := measure_around starts stops
  have covered := wellFormed.covered
  rw [around, String.toList_ofList, String.toList_ofList] at covered
  -- Nothing is trimmed off the text of a measure.
  have trimmed : trim ((change.relocation.span measure.span).slice change.moved) =
      (change.relocation.span measure.span).slice change.moved :=
    (congrArg (·.getD []) covered).symm
  rw [around, trimmed, unquoteTableName_of_isWord isWord, String.ofList_toList]

/-- If the same is recorded of both texts, but for a measure around the table, then the other
measures only stand in other places. -/
theorem TableChange.measures_of_continues {change : TableChange} {source : String}
    {options : ScriptOptions} (same : change.source = source.toList)
    (continues : Relocation.Continues change.relocation change.measure []
      (readScript source options) (readScript (String.ofList change.moved) options))
    (isWord : Piece.isWord change.word.toList = true) {words : List Keyword}
    {clause : MeasureClause}
    (member : (words, clause) ∈
      (StatementReport.counted source options).flatMap (·.openedMeasures))
    {measure : Measure} (isMeasure : measure = Measure.ofClause source.toList clause)
    (starts : measure.span.start ≤ change.table.span.start)
    (stops : change.table.span.stop ≤ measure.span.stop) :
    ∃ fullText before behind,
      (change.table.span.relativeTo measure.span).replace? change.word.toList
        measure.fullText.toList = some fullText ∧
      (readScript source options).measures = before ++ measure :: behind ∧
      (readScript (String.ofList change.moved) options).measures =
        before.map change.relocation.measure ++
          { measure with
            tableName := change.word
            fullText := String.ofList fullText
            span := change.relocation.span measure.span } ::
          behind.map change.relocation.measure := by
  let record (opened : List Keyword × MeasureClause) : Measure := .ofClause source.toList opened.2
  obtain ⟨earlier, later, split⟩ := List.append_of_mem member
  have recorded : (readScript source options).measures =
      earlier.map record ++ measure :: later.map record := by
    rw [measures_eq_counted, split, List.map_append, List.map_cons, isMeasure]
  have moved := continues.measures
  rw [recorded, List.nil_append, List.map_append, List.map_cons] at moved
  have wellFormed : measure.WellFormed source :=
    wellFormed_of_mem_measures (by rw [recorded]; simp)
  have fits := wellFormed.covered
  rw [← same] at fits
  have own := measure_of_wellFormed starts stops isWord
    (wellFormed_of_mem_measures (by rw [moved]; simp))
  -- The other measures are beside it.
  have apart := apart_of_counted source options
  rw [split] at apart
  obtain ⟨_, ownApart, inFront⟩ := List.pairwise_append.mp apart
  have sameSpan : measure.span = clause.span := by
    rw [isMeasure]
    rfl
  have earlierAside : (earlier.map record).map change.measure =
      (earlier.map record).map change.relocation.measure := by
    refine map_measure (List.forall_mem_map.mpr fun opened isEarlier => .inl ?_)
    exact (inFront opened isEarlier _ (.head _)).trans (sameSpan ▸ starts)
  have laterAside : (later.map record).map change.measure =
      (later.map record).map change.relocation.measure := by
    refine map_measure (List.forall_mem_map.mpr fun opened isLater => .inr ?_)
    rw [sameSpan] at stops
    exact stops.trans ((List.pairwise_cons.mp ownApart).1 opened isLater)
  rw [earlierAside, laterAside, own] at moved
  exact ⟨_, _, _, slice_around fits starts stops, recorded, moved⟩

/-- **With a keyword for the unquoted table of a measure a script is recorded as before**, but for
the table and the text of that measure and for the places. -/
theorem readScript_reworded {source : String} {options : ScriptOptions} {measure : Measure}
    (member : measure ∈ (readScript source options).measures) {table name : Token}
    (named : measure.IsNamedBy source table name) (isWord : table.kind.isWord = true)
    {word : String} {keyword : Keyword} (spelled : Keyword.ofWord? word = some keyword) :
    let place := Relocation.respelling table.position table.spelling.toList word.toList
    ∃ text fullText before behind,
      table.span.replace? word.toList source.toList = some text ∧
      (table.span.relativeTo measure.span).replace? word.toList measure.fullText.toList =
        some fullText ∧
      (readScript source options).measures = before ++ measure :: behind ∧
      (readScript (String.ofList text) options).measures =
        before.map place.measure ++
          { measure with
            tableName := word
            fullText := String.ofList fullText
            span := place.span measure.span } :: behind.map place.measure ∧
      (readScript (String.ofList text) options).collector =
        place.collector (readScript source options).collector := by
  intro place
  rw [measures_eq_counted] at member
  obtain ⟨⟨words, clause⟩, isCounted, isMeasure⟩ := List.mem_map.mp member
  obtain ⟨rfl, _⟩ := named.unique (isMeasure ▸ (isNamedBy_of_counted isCounted).1)
  obtain ⟨starts, stops, front, behind, around⟩ := exists_around_of_counted isCounted isWord
  have continues := TableChange.continues_moved around spelled isCounted rfl
  have sameSpan : measure.span = clause.span := by
    rw [← isMeasure]
    rfl
  rw [← sameSpan] at starts stops
  have same : (TableChange.ofAround around keyword word).source = source.toList :=
    around.eq_text.symm
  obtain ⟨fullText, before, after, replaced, recorded, moved⟩ :=
    TableChange.measures_of_continues same continues (Piece.isWord_of_ofWord? spelled) isCounted
      isMeasure.symm starts stops
  exact ⟨_, fullText, before, after, around.replace? word.toList, replaced, recorded, moved,
    continues.collector⟩

/-! ## Both -/

/-- A token is the table of a column, written without quotes. -/
structure Expr.HasUnquotedTable (source : String) (node : Expr) (token : Token) : Prop where
  isColumn : ∃ table column, node.form = .column table column
  isToken : token ∈ (Input.ofSource source).tokens
  isName : ∃ name, token.kind = .identifier name
  starts : node.span.start ≤ token.span.start
  stops : token.span.stop ≤ node.span.stop

/-- **Keywords may be names of tables.**  With any keyword but `NOT`, in any letter case, for the
unquoted name of the table of a column an accepted expression is accepted again, and only the table
of that column is another one.  With any keyword for the unquoted table of a measure the measures
and diagnostics of a script are recorded as before, and only the table and the text of that measure
are other ones.  What stands behind the table has moved. -/
theorem keywords_nameTables {word : String} {keyword : Keyword}
    (spelled : Keyword.ofWord? word = some keyword) :
    (keyword ≠ .logicalNot → ∀ (source : String) (tree node : Expr) (token : Token),
      readExpression source = .ok tree → node.Subtree tree → node.HasUnquotedTable source token →
        (∃ column, node.form = .column token.payload column) ∧
        (∀ other, other.Subtree tree → (∃ table column, other.form = .column table column) →
          (other.IsOver token.span.start ↔ other = node)) ∧
        ∃ text same, token.span.replace? word.toList source.toList = some text ∧
          readExpression (String.ofList text) = .ok same ∧
          same.bare = (tree.withTableAt token.span.start word).bare) ∧
    ∀ (source : String) (options : ScriptOptions) (measure : Measure) (table name : Token),
      measure ∈ (readScript source options).measures → measure.IsNamedBy source table name →
      table.kind.isWord = true →
        let place := Relocation.respelling table.position table.spelling.toList word.toList
        ∃ text fullText before behind,
          table.span.replace? word.toList source.toList = some text ∧
          (table.span.relativeTo measure.span).replace? word.toList measure.fullText.toList =
            some fullText ∧
          (readScript source options).measures = before ++ measure :: behind ∧
          (readScript (String.ofList text) options).measures =
            before.map place.measure ++
              { measure with
                tableName := word
                fullText := String.ofList fullText
                span := place.span measure.span } :: behind.map place.measure ∧
          (readScript (String.ofList text) options).collector =
            place.collector (readScript source options).collector := by
  refine ⟨fun namesTable source tree node token accepted inside unquoted => ?_,
    fun source options measure table name member named isWord =>
      readScript_reworded member named isWord spelled⟩
  obtain ⟨⟨table, column, isColumn⟩, isToken, ⟨name, isName⟩, starts, stops⟩ := unquoted
  obtain ⟨rfl, replaced⟩ := readExpression_reworded accepted inside isColumn isToken isName starts
    stops spelled namesTable
  have solid := Input.start_lt_stop isToken
  have isOver : node.IsOver token.span.start := ⟨starts, Nat.lt_of_lt_of_le solid stops⟩
  have childless {other : Expr} (isColumn : ∃ table column, other.form = .column table column) :
      other.children = [] := by
    obtain ⟨_, _, same⟩ := isColumn
    rw [Expr.children, same]
    rfl
  refine ⟨⟨column, ?_⟩, fun other insideOther isOther => ⟨fun isOverOther => ?_, ?_⟩, replaced⟩
  · rw [isColumn, Token.payload, isName]
  · exact eq_of_isOver accepted insideOther inside (childless isOther)
      (childless ⟨_, _, isColumn⟩) isOverOther isOver
  · rintro rfl
    exact isOver

/-- `RETURN` for a table in front of `RETURN`, and `NOT` for the table of a measure. -/
theorem keywords_nameTables_return :
    let source := "=VAR v=t[c] RETURN v*(t[c])"
    let node := Expr.node (.column "t" "c") ⟨7, 11⟩
    let tree := Expr.node (.bindings [("v", node)] (.node (.binary .multiply
      (.node (.tableName "v") ⟨19, 20⟩) (.node (.column "t" "c") ⟨21, 27⟩)) ⟨19, 27⟩)) ⟨1, 27⟩
    let token : Token := ⟨.identifier "t", ⟨7, 8⟩, ⟨7, 1, 8⟩, "t"⟩
    let script := "create measure t[m]=1"
    let measure : Measure := ⟨"t", "m", "1", script, none, ⟨0, 21⟩⟩
    let table : Token := ⟨.identifier "t", ⟨15, 16⟩, ⟨15, 1, 16⟩, "t"⟩
    let place := Relocation.respelling table.position table.spelling.toList "nOt".toList
    readExpression source = .ok tree ∧ node.HasUnquotedTable source token ∧
      token.span.replace? "rEtUrN".toList source.toList =
        some "=VAR v=rEtUrN[c] RETURN v*(t[c])".toList ∧
      (∃ text same, token.span.replace? "rEtUrN".toList source.toList = some text ∧
        readExpression (String.ofList text) = .ok same ∧
        same.bare = (tree.withTableAt token.span.start "rEtUrN").bare) ∧
      measure ∈ (readScript script {}).measures ∧
      ∃ text fullText before behind,
        table.span.replace? "nOt".toList script.toList = some text ∧
        (table.span.relativeTo measure.span).replace? "nOt".toList measure.fullText.toList =
          some fullText ∧
        (readScript script {}).measures = before ++ measure :: behind ∧
        (readScript (String.ofList text) {}).measures =
          before.map place.measure ++
            { measure with
              tableName := "nOt"
              fullText := String.ofList fullText
              span := place.span measure.span } :: behind.map place.measure ∧
        (readScript (String.ofList text) {}).collector =
          place.collector (readScript script {}).collector := by
  intro source node tree token script measure table place
  have accepted : readExpression source = .ok tree := by
    cbv
  have inside : node.Subtree tree := .under (.head _) .self
  have unquoted : node.HasUnquotedTable source token := by
    refine ⟨⟨_, _, rfl⟩, ?_, ⟨_, rfl⟩, by decide, by decide⟩
    decide +kernel
  have isRecorded : measure ∈ (readScript script {}).measures := by
    decide +kernel
  have named : measure.IsNamedBy script table
      ⟨.bracketName "m", ⟨16, 19⟩, ⟨16, 1, 17⟩, "[m]"⟩ := by
    refine ⟨[], ⟨.keyword .create, ⟨0, 6⟩, .start, "create"⟩,
      [⟨.keyword .measure, ⟨7, 14⟩, ⟨7, 1, 8⟩, "measure"⟩], (Input.ofSource script).tokens.drop 4,
      ?_, rfl, .inl rfl⟩
    decide +kernel
  have returns : Keyword.ofWord? "rEtUrN" = some .result := by decide +kernel
  have negates : Keyword.ofWord? "nOt" = some .logicalNot := by decide +kernel
  obtain ⟨_, _, replaced⟩ := (keywords_nameTables returns).1 (by decide) source tree node token
    accepted inside unquoted
  exact ⟨accepted, unquoted, by decide, replaced, isRecorded,
    (keywords_nameTables negates).2 script {} measure table _ isRecorded named rfl⟩

end DaxScript
