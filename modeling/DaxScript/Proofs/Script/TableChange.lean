import DaxScript.Proofs.LosslessExpressions
import DaxScript.Proofs.Grammar.MeasureTables
import DaxScript.Proofs.Script.Relocation
import DaxScript.Proofs.Token.Respelling

/-!
# Another word for a table

A word of a text stands for the table of a measure, and another word takes its place
(`TableChange`).  Then everything behind the word has moved, and everything else stays where it is.
A span beside the table covers the same text in its new place (`TableChange.keepsText`), and a span
around it the same text with the other word (`TableChange.slice_around`).

So a measure is the same in its new place, unless the table is its own.  Then it has the other
table, and its expression is still the same, as that stands behind the table.  If the other word is
a keyword then the grammar reads the same tokens in their new places, apart from the table
(`TableChange.tokens_moved`).
-/

set_option autoImplicit false

namespace DaxScript

/-! ## Where the parts of a measure stand -/

namespace Rule

/-- The body of a measure covers something, behind the first keyword. -/
theorem MeasureText.body_within {words : List Keyword} {own : List Token}
    {clause : DaxScript.MeasureClause} (text : MeasureText words own clause)
    (ordered : InOrder own) (solid : ∀ token ∈ own, token.span.start < token.span.stop) :
    clause.start ≤ clause.body.span.start ∧ clause.body.span.start < clause.body.span.stop := by
  have covered := text.covers ordered
  obtain ⟨opening, used, rfl, some, reading⟩ := text.exists_body
  have body := reading.covers ordered.right
  exact ⟨covered.start_le body ordered some,
    body.start_lt_stop ordered.right fun token member => solid token (by simp [member])⟩

/-- The table stands behind the first keyword of the measure and in front of its expression. -/
theorem TableStands.around {words : List Keyword} {before behind : List Token}
    {front back : List DaxScript.MeasureClause} {clause : DaxScript.MeasureClause}
    (stands : TableStands words before behind front clause back) {table : Token}
    (ordered : InOrder (before ++ table :: behind))
    (solid : ∀ token ∈ before ++ table :: behind, token.span.start < token.span.stop) :
    clause.start ≤ table.span.start ∧ table.span.stop ≤ clause.body.span.start ∧
      clause.body.span.start < clause.body.span.stop := by
  obtain ⟨opening, isOpening, starts⟩ := stands.opens
  obtain ⟨middle, used, later, rfl, body⟩ := stands.body
  have opened := ordered.stop_le isOpening (.head _)
  have openingSolid := solid opening (List.mem_append_left _ isOpening)
  have bodyOrdered : InOrder used := ordered.right.tail.right.left
  have covered := body.covers bodyOrdered
  have forward := covered.start_lt_stop bodyOrdered fun token isUsed =>
    solid token (by simp [isUsed])
  obtain ⟨head, _, isHead, _, same⟩ := covered
  have isBody : head ∈ middle ++ (used ++ later) := by simp [List.mem_of_mem_head? isHead]
  have split : InOrder ([table] ++ (middle ++ (used ++ later))) := ordered.right
  have tableFirst := split.stop_le (.head _) isBody
  rw [same] at forward ⊢
  exact ⟨by omega, tableFirst, forward⟩

end Rule

/-! ## A word in a text -/

/-- A word for a table in a text, and what may stand in its place. -/
structure TableChange where
  front : List Char
  table : Token
  behind : List Char
  isSpelled : table.spelling.toList ≠ []
  place : table =
    Token.place table.kind (Position.start.advanceAll front) table.spelling.toList
  /-- What the other word is. -/
  kind : TokenKind
  named : kind.namesTable = true
  word : String

namespace TableChange

variable (change : TableChange)

/-- The text. -/
def source : List Char :=
  change.front ++ (change.table.spelling.toList ++ change.behind)

/-- The text with the other word. -/
def moved : List Char :=
  change.front ++ (change.word.toList ++ change.behind)

/-- From the text to the text with the other word. -/
def relocation : Relocation :=
  .respelling change.table.position change.table.spelling.toList change.word.toList

/-- What stands in the place of the table. -/
def other : Token :=
  { change.table with kind := change.kind, spelling := change.word }

/-- What becomes of a measure. -/
def measure (measure : Measure) : Measure :=
  if measure.span.start ≤ change.table.span.start ∧
      change.table.span.start < measure.span.stop then
    { measure with
      tableName := String.ofList (Measure.unquoteTableName change.word.toList)
      fullText := String.ofList (trim ((change.relocation.span measure.span).slice change.moved))
      span := change.relocation.span measure.span }
  else change.relocation.measure measure

variable {change}

theorem start_table : change.table.span.start = byteLength change.front := by
  rw [change.place]
  simp [Token.place, Position.start]

theorem stop_table : change.table.span.stop =
    byteLength (change.front ++ change.table.spelling.toList) := by
  rw [byteLength_append, change.place]
  simp [Token.place, Position.start]

theorem position_table : change.table.position = Position.start.advanceAll change.front :=
  congrArg Token.position change.place

theorem start_lt_stop : change.table.span.start < change.table.span.stop := by
  have positive := byteLength_pos change.isSpelled
  rw [start_table, stop_table, byteLength_append]
  omega

theorem offset_position : change.table.position.offset = byteLength change.front := by
  rw [position_table]
  simp [Position.start]

/-! ## Texts beside the table and around it -/

/-- Up to the table offsets stay what they are. -/
theorem offset_of_le {offset : Nat} (before : offset ≤ change.table.span.start) :
    change.relocation.offset offset = offset := by
  refine Relocation.respelling_offset_of_le _ _ _ ?_
  rwa [offset_position, ← start_table]

/-- Behind the table they move along. -/
theorem offset_of_ge (more : Nat) :
    change.relocation.offset (more + byteLength (change.front ++ change.table.spelling.toList)) =
      more + byteLength (change.front ++ change.word.toList) := by
  have positive := byteLength_pos change.isSpelled
  have moves : change.relocation.offset
      (more + byteLength (change.front ++ change.table.spelling.toList)) =
        (change.table.position.advanceAll change.word.toList).offset +
          (more + byteLength (change.front ++ change.table.spelling.toList) -
            (change.table.position.advanceAll change.table.spelling.toList).offset) := by
    refine if_neg ?_
    rw [offset_position, byteLength_append]
    omega
  rw [moves, Position.offset_advanceAll, Position.offset_advanceAll, offset_position,
    ← byteLength_append, ← byteLength_append]
  omega

/-- The other table in its place. -/
theorem token_other : change.relocation.token change.other =
    Token.place change.kind (Position.start.advanceAll change.front) change.word.toList := by
  have start := @offset_of_le change change.table.span.start (Nat.le_refl _)
  rw [start_table] at start
  have stop : change.relocation.offset change.table.span.stop =
      byteLength (change.front ++ change.word.toList) := by
    have behind := @offset_of_ge change 0
    rwa [Nat.zero_add, Nat.zero_add, ← stop_table] at behind
  have place : change.relocation.position change.table.position = change.table.position :=
    Relocation.respelling_position_of_le _ _ _ (Nat.le_refl _)
  rw [position_table] at place
  simp only [Relocation.token, Relocation.span, Span.moved, other, place, start, stop,
    start_table, position_table, Token.place, byteLength_append, String.ofList_toList]
  simp [Position.start]

/-- **A span beside the table covers the same text in its new place.** -/
theorem keepsText {span : Span} (forward : span.start ≤ span.stop)
    (aside : span.stop ≤ change.table.span.start ∨ change.table.span.stop ≤ span.start) :
    (change.relocation.span span).slice change.moved = span.slice change.source := by
  rcases aside with before | behind
  · have same : change.relocation.span span = span := by
      rw [Relocation.span, Span.moved, offset_of_le before, offset_of_le (forward.trans before)]
    rw [start_table] at before
    rw [same, moved, source, Span.slice_append_of_le before, Span.slice_append_of_le before]
  · rw [stop_table] at behind
    obtain ⟨start, hstart⟩ := Nat.exists_eq_add_of_le' behind
    obtain ⟨stop, hstop⟩ := Nat.exists_eq_add_of_le' (behind.trans forward)
    have old := Span.slice_behind ⟨start, stop⟩
      (change.front ++ change.table.spelling.toList) change.behind
    have new := Span.slice_behind ⟨start, stop⟩
      (change.front ++ change.word.toList) change.behind
    rw [Relocation.span, Span.moved, hstart, hstop, offset_of_ge, offset_of_ge, moved,
      ← List.append_assoc, new, ← old, List.append_assoc, ← hstart, ← hstop]
    rfl

/-- **A span around the table covers the same text with the word for the table.** -/
theorem slice_around {span : Span} {covered : List Char}
    (fits : span.slice? change.source = some covered)
    (starts : span.start ≤ change.table.span.start) (stops : change.table.span.stop ≤ span.stop) :
    (change.table.span.relativeTo span).replace? change.word.toList covered =
      some ((change.relocation.span span).slice change.moved) := by
  obtain ⟨before, after, cut, start, stop⟩ := Span.eq_append_of_slice? fits
  have same : before ++ (covered ++ after) =
      change.front ++ (change.table.spelling.toList ++ change.behind) := cut.symm
  rw [start_table, start] at starts
  rw [stop_table, stop, byteLength_append] at stops
  obtain ⟨opening, front, same⟩ := exists_append_of_byteLength_le same starts
  rw [front, byteLength_append] at stops
  rw [← List.append_assoc] at same
  obtain ⟨closing, rfl, behind⟩ := exists_append_of_byteLength_le same.symm
    (by rw [byteLength_append]; omega)
  have relative : change.table.span.relativeTo span = ⟨byteLength opening,
      byteLength opening + byteLength change.table.spelling.toList⟩ := by
    rw [Span.relativeTo, start_table, stop_table, start, front]
    simp only [byteLength_append, Nat.add_sub_cancel_left, Nat.add_assoc]
  have relocated : change.relocation.span span = ⟨byteLength before, byteLength before +
      byteLength (opening ++ change.word.toList ++ closing)⟩ := by
    have stays := @offset_of_le change span.start
      (by rw [start_table, start, front, byteLength_append]; omega)
    have moves := @offset_of_ge change (byteLength closing)
    have sameStop : span.stop =
        byteLength closing + byteLength (change.front ++ change.table.spelling.toList) := by
      rw [stop, front]
      simp only [byteLength_append]
      omega
    rw [← sameStop, front] at moves
    rw [Relocation.span, Span.moved, stays, moves, start]
    simp only [byteLength_append, Span.mk.injEq, true_and]
    omega
  have moved : change.moved =
      before ++ (opening ++ change.word.toList ++ closing) ++ after := by
    rw [TableChange.moved, front, behind]
    simp
  rw [relative, relocated, moved, Span.slice_append, List.append_assoc, Span.replace?_append,
    List.append_assoc]

/-! ## Measures -/

/-- A measure beside the table only stands in another place. -/
theorem measure_aside {measure : Measure}
    (aside : measure.span.stop ≤ change.table.span.start ∨
      change.table.span.stop ≤ measure.span.start) :
    change.measure measure = change.relocation.measure measure := by
  refine if_neg ?_
  have solid := @start_lt_stop change
  omega

/-- So do measures all of which are beside the table. -/
theorem map_measure {measures : List Measure}
    (aside : ∀ measure ∈ measures, measure.span.stop ≤ change.table.span.start ∨
      change.table.span.stop ≤ measure.span.start) :
    measures.map change.measure = measures.map change.relocation.measure :=
  List.map_congr_left fun measure member => measure_aside (aside measure member)

/-- A measure around the table has the other table. -/
theorem measure_around {measure : Measure} (starts : measure.span.start ≤ change.table.span.start)
    (stops : change.table.span.stop ≤ measure.span.stop) :
    change.measure measure =
      { measure with
        tableName := String.ofList (Measure.unquoteTableName change.word.toList)
        fullText := String.ofList (trim ((change.relocation.span measure.span).slice change.moved))
        span := change.relocation.span measure.span } := by
  refine if_pos ⟨starts, ?_⟩
  have solid := @start_lt_stop change
  omega

variable {clause : MeasureClause}

/-- A measure beside the table is the same in its new place. -/
theorem ofClause_aside (starts : clause.start ≤ clause.body.span.start)
    (solid : clause.body.span.start < clause.body.span.stop)
    (aside : clause.span.stop ≤ change.table.span.start ∨
      change.table.span.stop ≤ clause.span.start) :
    Measure.ofClause change.moved (change.relocation.clause clause) =
      change.measure (Measure.ofClause change.source clause) := by
  have forward : clause.span.start ≤ clause.span.stop := starts.trans (Nat.le_of_lt solid)
  have bodyAside : clause.body.span.stop ≤ change.table.span.start ∨
      change.table.span.stop ≤ clause.body.span.start :=
    aside.imp id fun behind => behind.trans starts
  have whole : (change.relocation.clause clause).span = change.relocation.span clause.span :=
    Relocation.span_clause clause
  have body : (change.relocation.clause clause).body.span =
      change.relocation.span clause.body.span := Relocation.span_expr _
  refine Eq.trans ?_ (measure_aside aside).symm
  simp only [Measure.ofClause, whole, body, keepsText forward aside,
    keepsText (Nat.le_of_lt solid) bodyAside]
  rfl

section

variable (starts : clause.start ≤ change.table.span.start)
  (body : change.table.span.stop ≤ clause.body.span.start)
  (solid : clause.body.span.start < clause.body.span.stop)
include starts body solid

/-- The measure with the table has the other table in its new place. -/
theorem ofClause_other :
    Measure.ofClause change.moved (change.relocation.clause (clause.withTable change.other)) =
      change.measure (Measure.ofClause change.source clause) := by
  have whole : (change.relocation.clause (clause.withTable change.other)).span =
      change.relocation.span clause.span := Relocation.span_clause _
  have sameBody : (change.relocation.clause (clause.withTable change.other)).body.span =
      change.relocation.span clause.body.span := Relocation.span_expr _
  refine Eq.trans ?_ (measure_around starts (body.trans (Nat.le_of_lt solid))).symm
  simp only [Measure.ofClause, whole, sameBody, keepsText (Nat.le_of_lt solid) (.inr body)]
  rfl

/-- Which table such a measure had makes no difference. -/
theorem measure_withTable (table : Token) :
    change.measure (Measure.ofClause change.source (clause.withTable table)) =
      change.measure (Measure.ofClause change.source clause) := by
  have stops := body.trans (Nat.le_of_lt solid)
  have around := @measure_around change (Measure.ofClause change.source clause) starts stops
  exact (measure_around starts stops).trans around.symm

end

/-! ## Sources with the other table -/

/-- A keyword for a word of a source. -/
def ofAround {chars : List Char} {table : Token} {front behind : List Piece}
    (around : Piece.Around chars table front behind)
    (keyword : Keyword) (word : String) : TableChange where
  front := Piece.text front
  table := table
  behind := Piece.text behind
  isSpelled := around.spelling_ne_nil
  place := around.place
  kind := .keyword keyword
  named := rfl
  word := word

section Sources

variable {source : String} {table : Token} {front behind : List Piece}
  (around : Piece.Around source.toList table front behind)

section Behind

variable (keyword : Keyword) (word : String)

theorem position_ofAround :
    (ofAround around keyword word).table.position = Position.start.advanceAll (Piece.text front) :=
  position_table

/-- Behind the table a text leads to where it leads from behind the keyword. -/
theorem position_behind (chars : List Char) :
    (ofAround around keyword word).relocation.position
        (Position.start.advanceAll (Piece.text front ++ table.spelling.toList ++ chars)) =
      Position.start.advanceAll (Piece.text front ++ word.toList ++ chars) := by
  rw [Position.advanceAll_append, Position.advanceAll_append, Position.advanceAll_append _ _ chars,
    Position.advanceAll_append, ← position_ofAround around keyword word]
  exact Relocation.respelling_position_advanceAll _ _ around.spelling_ne_nil chars

theorem follows_behind : (ofAround around keyword word).relocation.Follows
    (Position.start.advanceAll (Piece.text front ++ table.spelling.toList)) := by
  rw [Position.advanceAll_append, ← position_ofAround around keyword word]
  exact Relocation.respelling_follows _ _ around.spelling_ne_nil

/-- The tokens and the faults behind the table have moved behind the keyword. -/
theorem moved_behind : (ofAround around keyword word).relocation.position
      (Position.start.advanceAll (Piece.text front ++ table.spelling.toList)) =
    Position.start.advanceAll (Piece.text front ++ word.toList) := by
  have here := position_behind around keyword word []
  rwa [List.append_nil, List.append_nil] at here

theorem finish_moved :
    (Input.ofSource (String.ofList (ofAround around keyword word).moved)).finish =
      (ofAround around keyword word).relocation.position (Input.ofSource source).finish := by
  have ended := position_behind around keyword word (Piece.text behind)
  rw [List.append_assoc, List.append_assoc, ← around.eq_text] at ended
  refine Eq.trans ?_ ended.symm
  exact congrArg _ String.toList_ofList

end Behind

variable {keyword : Keyword} {word : String} (spelled : Keyword.ofWord? word = some keyword)
include spelled

/-- **The tokens of the source with the keyword** are those of the source in their new places, apart
from the table. -/
theorem tokens_moved :
    (Input.ofSource (String.ofList (ofAround around keyword word).moved)).tokens =
      (Piece.tokens .start front ++ (ofAround around keyword word).other ::
        Piece.tokens (Position.start.advanceAll (Piece.text front ++ table.spelling.toList))
          behind).map (ofAround around keyword word).relocation.token := by
  have inFront : (Piece.tokens .start front).map (ofAround around keyword word).relocation.token =
      Piece.tokens .start front := by
    refine Relocation.respelling_tokens_of_le _ _ _ ?_
    rw [position_ofAround, Position.offset_advanceAll]
  have own : (ofAround around keyword word).relocation.token (ofAround around keyword word).other =
      Token.place (.keyword keyword) (Position.start.advanceAll (Piece.text front)) word.toList :=
    token_other
  rw [List.map_append, List.map_cons, inFront, own, (follows_behind around keyword word).tokens,
    moved_behind, Input.tokens_ofSource, String.toList_ofList]
  exact around.tokens_keyword spelled

/-- The same is told about the source with the keyword, in the new places. -/
theorem faults_moved :
    (Input.ofSource (String.ofList (ofAround around keyword word).moved)).faults =
      (Input.ofSource source).faults.map
        (List.map (ofAround around keyword word).relocation.diagnostic) := by
  have pieces : Piece.all (String.ofList (ofAround around keyword word).moved).toList =
      front ++ .token (.keyword keyword) word.toList none :: behind := by
    rw [String.toList_ofList]
    exact around.all_keyword spelled
  rw [Input.faults_ofSource, pieces, Input.faults_ofSource, around.cut,
    Piece.faults_word around.sound around.isWord, Piece.faults_word around.sound rfl,
    List.map_append, List.map_replicate, (follows_behind around keyword word).faults, moved_behind]
  rfl

end Sources

end TableChange

end DaxScript
