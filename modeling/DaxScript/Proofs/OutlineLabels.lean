import DaxScript.Proofs.Grammar.Excerpt
import DaxScript.Proofs.Outline.Headers
import DaxScript.Proofs.OutlinedMeasures

/-!
# Labels name the measures that the tokens define

A statement of the outline is shown under a label when its text begins like the definition of a
measure.  Where the text of a source is sound, every statement that is listed stands for tokens that
follow each other (`ListedFor`, `exists_of_mem_listed`), and these cut the pieces of the source, so
that the label can be read off the first of them (`labelled_of_mem_outline`).  What is left is to
tell these tokens from those of the grammar, which have no comments among them.

A label therefore names the measure that the tokens define, and is there for no other statement,
exactly where no comment stands between the words of the definition, as long as nothing passes for a
table that is none (`label_iff_uninterrupted`).  Both conditions are needed
(`label_goes_wrong`): a comment hides a measure that is defined, and a numeral or an empty name
between quotes is shown as a table.
-/

set_option autoImplicit false

namespace DaxScript

open Outline TokenOutline

/-! ## The tokens of a statement -/

namespace StatementSpan

/-- The tokens of a source that lie in a statement, comments included, without the end of the
input. -/
def tokens (source : String) (statement : StatementSpan) : List Token :=
  (tokenize source).dropLast.filter (statement.includes ·.span)

/-- Those of them that mean something to the grammar. -/
def meaning (source : String) (statement : StatementSpan) : List Token :=
  (statement.tokens source).filter (·.kind.isSignificant)

end StatementSpan

namespace TokenOutline

/-- A statement that is listed for tokens that follow each other, and for the semicolon that ends
it. -/
structure ListedFor (source : List Char) (own : List Token) (semicolon? : Option Token)
    (statement : StatementSpan) : Prop where
  reaches : ∃ span : Span, span.Covers own ∧ statement.start = span.start ∧
    statement.stop = (semicolon?.map (·.span.stop)).getD span.stop ∧
    statement.label = (label? (span.slice source)).map String.ofList
  ends : ∀ token ∈ semicolon?, token.kind = .symbol .semicolon

/-- The statement that is going on has these tokens. -/
def State.Holds (state : State) (own : List Token) : Prop :=
  match state.running with
  | none => own = []
  | some running => own.head? = some running.first ∧ own.getLast? = some running.last

theorem State.Holds.add {state : State} {own : List Token} (holds : state.Holds own)
    (token : Token) : (state.add token).Holds (own ++ [token]) := by
  unfold Holds at holds ⊢
  cases running : state.running with
  | none =>
    rw [running] at holds
    subst holds
    simp [State.add, running]
  | some running' =>
    rw [running] at holds
    simp [State.add, running, holds.1]

section Listed

variable {source : List Char} {state : State} {own : List Token} {statement : StatementSpan}

/-- A statement that ends is listed for its tokens. -/
theorem State.Holds.listing {semicolon? : Option Token} (holds : state.Holds own)
    (ends : ∀ token ∈ semicolon?, token.kind = .symbol .semicolon)
    (member : statement ∈ state.listing source semicolon?) :
    ListedFor source own semicolon? statement := by
  unfold State.listing at member
  unfold Holds at holds
  cases running : state.running with
  | none =>
    rw [running] at member
    cases member
  | some running' =>
    rw [running] at member holds
    dsimp only at member
    split at member
    · obtain rfl := List.mem_singleton.mp member
      refine ⟨⟨_, ⟨_, _, holds.1, holds.2, rfl⟩, rfl, ?_, rfl⟩, ends⟩
      cases semicolon? <;> rfl
    · cases member

/-- **Every statement that is listed stands for tokens that follow each other**, and for the
semicolon behind them if one ends it. -/
theorem exists_of_mem_listed {tokens : List Token} (holds : state.Holds own)
    (member : statement ∈ listed source state tokens) :
    ∃ before part semicolon? after,
      own ++ tokens = before ++ (part ++ (semicolon?.toList ++ after)) ∧
        ListedFor source part semicolon? statement := by
  induction tokens generalizing state own with
  | nil => exact ⟨[], own, none, [], by simp, holds.listing (fun _ none => by cases none) member⟩
  | cons token tokens ih =>
    have between : State.between.Holds [] := rfl
    rw [listed] at member
    split at member
    · next ends =>
      rcases List.mem_append.mp member with now | later
      · refine ⟨[], own, some token, tokens, rfl, holds.listing ?_ now⟩
        exact fun _ same => Option.mem_some.mp same ▸ ends.1
      · obtain ⟨before, part, semicolon?, after, cut, isListed⟩ := ih between later
        refine ⟨own ++ token :: before, part, semicolon?, after, ?_, isListed⟩
        rw [List.nil_append] at cut
        rw [cut, List.append_assoc, List.cons_append]
    split at member
    · rcases List.mem_append.mp member with now | later
      · exact ⟨[], own, none, token :: tokens, rfl,
          holds.listing (fun _ none => by cases none) now⟩
      · obtain ⟨before, part, semicolon?, after, cut, isListed⟩ := ih (between.add token) later
        refine ⟨own ++ before, part, semicolon?, after, ?_, isListed⟩
        rw [List.append_assoc, ← cut]
        rfl
    · obtain ⟨before, part, semicolon?, after, cut, isListed⟩ := ih (holds.add token) member
      refine ⟨before, part, semicolon?, after, ?_, isListed⟩
      rw [← cut, List.append_assoc]
      rfl

end Listed

end TokenOutline

/-! ## The pieces of a statement -/

theorem TokenKind.isTrivia_of_isSignificant {kind : TokenKind}
    (meaning : kind.isSignificant = true) : kind.isTrivia = false := by
  cases kind <;> first | rfl | cases meaning

theorem TokenKind.isSignificant_of_isTrivia {kind : TokenKind} (notEnd : kind ≠ .endOfInput)
    (meaning : kind.isTrivia = false) : kind.isSignificant = true := by
  cases kind <;> first | rfl | exact absurd rfl notEnd | cases meaning

/-- A token that means something is one of the tokens that the grammar reads. -/
theorem Piece.mem_tokens_of_isSignificant {position : Position} {pieces : List Piece}
    {token : Token} (member : token ∈ allTokens position pieces)
    (meaning : token.kind.isSignificant = true) : token ∈ tokens position pieces := by
  induction pieces generalizing position with
  | nil => cases member
  | cons piece pieces ih =>
    rw [tokens]
    rcases List.mem_append.mp member with own | later
    · exact List.mem_append_left _ (mem_ownTokens_iff.mpr
        ⟨Option.mem_toList.mp own, TokenKind.isTrivia_of_isSignificant meaning⟩)
    · exact List.mem_append_right _ (ih later)

/-- The tokens of a statement that begins with a piece and reaches over those that follow. -/
theorem StatementSpan.tokens_of_cut {source : String} {statement : StatementSpan}
    {front middle behind : List Piece}
    (cut : Piece.all source.toList = front ++ (middle ++ behind))
    (starts : statement.start = byteLength (Piece.text front))
    (reaches : byteLength (Piece.text (front ++ middle)) ≤ statement.stop) :
    statement.tokens source =
      Piece.allTokens (Position.start.advanceAll (Piece.text front)) middle ++
        (Piece.allTokens (Position.start.advanceAll (Piece.text (front ++ middle))) behind).filter
          (statement.includes ·.span) := by
  have noneInFront : (Piece.allTokens .start front).filter (statement.includes ·.span) = [] := by
    refine List.filter_eq_nil_iff.mpr fun token inFront inside => ?_
    have isToken : token ∈ Piece.allTokens .start (Piece.all source.toList) := by
      rw [cut, Piece.allTokens_append]
      exact List.mem_append_left _ inFront
    have some := Piece.start_lt_stop isToken
    have bound := (Piece.within_of_mem_allTokens inFront).2
    have begins := (StatementSpan.includes_iff.mp inside).1
    simp only [Position.start] at bound
    omega
  have allInMiddle : (Piece.allTokens (Position.start.advanceAll (Piece.text front)) middle).filter
      (statement.includes ·.span) =
        Piece.allTokens (Position.start.advanceAll (Piece.text front)) middle := by
    refine List.filter_eq_self.mpr fun token inMiddle => StatementSpan.includes_iff.mpr ?_
    have bounds := Piece.within_of_mem_allTokens inMiddle
    rw [Piece.text_append, byteLength_append] at reaches
    simp only [Position.offset_advanceAll, Position.start] at bounds
    omega
  rw [tokens, tokenize_eq, List.dropLast_concat, cut, Piece.allTokens_append,
    Piece.allTokens_append, List.filter_append, List.filter_append, noneInFront, allInMiddle,
    ← Position.advanceAll_append, ← Piece.text_append, List.nil_append]

section Sound

variable {source : String} (sound : ∀ piece ∈ Piece.all source.toList, piece.fault? = none)
  (comments : Piece.closesComments (Piece.all source.toList) = true)
include sound comments

/-- **A statement of an outline begins with a piece that is a token**, has the label of the pieces
from there on, and their tokens.  Whatever else means something in it is a semicolon. -/
theorem labelled_of_mem_outline {statement : StatementSpan} (member : statement ∈ outline source) :
    ∃ kind spelling later rest position tail,
      Piece.FitTogether rest (.token kind spelling none :: later) ∧
        (∀ piece ∈ later, piece.fault? = none) ∧
        statement.label =
          (label? (Piece.text (.token kind spelling none :: later))).map String.ofList ∧
        statement.tokens source =
          Piece.allTokens position (.token kind spelling none :: later) ++ tail ∧
        ∀ token ∈ tail, token.kind.isSignificant = true → token.kind = .symbol .semicolon := by
  have listing : outline source = listed source.toList .between (Piece.tokens .start
      (Piece.all source.toList)) := listed_all source.toList .start sound comments .between
  rw [listing] at member
  obtain ⟨before, part, semicolon?, after, cut, isListed⟩ :=
    @exists_of_mem_listed source.toList .between [] statement _ rfl member
  obtain ⟨span, covered, starts, stops, label⟩ := isListed.reaches
  rw [List.nil_append] at cut
  obtain ⟨front, middle, behind, pieces, _, sameBehind, bounds, ⟨piece, later, first, rfl, isFirst⟩,
    _⟩ := Piece.tokens_cut cut covered
  simp only [Position.start, Nat.zero_add] at bounds
  subst bounds
  have length : byteLength (Piece.text (front ++ piece :: later)) =
      byteLength (Piece.text front) + byteLength (Piece.text (piece :: later)) := by
    rw [Piece.text_append, byteLength_append]
  have spelled : source.toList =
      Piece.text front ++ (Piece.text (piece :: later) ++ Piece.text behind) := by
    rw [← Piece.text_append, ← Piece.text_append, ← pieces]
    exact (Piece.spellings source.toList).symm
  -- The first piece is a token without faults.
  have soundMiddle : ∀ other ∈ piece :: later, other.fault? = none := fun other isMiddle =>
    sound other (pieces ▸ List.mem_append_right _ (List.mem_append_left _ isMiddle))
  obtain ⟨soundFirst, soundLater⟩ := List.forall_mem_cons.mp soundMiddle
  obtain ⟨kind, spelling, rfl⟩ : ∃ kind spelling, piece = .token kind spelling none := by
    obtain ⟨placed, _⟩ := Piece.mem_ownTokens_iff.mp (isFirst ▸ List.mem_singleton_self first)
    cases piece with
    | token kind spelling fault =>
      obtain rfl : fault = none := soundFirst
      exact ⟨kind, spelling, rfl⟩
    | _ => cases placed
  have together : Piece.FitTogether (Piece.text behind) (.token kind spelling none :: later) := by
    have alone := Piece.all_drop pieces
    rw [List.flatMap_append] at alone
    exact Piece.fitTogether_of_all alone
  -- The statement ends with the last of its tokens or with the semicolon, and what follows is
  -- behind it.
  have offset {token : Token} (isBehind : token ∈ semicolon?.toList ++ after) :
      byteLength (Piece.text (front ++ .token kind spelling none :: later)) ≤ token.span.start ∧
        token.span.start ≤ token.span.stop := by
    rw [← sameBehind] at isBehind
    have bounds := Piece.within_of_mem_tokens isBehind
    rw [Position.offset_advanceAll, Position.start, Nat.zero_add] at bounds
    exact ⟨bounds.1, bounds.2.1⟩
  obtain ⟨reaches, edge⟩ :
      byteLength (Piece.text (front ++ .token kind spelling none :: later)) ≤ statement.stop ∧
        ∀ token ∈ after, statement.stop ≤ token.span.start := by
    cases semicolon? with
    | none =>
      rw [stops.trans length.symm]
      exact ⟨Nat.le_refl _, fun token isAfter => (offset isAfter).1⟩
    | some semicolon =>
      have stops : statement.stop = semicolon.span.stop := stops
      have ordered : InOrder ([semicolon] ++ after) := sameBehind ▸ Piece.inOrder_tokens _ behind
      have bounds := offset (.head _)
      rw [stops]
      exact ⟨Nat.le_trans bounds.1 bounds.2, fun token isAfter => ordered.stop_le (.head _) isAfter⟩
  refine ⟨kind, spelling, later, Piece.text behind, _, _, together, soundLater, ?_,
    StatementSpan.tokens_of_cut pieces starts reaches, ?_⟩
  · rw [label, Span.slice, spelled, Span.slice?_append]
    rfl
  · intro token isTail meaning
    obtain ⟨isBehind, inside⟩ := List.mem_filter.mp isTail
    have isToken := Piece.mem_tokens_of_isSignificant isBehind meaning
    have some : token.span.start < token.span.stop := by
      refine @Piece.start_lt_stop source token ?_
      rw [pieces, ← List.append_assoc, Piece.allTokens_append]
      exact List.mem_append_right _ isBehind
    have inside := (StatementSpan.includes_iff.mp inside).2
    rw [sameBehind] at isToken
    rcases List.mem_append.mp isToken with isSemicolon | isAfter
    · exact isListed.ends token (Option.mem_toList.mp isSemicolon)
    · have behindStop := edge token isAfter
      omega

end Sound

/-! ## Labels -/

/-- Tokens that all mean something are the first of those that do. -/
theorem take_filter_of_forall {tokens : List Token} {count : Nat}
    (all : ∀ token ∈ tokens.take count, token.kind.isSignificant = true)
    (long : count ≤ (tokens.filter (·.kind.isSignificant)).length) :
    (tokens.filter (·.kind.isSignificant)).take count = tokens.take count := by
  have size : (tokens.take count).length = count :=
    List.length_take_of_le (Nat.le_trans long (List.length_filter_le _ _))
  have split : tokens.filter (·.kind.isSignificant) =
      tokens.take count ++ (tokens.drop count).filter (·.kind.isSignificant) := by
    conv_lhs => rw [← List.take_append_drop count tokens]
    rw [List.filter_append, List.filter_eq_self.mpr all]
  rw [split, List.take_left' size]

/-- Semicolons and comments behind some tokens define nothing. -/
theorem definedLabel?_of_append {own tail : List Token} {label : String}
    (semicolons : ∀ token ∈ tail,
      token.kind.isSignificant = true → token.kind = .symbol .semicolon)
    (defined : definedLabel? (own ++ tail) = some label) : definedLabel? own = some label := by
  obtain ⟨header, more, same, isHeader⟩ := exists_header defined
  rcases List.append_eq_append_iff.mp same with ⟨inHeader, rfl, rfl⟩ | ⟨inOwn, rfl, _⟩
  · cases inHeader with
    | nil =>
      have found := @Header.definedLabel?_append _ [] _ isHeader
      rwa [List.append_nil, List.append_nil] at found
    | cons token inHeader =>
      have member : token ∈ own ++ token :: inHeader := by simp
      obtain ⟨significant, noSemicolon⟩ := isHeader.means member
      exact absurd (semicolons token (.head _) significant) noSemicolon
  · exact isHeader.definedLabel?_append

/-- What is defined by the first tokens, comments counted, is defined for the grammar too. -/
theorem definedLabel?_filter {own : List Token} {label : String}
    (defined : definedLabel? own = some label) (tail : List Token) :
    definedLabel? ((own ++ tail).filter (·.kind.isSignificant)) = some label ∧
      ∀ token ∈ (own ++ tail).take 4, token.kind.isTrivia = false := by
  obtain ⟨header, more, rfl, isHeader⟩ := exists_header defined
  rw [List.append_assoc, isHeader.filter_append, List.take_left' isHeader.length_eq]
  exact ⟨isHeader.definedLabel?_append,
    fun token first => TokenKind.isTrivia_of_isSignificant (isHeader.means first).1⟩

/-- And the other way round, if there are no comments in between. -/
theorem definedLabel?_of_filter {own tail : List Token} {label : String}
    (noEnd : ∀ token ∈ own ++ tail, token.kind ≠ .endOfInput)
    (semicolons : ∀ token ∈ tail,
      token.kind.isSignificant = true → token.kind = .symbol .semicolon)
    (uninterrupted : ∀ token ∈ (own ++ tail).take 4, token.kind.isTrivia = false)
    (defined : definedLabel? ((own ++ tail).filter (·.kind.isSignificant)) = some label) :
    definedLabel? own = some label := by
  obtain ⟨header, more, same, isHeader⟩ := exists_header defined
  have long : 4 ≤ ((own ++ tail).filter (·.kind.isSignificant)).length := by
    rw [same, List.length_append, isHeader.length_eq]
    exact Nat.le_add_right _ _
  have first := take_filter_of_forall (fun token isFirst =>
    TokenKind.isSignificant_of_isTrivia (noEnd token (List.mem_of_mem_take isFirst))
      (uninterrupted token isFirst)) long
  rw [same, List.take_left' isHeader.length_eq] at first
  refine definedLabel?_of_append semicolons ?_
  rw [← List.take_append_drop 4 (own ++ tail), ← first]
  exact isHeader.definedLabel?_append

/-- What passes for a table behind the words of a header is there for the grammar as well. -/
theorem passesForTable_of_filter {own tail : List Token}
    (noPass : ∀ others ∈ behindWords? ((own ++ tail).filter (·.kind.isSignificant)),
      ∀ table ∈ others.head?, table.kind.passesForTable = false) :
    ∀ others ∈ behindWords? own, ∀ table ∈ others.head?, table.kind.passesForTable = false := by
  intro others isBehind table isTable
  obtain ⟨first, second, rfl, opens, goesOn⟩ := behindWords?_eq_some_iff.mp isBehind
  obtain ⟨more, rfl⟩ := List.head?_eq_some_iff.mp isTable
  refine Bool.eq_false_iff.mpr fun passes => ?_
  have significant : table.kind.isSignificant = true := by
    cases same : table.kind <;> rw [same] at passes <;> first | rfl | cases passes
  have firstMeans : first.kind.isSignificant = true := by
    rcases opens with same | same <;> rw [same] <;> rfl
  have secondMeans : second.kind.isSignificant = true := by
    rw [goesOn]
    rfl
  have kept : ((first :: second :: table :: more) ++ tail).filter (·.kind.isSignificant) =
      first :: second :: table :: (more ++ tail).filter (·.kind.isSignificant) := by
    simp only [List.cons_append, List.filter_cons, significant, firstMeans, secondMeans, if_true]
  rw [kept] at noPass
  have same := noPass _ (behindWords?_eq_some_iff.mpr ⟨first, second, rfl, opens, goesOn⟩) table rfl
  rw [passes] at same
  cases same

/-- The tokens of a statement are not the end of the input. -/
theorem StatementSpan.ne_endOfInput {source : String} {statement : StatementSpan} {token : Token}
    (member : token ∈ statement.tokens source) : token.kind ≠ .endOfInput := by
  rw [tokens, tokenize_eq, List.dropLast_concat] at member
  obtain ⟨_, kind, _, _, _, _, rfl, notEnd, _⟩ :=
    Piece.exists_of_mem_source (List.mem_filter.mp member).1
  exact notEnd

/-- **A label names the measure that the tokens define**, and a statement has none if they define
none, exactly where no comment interrupts the words of a definition, as long as nothing passes for a
table that is none. -/
theorem label_iff_uninterrupted {source : String} (sound : lexicalDiagnostics source = [])
    (pairs : pairsReturns source.toList = true) {statement : StatementSpan}
    (member : statement ∈ outline source)
    (noPass : ∀ others ∈ behindWords? (statement.meaning source),
      ∀ table ∈ others.head?, table.kind.passesForTable = false) :
    statement.label = definedLabel? (statement.meaning source) ↔
      ((definedLabel? (statement.meaning source)).isSome = true →
        ∀ token ∈ (statement.tokens source).take 4, token.kind.isTrivia = false) := by
  obtain ⟨kind, spelling, later, rest, position, tail, together, soundLater, label, tokens,
    semicolons⟩ := labelled_of_mem_outline (lexicalDiagnostics_eq_nil_iff.mp sound)
      (Piece.closesComments_of_pairsReturns pairs) member
  have noEnd : ∀ token ∈ statement.tokens source, token.kind ≠ .endOfInput :=
    fun _ => StatementSpan.ne_endOfInput
  rw [StatementSpan.meaning, tokens] at noPass
  have labelled : statement.label =
      definedLabel? (Piece.allTokens position (.token kind spelling none :: later)) :=
    label.trans (Piece.label?_text together soundLater (passesForTable_of_filter noPass))
  rw [StatementSpan.meaning]
  rw [tokens] at noEnd ⊢
  generalize Piece.allTokens position (.token kind spelling none :: later) = own at *
  rw [labelled]
  constructor
  · intro same defined
    obtain ⟨label, isLabel⟩ := Option.isSome_iff_exists.mp defined
    exact (definedLabel?_filter (same.trans isLabel) tail).2
  · intro uninterrupted
    cases defined : definedLabel? ((own ++ tail).filter (·.kind.isSignificant)) with
    | none =>
      refine Option.eq_none_iff_forall_ne_some.mpr fun label isLabel => ?_
      rw [(definedLabel?_filter isLabel tail).1] at defined
      cases defined
    | some label =>
      exact definedLabel?_of_filter noEnd semicolons (uninterrupted (by rw [defined]; rfl)) defined

/-- A block with a quoted table, a comment behind the header and a query. -/
theorem label_iff_uninterrupted_block :
    let source := "define\r\n\tmeasure 'it''s' [x]-- y\n= 1 evaluate t; DROP u"
    ∃ statement ∈ outline source, statement.label = some "'it''s'[x]" ∧
      statement.label = definedLabel? (statement.meaning source) := by
  intro source
  have listed : (outline source).head? = some ⟨0, 48, some "'it''s'[x]",
      some "define\r\n\tmeasure 'it''s' [x]-- y\n= 1 evaluate t"⟩ := by decide +kernel
  refine ⟨_, List.mem_of_mem_head? listed, rfl, ?_⟩
  refine (label_iff_uninterrupted (by decide +kernel) (by decide +kernel)
    (List.mem_of_mem_head? listed) (by decide +kernel)).mpr fun _ => ?_
  decide +kernel

/-- A sound source has a statement whose label is not the one that its tokens define. -/
def Mislabels (source : String) : Prop :=
  lexicalDiagnostics source = [] ∧ pairsReturns source.toList = true ∧
    ∃ statement ∈ outline source, statement.label ≠ definedLabel? (statement.meaning source)

/-- A comment hides the measure that is defined, and an empty name between quotes and a numeral are
shown as tables. -/
theorem label_goes_wrong :
    Mislabels "CREATE -- c\nMEASURE t[a] = 1" ∧ Mislabels "CREATE MEASURE ''[a] = 1" ∧
      Mislabels "CREATE MEASURE 1[a] = 1" := by
  unfold Mislabels
  decide +kernel

end DaxScript
