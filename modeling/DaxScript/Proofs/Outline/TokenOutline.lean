import DaxScript.Grammar.Input
import DaxScript.Outline

/-!
# The outline as the tokens show it

The places of the statements of a source can be read off its tokens: a statement begins at a token
and goes on to a semicolon, to the next word that begins a statement, or to the end of the input,
where semicolons and words in parentheses or braces do not count (`TokenOutline.statements`).  Only
statements that begin with one of the opening words are listed, and those that define measures are
listed with a label and a text (`TokenOutline.listed`).

The drafts of the outline are the same statements in other words (`TokenOutline.Agrees`), and each
kind of segment does to them what its token does.
-/

set_option autoImplicit false

namespace DaxScript

open Outline

/-- Where a statement of the outline stands. -/
def StatementSpan.span (statement : StatementSpan) : Span :=
  ⟨statement.start, statement.stop⟩

/-- The statement word that a text is, in any letter case. -/
def Outline.OpeningWord.spelledBy? (text : String) : Option OpeningWord :=
  if sameIgnoringCase "CREATE" text then some .create
  else if sameIgnoringCase "DEFINE" text then some .define
  else if sameIgnoringCase "EVALUATE" text then some .evaluate
  else if sameIgnoringCase "ALTER" text then some .alter
  else none

/-- The table of the outline has these words and no others. -/
theorem Outline.OpeningWord.ofWord?_eq_spelledBy? (text : String) :
    ofWord? text = spelledBy? text := by
  rw [ofWord?, spelledBy?]
  simp only [all, name, List.find?_cons, List.find?_nil]
  cases sameIgnoringCase "CREATE" text with
  | true => rfl
  | false =>
  cases sameIgnoringCase "DEFINE" text with
  | true => rfl
  | false =>
  cases sameIgnoringCase "EVALUATE" text with
  | true => rfl
  | false => cases sameIgnoringCase "ALTER" text <;> rfl

/-- The opening word that a token is: a name without quotes or a keyword. -/
def Token.openingWord? (token : Token) : Option OpeningWord :=
  match token.kind with
  | .identifier _ | .keyword _ => OpeningWord.spelledBy? token.spelling
  | _ => none

namespace TokenOutline

/-- Spans that stand one behind the other from an offset on. -/
structure StandFrom (start : Nat) (spans : List Span) : Prop where
  apart : spans.Pairwise fun earlier later => earlier.stop ≤ later.start
  behind : ∀ span ∈ spans, start ≤ span.start

namespace StandFrom

variable {start : Nat} {spans : List Span}

theorem mono {earlier : Nat} (before : earlier ≤ start) (stand : StandFrom start spans) :
    StandFrom earlier spans :=
  ⟨stand.apart, fun span member => Nat.le_trans before (stand.behind span member)⟩

theorem cons {stop : Nat} (forward : start ≤ stop) (stand : StandFrom stop spans) :
    StandFrom start (⟨start, stop⟩ :: spans) :=
  ⟨List.pairwise_cons.mpr ⟨stand.behind, stand.apart⟩,
    List.forall_mem_cons.mpr ⟨Nat.le_refl _, fun later member =>
      Nat.le_trans forward (stand.behind later member)⟩⟩

end StandFrom

/-- A statement that is going on. -/
structure Running where
  first : Token
  last : Token
  /-- Whether one of the tokens behind the first is the word `EVALUATE`. -/
  hasQuery : Bool

/-- How many parentheses are open behind a token.  Closing signs that nobody opened are ignored. -/
def parenthesesAfter (kind : TokenKind) (count : Nat) : Nat :=
  match kind with
  | .symbol .leftParen => count + 1
  | .symbol .rightParen => count - 1
  | _ => count

/-- How many braces are open behind a token. -/
def bracesAfter (kind : TokenKind) (count : Nat) : Nat :=
  match kind with
  | .symbol .leftBrace => count + 1
  | .symbol .rightBrace => count - 1
  | _ => count

/-- What has been seen up to a token: the statement that is going on, if there is one, and how
many parentheses and braces are open in it. -/
structure State where
  running : Option Running
  parentheses : Nat
  braces : Nat

namespace State

/-- Between two statements. -/
def between : State :=
  ⟨none, 0, 0⟩

def isTopLevel (state : State) : Bool :=
  state.parentheses == 0 && state.braces == 0

/-- Whether a word ends the statement that is going on and begins another.  The first query behind
a block of definitions belongs to the block. -/
def splitsBefore (state : State) (word : OpeningWord) : Bool :=
  state.isTopLevel &&
    match word with
    | .evaluate => !state.running.any fun running =>
        running.first.openingWord? == some .define && !running.hasQuery
    | _ => true

/-- The statement that ends here, if it is one that is listed.  It ends behind the semicolon, if
there is one, and behind its last token otherwise. -/
def close (state : State) (semicolon? : Option Token) : List Span :=
  match state.running with
  | none => []
  | some running =>
    if running.first.openingWord?.isSome then
      [⟨running.first.span.start, (semicolon?.getD running.last).span.stop⟩]
    else []

/-- The same statement as it is listed, with the label and the text of a measure.  The text ends
with the last token, so it leaves out the semicolon. -/
def listing (source : List Char) (state : State) (semicolon? : Option Token) :
    List StatementSpan :=
  match state.running with
  | none => []
  | some running =>
    if running.first.openingWord?.isSome then
      let text := (Span.mk running.first.span.start running.last.span.stop).slice source
      [{ start := running.first.span.start
         stop := (semicolon?.getD running.last).span.stop
         label := (label? text).map String.ofList
         hint := (label? text).map fun _ => String.ofList text }]
    else []

theorem map_span_listing (source : List Char) (state : State) (semicolon? : Option Token) :
    (state.listing source semicolon?).map StatementSpan.span = state.close semicolon? := by
  unfold listing close
  cases state.running with
  | none => rfl
  | some running =>
    dsimp only
    split <;> rfl

/-- The statement goes on with a token, or begins with it. -/
def add (state : State) (token : Token) : State where
  running := match state.running with
    | none => some ⟨token, token, false⟩
    | some running =>
      some ⟨running.first, token, running.hasQuery || token.openingWord? == some .evaluate⟩
  parentheses := parenthesesAfter token.kind state.parentheses
  braces := bracesAfter token.kind state.braces

end State

/-- The places of the statements that tokens make up. -/
def statements (state : State) : List Token → List Span
  | [] => state.close none
  | token :: tokens =>
    if token.kind = .symbol .semicolon ∧ state.isTopLevel then
      state.close (some token) ++ statements .between tokens
    else if token.openingWord?.any state.splitsBefore then
      state.close none ++ statements (State.between.add token) tokens
    else statements (state.add token) tokens

/-- The statements that tokens make up, as the outline lists them. -/
def listed (source : List Char) (state : State) : List Token → List StatementSpan
  | [] => state.listing source none
  | token :: tokens =>
    if token.kind = .symbol .semicolon ∧ state.isTopLevel then
      state.listing source (some token) ++ listed source .between tokens
    else if token.openingWord?.any state.splitsBefore then
      state.listing source none ++ listed source (State.between.add token) tokens
    else listed source (state.add token) tokens

theorem map_span_listed (source : List Char) (state : State) (tokens : List Token) :
    (listed source state tokens).map StatementSpan.span = statements state tokens := by
  induction tokens generalizing state with
  | nil => exact state.map_span_listing source none
  | cons token tokens ih =>
    rw [listed, statements]
    split
    · rw [List.map_append, state.map_span_listing, ih]
    split
    · rw [List.map_append, state.map_span_listing, ih]
    · exact ih _

/-! ## Drafts are running statements -/

/-- The draft of a statement that is going on, and what the tokens show of it. -/
inductive Agrees : Option Draft → State → Prop where
  | between : Agrees none .between
  | running (first last : Token) (hasQuery : Bool) (parentheses braces : Nat) :
      Agrees
        (some ⟨first.span.start, last.span.stop, first.openingWord?, hasQuery, parentheses, braces⟩)
        ⟨some ⟨first, last, hasQuery⟩, parentheses, braces⟩

section Agrees

variable {source : List Char} {draft? : Option Draft} {state : State} (agrees : Agrees draft? state)
include agrees

theorem Agrees.isTopLevel : draft?.all Draft.isTopLevel = state.isTopLevel := by
  cases agrees <;> rfl

/-- The same statement ends on both sides. -/
theorem Agrees.close (semicolon? : Option Token) :
    (draft?.bind (Draft.finish source (semicolon?.map (·.span.stop)))).toList =
      state.listing source semicolon? := by
  cases agrees with
  | between => rfl
  | running first last =>
    simp only [Option.bind_some, Draft.finish, State.listing]
    cases first.openingWord? with
    | none => rfl
    | some word => cases semicolon? <;> rfl

end Agrees

/-- A word splits a draft where it splits the running statement. -/
theorem Agrees.splitsBefore {draft : Draft} {state : State} (agrees : Agrees (some draft) state)
    (word : OpeningWord) : draft.splitsBefore word = state.splitsBefore word := by
  cases agrees with
  | running first last hasQuery =>
    cases word
    case evaluate =>
      simp only [Draft.splitsBefore, State.splitsBefore, Draft.isTopLevel, State.isTopLevel,
        Option.any_some, bne, Bool.not_and, Bool.not_not]
    all_goals rfl

/-- The draft of the statement that goes on with a token, or begins with it. -/
def draftWith (draft? : Option Draft) (token : Token) : Draft where
  start := (draft?.map (·.start)).getD token.span.start
  stop := token.span.stop
  opening := (draft?.map (·.opening)).getD token.openingWord?
  hasQuery := draft?.any fun draft => draft.hasQuery || token.openingWord? == some .evaluate
  parentheses := parenthesesAfter token.kind ((draft?.map (·.parentheses)).getD 0)
  braces := bracesAfter token.kind ((draft?.map (·.braces)).getD 0)

theorem Agrees.add {draft? : Option Draft} {state : State} (agrees : Agrees draft? state)
    (token : Token) : Agrees (some (draftWith draft? token)) (state.add token) := by
  cases agrees with
  | between => exact .running token token false _ _
  | running first last hasQuery => exact .running first token _ _ _

/-- The draft that goes on to an offset without words and depths, or begins so. -/
def extended (draft? : Option Draft) (start stop : Nat) : Draft :=
  { draft?.getD (.begin start stop none) with stop := stop }

/-- Whether a token is none of the signs that matter to the outline. -/
def isPlain (kind : TokenKind) : Bool :=
  match kind with
  | .symbol .leftParen | .symbol .rightParen | .symbol .leftBrace | .symbol .rightBrace
  | .symbol .semicolon => false
  | _ => true

theorem depthsAfter_of_isPlain {kind : TokenKind} (plain : isPlain kind = true) (count : Nat) :
    parenthesesAfter kind count = count ∧ bracesAfter kind count = count := by
  cases kind with
  | symbol sign => cases sign <;> first | exact ⟨rfl, rfl⟩ | cases plain
  | _ => exact ⟨rfl, rfl⟩

theorem ne_semicolon_of_isPlain {kind : TokenKind} (plain : isPlain kind = true) :
    kind ≠ .symbol .semicolon := by
  rintro rfl
  cases plain

/-! ## What segments do to drafts -/

/-- A sign that matters to the outline. -/
def marks (char : Char) : Bool :=
  [';', '(', ')', '{', '}'].contains char

theorem addSign_of_not_marks {draft : Draft} {stop : Nat} {char : Char}
    (noMark : marks char = false) : draft.addSign stop char = { draft with stop := stop } := by
  unfold Draft.addSign
  split
  all_goals first | rfl | cases noMark

/-- Signs that do not matter extend the draft to their end. -/
theorem entries_signs {source : List Char} {draft? : Option Draft} {start : Nat}
    {spelling : List Char} (nonempty : spelling ≠ [])
    (noMarks : ∀ char ∈ spelling, marks char = false) (more : List Segment) :
    entries source draft? start (spelling.map .sign ++ more) =
      entries source (some (extended draft? start (start + byteLength spelling)))
        (start + byteLength spelling) more := by
  induction spelling generalizing draft? start with
  | nil => exact absurd rfl nonempty
  | cons char spelling ih =>
    rw [List.forall_mem_cons] at noMarks
    have noSemicolon : char ≠ ';' := by
      rintro rfl
      cases noMarks.1
    have first : step source draft? start (.sign char) =
        ([], some (extended draft? start (start + byteLength [char]))) := by
      simp only [step, Segment.spelling, noSemicolon, false_and, if_false,
        addSign_of_not_marks noMarks.1]
      cases draft? <;> rfl
    have reaches : start + byteLength [char] + byteLength spelling =
        start + byteLength (char :: spelling) := by
      simp only [byteLength_cons, byteLength_nil]
      omega
    rw [List.map_cons, List.cons_append, entries, first, List.nil_append]
    cases spelling with
    | nil => rfl
    | cons next spelling =>
      rw [ih (List.cons_ne_nil _ _) noMarks.2, Segment.spelling, reaches]
      cases draft? <;> rfl

section Steps

variable {source : List Char} {draft? : Option Draft} {state : State} {token : Token}
  {tokens : List Token} {more : List Segment} (agrees : Agrees draft? state)
  (later : ∀ {draft? : Option Draft} {state : State}, Agrees draft? state →
    entries source draft? token.span.stop more = listed source state tokens)
include agrees later

/-- Words begin statements, end them or go on with them. -/
theorem entries_word {spelling : List Char} (written : token.spelling = String.ofList spelling)
    (isWord : token.openingWord? = OpeningWord.ofWord? token.spelling)
    (plain : isPlain token.kind = true)
    (reaches : token.span.start + byteLength spelling = token.span.stop) :
    entries source draft? token.span.start (.word spelling :: more) =
      listed source state (token :: tokens) := by
  have depths := depthsAfter_of_isPlain plain
  have begins : Agrees (some (.begin token.span.start token.span.stop token.openingWord?))
      (State.between.add token) := by
    have same : draftWith none token =
        .begin token.span.start token.span.stop token.openingWord? := by
      simp [draftWith, Draft.begin, depths]
    rw [← same]
    exact Agrees.between.add token
  rw [entries, listed, if_neg fun both => ne_semicolon_of_isPlain plain both.1]
  simp only [step, Segment.spelling, reaches, ← written, ← isWord]
  cases draft? with
  | none =>
    cases agrees
    rw [show State.listing source .between none = [] from rfl, List.nil_append, List.nil_append,
      ite_self]
    exact later begins
  | some draft =>
    have goesOn : draftWith (some draft) token =
        draft.addWord token.span.stop token.openingWord? := by
      simp [draftWith, Draft.addWord, depths]
    have splits : token.openingWord?.any draft.splitsBefore =
        token.openingWord?.any state.splitsBefore := by
      cases token.openingWord? with
      | none => rfl
      | some word => exact agrees.splitsBefore word
    dsimp only
    rw [splits]
    split
    · rw [later begins]
      exact congrArg (· ++ _) (agrees.close none)
    · rw [List.nil_append, ← goesOn]
      exact later (agrees.add token)

/-- What is neither a word nor a sign that matters goes on with a statement or begins one. -/
theorem entries_extended (segments : List Segment) (noWord : token.openingWord? = none)
    (plain : isPlain token.kind = true)
    (silent : entries source draft? token.span.start (segments ++ more) =
      entries source (some (extended draft? token.span.start token.span.stop)) token.span.stop
        more) :
    entries source draft? token.span.start (segments ++ more) =
      listed source state (token :: tokens) := by
  have depths := depthsAfter_of_isPlain plain
  have goesOn : draftWith draft? token = extended draft? token.span.start token.span.stop := by
    cases draft? <;> simp [draftWith, extended, Draft.begin, depths, noWord]
  rw [silent, listed, if_neg fun both => ne_semicolon_of_isPlain plain both.1,
    if_neg (by simp [noWord]), ← goesOn]
  exact later (agrees.add token)

theorem entries_enclosed {spelling : List Char} (noWord : token.openingWord? = none)
    (plain : isPlain token.kind = true)
    (reaches : token.span.start + byteLength spelling = token.span.stop) :
    entries source draft? token.span.start (.enclosed spelling :: more) =
      listed source state (token :: tokens) := by
  refine entries_extended agrees later [.enclosed spelling] noWord plain ?_
  rw [List.singleton_append, entries]
  simp only [step, Segment.spelling, reaches]
  cases draft? <;> rfl

/-- A semicolon ends a statement, unless it stands in parentheses or braces. -/
theorem entries_semicolon (sign : token.kind = .symbol .semicolon)
    (reaches : token.span.start + byteLength [';'] = token.span.stop) :
    entries source draft? token.span.start (.sign ';' :: more) =
      listed source state (token :: tokens) := by
  have noWord : token.openingWord? = none := by rw [Token.openingWord?, sign]
  rw [entries, listed]
  simp only [step, Segment.spelling, reaches, true_and, sign, agrees.isTopLevel]
  split
  · rw [later .between]
    exact congrArg (· ++ _) (agrees.close (some token))
  · next nested =>
    rw [if_neg (by simp [noWord]), List.nil_append]
    have goesOn : draftWith draft? token =
        (draft?.getD (.begin token.span.start token.span.stop none)).addSign
          token.span.stop ';' := by
      cases agrees with
      | between => exact absurd rfl nested
      | running => simp [draftWith, Draft.addSign, noWord, sign, parenthesesAfter, bracesAfter]
    rw [← goesOn]
    exact later (agrees.add token)

/-- Parentheses and braces are counted. -/
theorem entries_depth {char : Char} {sign : Symbol} (isSign : token.kind = .symbol sign)
    (isDepth : (char, sign) ∈ [('(', Symbol.leftParen), (')', .rightParen), ('{', .leftBrace),
      ('}', .rightBrace)])
    (reaches : token.span.start + byteLength [char] = token.span.stop) :
    entries source draft? token.span.start (.sign char :: more) =
      listed source state (token :: tokens) := by
  have noWord : token.openingWord? = none := by rw [Token.openingWord?, isSign]
  have noSemicolon : char ≠ ';' ∧ sign ≠ .semicolon := by
    simp only [List.mem_cons, Prod.mk.injEq, List.not_mem_nil, or_false] at isDepth
    rcases isDepth with ⟨rfl, rfl⟩ | ⟨rfl, rfl⟩ | ⟨rfl, rfl⟩ | ⟨rfl, rfl⟩ <;> decide
  have goesOn : draftWith draft? token =
      (draft?.getD (.begin token.span.start token.span.stop none)).addSign
        token.span.stop char := by
    simp only [List.mem_cons, Prod.mk.injEq, List.not_mem_nil, or_false] at isDepth
    rcases isDepth with ⟨rfl, rfl⟩ | ⟨rfl, rfl⟩ | ⟨rfl, rfl⟩ | ⟨rfl, rfl⟩ <;> cases draft? <;>
      simp [draftWith, Draft.addSign, Draft.begin, noWord, isSign, parenthesesAfter, bracesAfter]
  rw [entries, listed, if_neg (by simp [isSign, noSemicolon.2]), if_neg (by simp [noWord])]
  simp only [step, Segment.spelling, reaches, noSemicolon.1, false_and, if_false, List.nil_append]
  rw [← goesOn]
  exact later (agrees.add token)

end Steps

end TokenOutline

end DaxScript
