import DaxScript.Grammar.Input
import DaxScript.Grammar.Statement

/-!
# Reading a script statement by statement

A script is read in turns.  A turn reads one statement, or passes over one that is not supported,
or is refused in the middle of one and goes on behind it.  Reading goes on at the next semicolon
or the next keyword that begins a statement, outside of all parentheses and braces opened since.

What a turn brings about is told in moments, each with the number of tokens that nobody had
looked at then.  With these numbers the diagnostics about single tokens can be put in their places
between the events (`Turn.events`).
-/

set_option autoImplicit false

namespace DaxScript

/-- Something that a script reader reports. -/
inductive Event where
  | diagnosed (diagnostic : Diagnostic)
  /-- A statement that defines the measure has been read to its end. -/
  | defined (measure : Measure)
  /-- A `CREATE` statement about something else is passed over. -/
  | passedCreate (object : TokenKind) (position : Position)
  /-- Another statement is passed over. -/
  | passed (first : TokenKind) (position : Position)
  deriving DecidableEq

/-- An instant in the reading of a script. -/
structure Moment where
  /-- How many tokens, the end of the input counted as one, had not been looked at. -/
  unseen : Nat
  events : List Event
  deriving DecidableEq

/-- What happens in one turn, and what is left to read. -/
structure Turn where
  moments : List Moment
  rest : List Token

namespace Turn

/-! ## Passing over the rest of a statement -/

/-- The moment at which the rest of a statement has been passed over, and what is left.  Closing
signs that nobody opened are ignored. -/
def pass (depth : Nat) : List Token → Moment × List Token
  | [] => (⟨0, []⟩, [])
  | token :: rest =>
    let here : Moment := ⟨rest.length + 1, []⟩
    match token.kind with
    | .symbol .semicolon => if depth = 0 then (here, rest) else pass depth rest
    | .keyword word =>
      if depth = 0 ∧ word.startsStatement then (here, token :: rest) else pass depth rest
    | .symbol .leftParen | .symbol .leftBrace => pass (depth + 1) rest
    | .symbol .rightParen | .symbol .rightBrace => pass (depth - 1) rest
    | _ => pass depth rest

theorem length_pass_le (depth : Nat) (tokens : List Token) :
    (pass depth tokens).2.length ≤ tokens.length := by
  induction tokens generalizing depth with
  | nil => simp [pass]
  | cons token rest ih =>
    have smaller := fun depth => Nat.le_succ_of_le (ih depth)
    unfold pass
    simp only [List.length_cons]
    split <;> try split
    all_goals first | exact smaller _ | simp

/-- Passes over the rest of a statement after something has happened. -/
def passAfter (happened : Moment) (tokens : List Token) : Turn :=
  let passed := pass 0 tokens
  ⟨[happened, passed.1], passed.2⟩

/-! ## Single turns -/

/-- The turn that a statement makes once it has been read. -/
def ofStatement (source : List Char) (statement : Statement) (tokens rest : List Token) : Turn :=
  match statement with
  | .unsupported first =>
    passAfter ⟨tokens.length, [.passed first.kind first.position]⟩ rest
  | .createOther create object =>
    passAfter ⟨rest.length, [.passedCreate object create.position]⟩ rest
  | statement =>
    ⟨[⟨rest.length, statement.measures.map fun clause => .defined (.ofClause source clause)⟩],
      rest⟩

/-- The turn of a statement that is refused.  Its first token has been read in any case. -/
def ofRefusal (finish : Position) (refusal : Refusal) (rest : List Token) : Turn :=
  passAfter ⟨refusal.unseen, [.diagnosed (refusal.diagnostic finish)]⟩
    (rest.drop (rest.length - refusal.unread))

/-- The turn that begins with a token.  The token is looked at in any case, and a semicolon makes a
turn of its own. -/
def ofTokens (source : List Char) (finish : Position) (first : Token) (rest : List Token) : Turn :=
  let turn :=
    if first.kind = .symbol .semicolon then ⟨[], rest⟩
    else
      match Production.statement first rest with
      | .ok parsed => ofStatement source parsed.value (first :: rest) parsed.rest
      | .error refusal => ofRefusal finish refusal rest
  { turn with moments := ⟨rest.length + 1, []⟩ :: turn.moments }

theorem length_passAfter_le (happened : Moment) (tokens : List Token) :
    (passAfter happened tokens).rest.length ≤ tokens.length :=
  length_pass_le 0 tokens

theorem length_ofStatement_le (source : List Char) (statement : Statement)
    (tokens rest : List Token) :
    (ofStatement source statement tokens rest).rest.length ≤ rest.length := by
  unfold ofStatement
  split
  · exact length_passAfter_le _ _
  · exact length_passAfter_le _ _
  · exact Nat.le_refl _

/-- **Every turn reads at least one token.** -/
theorem length_ofTokens_lt (source : List Char) (finish : Position) (first : Token)
    (rest : List Token) : (ofTokens source finish first rest).rest.length < rest.length + 1 := by
  unfold ofTokens
  simp only
  split
  · exact Nat.lt_succ_self _
  split
  · next parsed _ =>
    have read : parsed.rest.length + 1 ≤ rest.length + 1 := parsed.fits
    have := length_ofStatement_le source parsed.value (first :: rest) parsed.rest
    omega
  · next refusal _ =>
    have := length_passAfter_le ⟨refusal.unseen, [.diagnosed (refusal.diagnostic finish)]⟩
      (rest.drop (rest.length - refusal.unread))
    simp only [List.length_drop] at this
    simp only [ofRefusal]
    omega

/-! ## All turns -/

/-- The turns of a list of tokens.  In the last one the end of the input is looked at. -/
def all (source : List Char) (finish : Position) (tokens : List Token) : List Turn :=
  match tokens with
  | [] => [⟨[⟨0, []⟩], []⟩]
  | first :: rest =>
    let turn := ofTokens source finish first rest
    turn :: all source finish turn.rest
termination_by tokens.length
decreasing_by exact length_ofTokens_lt source finish first rest

/-- The events of a turn in the order in which they are reported, and the groups of diagnostics
about tokens that are left for later turns.  A group is reported as soon as its token has been
looked at. -/
def events (faults : List (List Diagnostic)) : List Moment → List Event × List (List Diagnostic)
  | [] => ([], faults)
  | moment :: moments =>
    let due := faults.length - moment.unseen
    let later := events (faults.drop due) moments
    ((faults.take due).flatten.map .diagnosed ++ moment.events ++ later.1, later.2)

/-- The events of all turns, turn by turn. -/
def allEvents (faults : List (List Diagnostic)) : List Turn → List (List Event)
  | [] => []
  | turn :: turns =>
    let reported := events faults turn.moments
    reported.1 :: allEvents reported.2 turns

end Turn

end DaxScript
