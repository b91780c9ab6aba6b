import DaxScript.Grammar.Issue

/-!
# Productions

A production reads something off the front of a list of tokens.  The list holds the tokens that
mean something to the grammar; where it ends, the input ends.

What is left after reading is shorter by as many tokens as the production promises to read, and
the promise is part of the result (`Parsed.fits`).  So a production that repeats another one ends
because its list gets shorter, and needs no other reason.

A refusal says where it was found and how far the reading had come.  Two counts tell the latter:
how many tokens were left unread, which is where reading resumes, and how many had not even been
looked at, since the diagnostics of a token are told when it is looked at first.
-/

set_option autoImplicit false

namespace DaxScript

/-- Why reading stopped, and where. -/
structure Refusal where
  issue : Issue
  /-- The position of the token to blame, or `none` for the end of the input. -/
  position : Option Position
  /-- How many tokens were left unread. -/
  unread : Nat
  /-- How many tokens, the end of the input counted as one, had not been looked at. -/
  unseen : Nat
  deriving DecidableEq

/-- The diagnostic that tells of a refusal, given the position of the end of the input. -/
def Refusal.diagnostic (refusal : Refusal) (finish : Position) : Diagnostic :=
  .error refusal.issue.kind refusal.issue.message (refusal.position.getD finish)

/-- What was read off the front of a list of tokens, at least `count` of them. -/
structure Parsed (α : Type) (count : Nat) (tokens : List Token) where
  value : α
  rest : List Token
  fits : rest.length + count ≤ tokens.length

namespace Parsed

variable {α β : Type} {count : Nat} {tokens rest : List Token}

/-- A value for which no token is read. -/
def nothing (value : α) (tokens : List Token) : Parsed α 0 tokens :=
  ⟨value, tokens, Nat.le_refl _⟩

/-- A value that is read from a single token. -/
def single (value : α) (token : Token) (rest : List Token) : Parsed α 1 (token :: rest) :=
  ⟨value, rest, Nat.le_refl _⟩

/-- The same reading with another value made of the one that was read. -/
def map (make : α → β) (parsed : Parsed α count tokens) : Parsed β count tokens :=
  ⟨make parsed.value, parsed.rest, parsed.fits⟩

/-- The same reading without a promise. -/
def weaken (parsed : Parsed α count tokens) : Parsed α 0 tokens :=
  ⟨parsed.value, parsed.rest, Nat.le_trans (Nat.le_add_right _ count) parsed.fits⟩

/-- The same reading with one more token in front of it. -/
def behind (token : Token) (parsed : Parsed α count rest) : Parsed α 1 (token :: rest) :=
  ⟨parsed.value, parsed.rest,
    Nat.succ_le_succ (Nat.le_trans (Nat.le_add_right _ count) parsed.fits)⟩

@[simp] theorem value_nothing (value : α) (tokens : List Token) :
    (nothing value tokens).value = value := rfl

@[simp] theorem rest_nothing (value : α) (tokens : List Token) :
    (nothing value tokens).rest = tokens := rfl

@[simp] theorem value_single (value : α) (token : Token) (rest : List Token) :
    (single value token rest).value = value := rfl

@[simp] theorem rest_single (value : α) (token : Token) (rest : List Token) :
    (single value token rest).rest = rest := rfl

@[simp] theorem value_map (make : α → β) (parsed : Parsed α count tokens) :
    (parsed.map make).value = make parsed.value := rfl

@[simp] theorem rest_map (make : α → β) (parsed : Parsed α count tokens) :
    (parsed.map make).rest = parsed.rest := rfl

@[simp] theorem value_weaken (parsed : Parsed α count tokens) :
    parsed.weaken.value = parsed.value := rfl

@[simp] theorem rest_weaken (parsed : Parsed α count tokens) :
    parsed.weaken.rest = parsed.rest := rfl

@[simp] theorem value_behind (token : Token) (parsed : Parsed α count rest) :
    (parsed.behind token).value = parsed.value := rfl

@[simp] theorem rest_behind (token : Token) (parsed : Parsed α count rest) :
    (parsed.behind token).rest = parsed.rest := rfl

end Parsed

/-- The outcome of reading off the front of a list of tokens. -/
abbrev Reading (α : Type) (count : Nat) (tokens : List Token) : Type :=
  Except Refusal (Parsed α count tokens)

/-- A rule for reading a value from at least `count` tokens. -/
abbrev Production (α : Type) (count : Nat) : Type :=
  (tokens : List Token) → Reading α count tokens

/-- The kind of the next token; after the last one comes the end of the input. -/
def nextKind : List Token → TokenKind
  | [] => .endOfInput
  | token :: _ => token.kind

/-- Where the next token stands, or `none` at the end of the input. -/
def nextPosition? (tokens : List Token) : Option Position :=
  tokens.head?.map (·.position)

namespace Production

variable {α β : Type} {count : Nat}

/-! ## Refusals -/

/-- Refuses the next token and leaves it unread. -/
def refuse (tokens : List Token) (issue : Issue) : Refusal :=
  ⟨issue, nextPosition? tokens, tokens.length, tokens.length⟩

/-- Refuses the next token as not the expected one and leaves it unread. -/
def expected (tokens : List Token) (expectation : Expectation) : Refusal :=
  refuse tokens (.unexpected (nextKind tokens) expectation)

/-- Refuses the next token after reading it. -/
def reject (tokens : List Token) (issue : Issue) : Refusal :=
  ⟨issue, nextPosition? tokens, tokens.length - 1, tokens.length⟩

/-! ## Single tokens -/

/-- Reads a sign. -/
def symbol (sign : Symbol) : Production Token 1
  | [] => .error (expected [] (.symbol sign))
  | token :: rest =>
    if token.kind = .symbol sign then .ok (.single token token rest)
    else .error (expected (token :: rest) (.symbol sign))

/-- Reads a keyword. -/
def keyword (word : Keyword) : Production Token 1
  | [] => .error (expected [] (.keyword word))
  | token :: rest =>
    if token.kind = .keyword word then .ok (.single token token rest)
    else .error (expected (token :: rest) (.keyword word))

/-- Reads nothing, and only at the end of the input. -/
def finish (tokens : List Token) : Except Refusal Unit :=
  if tokens.isEmpty then .ok () else .error (expected tokens .endOfInput)

/-! ## Repetition -/

/-- Reads items for as long as the next token asks for one. -/
def manyWhile (continues : TokenKind → Bool) (item : Production α 1) (tokens : List Token) :
    Reading (List α) 0 tokens :=
  if continues (nextKind tokens) then do
    let first ← item tokens
    let others ← manyWhile continues item first.rest
    .ok ⟨first.value :: others.value, others.rest, by
      have := first.fits
      have := others.fits
      omega⟩
  else .ok (.nothing [] tokens)
termination_by tokens.length
decreasing_by
  have := first.fits
  omega

/-- Reads items into a state for as long as the next token asks for one. -/
def foldWhile (continues : TokenKind → Bool) (step : β → Production β 1) (state : β)
    (tokens : List Token) : Reading β 0 tokens :=
  if continues (nextKind tokens) then do
    let next ← step state tokens
    let last ← foldWhile continues step next.value next.rest
    .ok ⟨last.value, last.rest, by
      have := next.fits
      have := last.fits
      omega⟩
  else .ok (.nothing state tokens)
termination_by tokens.length
decreasing_by
  have := next.fits
  omega

/-- Whether a token is a given sign. -/
def isSymbol (sign : Symbol) (kind : TokenKind) : Bool :=
  kind == .symbol sign

/-- Whether a token is a given keyword. -/
def isKeyword (word : Keyword) (kind : TokenKind) : Bool :=
  kind == .keyword word

/-- Reads a comma and an item. -/
def afterComma (item : Production α 0) (tokens : List Token) : Reading α 1 tokens := do
  let comma ← symbol .comma tokens
  let next ← item comma.rest
  .ok ⟨next.value, next.rest, by
    have := comma.fits
    have := next.fits
    omega⟩

/-- Reads a comma and an item for as long as there is a comma. -/
def commaSeparated (item : Production α 0) : Production (List α) 0 :=
  manyWhile (isSymbol .comma) (afterComma item)

/-- Forgets how much a production reads. -/
def weaken (item : Production α count) (tokens : List Token) : Reading α 0 tokens := do
  let next ← item tokens
  .ok next.weaken

/-- Reads items separated by commas, at least one. -/
def separated (item : Production α count) (tokens : List Token) :
    Reading (List α) count tokens := do
  let first ← item tokens
  let others ← commaSeparated (weaken item) first.rest
  .ok ⟨first.value :: others.value, others.rest, by
    have := first.fits
    have := others.fits
    omega⟩

/-- Reads nothing where the closing sign comes at once, and otherwise items separated by
commas. -/
def separatedUnless (close : Symbol) (item : Production α count) (tokens : List Token) :
    Reading (List α) 0 tokens :=
  if isSymbol close (nextKind tokens) then .ok (.nothing [] tokens)
  else weaken (separated item) tokens

end Production

end DaxScript
