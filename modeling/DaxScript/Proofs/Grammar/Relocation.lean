import DaxScript.Proofs.Grammar.Moving
import DaxScript.Proofs.Grammar.OperandDescription

/-!
# Reading relocated tokens

Where a token stands has no influence on how it is read.  A relocation gives every place in a
source to a place in another one; a production is natural when it reads relocated tokens as it
reads the tokens, and the value or the refusal is relocated with them (`Relocation.Natural`).

Nor does it matter what stands behind a semicolon, because no production reads on behind one: the
sign is looked at, or read and refused.  So a production that is given relocated tokens up to a
semicolon, and then whatever else, goes in step with one that is given the tokens
(`Exchange.Natural`).  Relocated tokens up to the end of the input are the special case in which
nothing is exchanged.

Every production is natural.  The proofs follow the productions step by step: readings one after
the other go in step one after the other (`Exchange.Moves.bind`), and what is left to show is that
the value made in the end is made from relocated parts.
-/

set_option autoImplicit false

namespace DaxScript

open Production

/-- Where the places of one source are found in another. -/
structure Relocation where
  offset : Nat → Nat
  position : Position → Position
  /-- What stands behind stays behind. -/
  monotone : ∀ {first second : Nat}, first ≤ second → offset first ≤ offset second
  /-- Positions and offsets go to the same places. -/
  consistent : ∀ place, (position place).offset = offset place.offset

namespace Relocation

variable (place : Relocation)

def span (span : Span) : Span :=
  span.moved place.offset

def token (token : Token) : Token :=
  { token with span := place.span token.span, position := place.position token.position }

def expr (expr : Expr) : Expr :=
  expr.moved place.offset

def refusal (refusal : Refusal) : Refusal :=
  { refusal with position := refusal.position.map place.position }

@[simp] theorem kind_token (token : Token) : (place.token token).kind = token.kind := rfl

@[simp] theorem spelling_token (token : Token) : (place.token token).spelling = token.spelling :=
  rfl

/-- The smallest span over two goes along with them. -/
theorem span_cover (first second : Span) :
    place.span (first.cover second) = (place.span first).cover (place.span second) := by
  have least : place.offset (min first.start second.start) =
      min (place.offset first.start) (place.offset second.start) := by
    rcases Nat.le_total first.start second.start with before | after
    · rw [Nat.min_eq_left before, Nat.min_eq_left (place.monotone before)]
    · rw [Nat.min_eq_right after, Nat.min_eq_right (place.monotone after)]
  have greatest : place.offset (max first.stop second.stop) =
      max (place.offset first.stop) (place.offset second.stop) := by
    rcases Nat.le_total first.stop second.stop with before | after
    · rw [Nat.max_eq_right before, Nat.max_eq_right (place.monotone before)]
    · rw [Nat.max_eq_left after, Nat.max_eq_left (place.monotone after)]
  simp only [span, Span.moved, Span.cover, least, greatest]

/-! ## Relocated readings -/

section Readings

variable {α : Type} {count : Nat} {tokens : List Token}

/-- What was read, relocated, given what becomes of the value. -/
def parsed (carry : α → α) (parsed : Parsed α count tokens) :
    Parsed α count (tokens.map place.token) :=
  ⟨carry parsed.value, parsed.rest.map place.token, by simpa using parsed.fits⟩

/-- The outcome of reading, relocated, given what becomes of the value. -/
def reading (carry : α → α) :
    Reading α count tokens → Reading α count (tokens.map place.token)
  | .ok parsed => .ok (place.parsed carry parsed)
  | .error refusal => .error (place.refusal refusal)

/-- One reading is another, relocated. -/
def Moves (carry : α → α) (original : Reading α count tokens)
    (moved : Reading α count (tokens.map place.token)) : Prop :=
  moved = place.reading carry original

/-- The production reads relocated tokens as it reads the tokens. -/
def Natural (carry : α → α) (production : Production α count) : Prop :=
  ∀ tokens, place.Moves carry (production tokens) (production (tokens.map place.token))

@[simp] theorem value_parsed (carry : α → α) (result : Parsed α count tokens) :
    (place.parsed carry result).value = carry result.value := rfl

@[simp] theorem rest_parsed (carry : α → α) (result : Parsed α count tokens) :
    (place.parsed carry result).rest = result.rest.map place.token := rfl

namespace Moves

variable {place} {carry : α → α} {original : Reading α count tokens}
  {moved : Reading α count (tokens.map place.token)} (moves : place.Moves carry original moved)
include moves

/-- What a relocated reading yields is relocated. -/
theorem yields {value : α} {rest : List Token} (reading : Yields moved value rest) :
    ∃ before left, Yields original before left ∧ value = carry before ∧
      rest = left.map place.token := by
  cases moves
  cases original with
  | error refusal => exact absurd reading Yields.not_error
  | ok result =>
    obtain ⟨rfl, rfl⟩ := Yields.ok_iff.mp reading
    exact ⟨result.value, result.rest, Yields.of_ok, rfl, rfl⟩

/-- What a reading yields is yielded by the relocated reading, relocated. -/
theorem carries {value : α} {rest : List Token} (reading : Yields original value rest) :
    Yields moved (carry value) (rest.map place.token) := by
  cases moves
  obtain ⟨result, rfl, rfl, rfl⟩ := reading
  exact Yields.of_ok

/-- A relocated reading is refused as the reading is. -/
theorem refuses {refusal : Refusal} (refused : original = .error refusal) :
    moved = .error (place.refusal refusal) := by
  rw [moves, refused]
  rfl

end Moves

end Readings

end Relocation

/-! ## Tokens in step -/

/-- A relocation, with what stands behind some tokens and what stands behind them in the new place.
That is nothing both times, or it begins with the same semicolon. -/
structure Exchange extends Relocation where
  behind : List Token
  instead : List Token
  ends : behind = [] ∧ instead = [] ∨
    ∃ sign more others, sign.kind = .symbol .semicolon ∧ behind = sign :: more ∧
      instead = toRelocation.token sign :: others

/-- A relocation with the end of the input behind all tokens. -/
def Relocation.toEnd (place : Relocation) : Exchange :=
  { place with behind := [], instead := [], ends := .inl ⟨rfl, rfl⟩ }

namespace Exchange

variable (exchange : Exchange)

/-- The second tokens are the first ones in their new place, up to what is exchanged. -/
inductive InStep : List Token → List Token → Prop where
  | stop : InStep exchange.behind exchange.instead
  | step (token : Token) {tokens others : List Token} (inStep : InStep tokens others) :
      InStep (token :: tokens) (exchange.token token :: others)

namespace InStep

variable {exchange} {tokens others : List Token} (inStep : exchange.InStep tokens others)
include inStep

/-- What is in front of the exchange, and the tokens with it. -/
theorem exists_front : ∃ front, tokens = front ++ exchange.behind ∧
    others = front.map exchange.token ++ exchange.instead := by
  induction inStep with
  | stop => exact ⟨[], rfl, rfl⟩
  | step token _ ih =>
    obtain ⟨front, rfl, rfl⟩ := ih
    exact ⟨token :: front, rfl, rfl⟩

/-- Tokens in step end together, or begin with the same token; and behind that they are in step,
unless it is a semicolon. -/
theorem cases : tokens = [] ∧ others = [] ∨ ∃ token rest rest', tokens = token :: rest ∧
    others = exchange.token token :: rest' ∧
      (token.kind ≠ .symbol .semicolon → exchange.InStep rest rest') := by
  cases inStep with
  | stop =>
    rcases exchange.ends with both | ⟨sign, more, others, isSign, behind, instead⟩
    · exact .inl both
    · exact .inr ⟨sign, more, others, behind, instead, fun noSign => absurd isSign noSign⟩
  | step token inStep => exact .inr ⟨token, _, _, rfl, rfl, fun _ => inStep⟩

theorem nextKind_eq : nextKind others = nextKind tokens := by
  rcases inStep.cases with ⟨rfl, rfl⟩ | ⟨token, rest, rest', rfl, rfl, _⟩
  · rfl
  · rfl

theorem nextPosition?_eq :
    nextPosition? others = (nextPosition? tokens).map exchange.position := by
  rcases inStep.cases with ⟨rfl, rfl⟩ | ⟨token, rest, rest', rfl, rfl, _⟩
  · rfl
  · rfl

theorem length_eq :
    others.length + exchange.behind.length = tokens.length + exchange.instead.length := by
  obtain ⟨front, rfl, rfl⟩ := inStep.exists_front
  simp only [List.length_append, List.length_map]
  omega

theorem length_pred_eq :
    others.length - 1 + exchange.behind.length = tokens.length - 1 + exchange.instead.length := by
  have lengths := inStep.length_eq
  rcases inStep.cases with ⟨rfl, rfl⟩ | ⟨token, rest, rest', rfl, rfl, _⟩
  · exact lengths
  · simp only [List.length_cons] at lengths ⊢
    omega

/-- Where something is exchanged there is a token to blame. -/
theorem nextPosition?_isSome (some : exchange.behind ≠ []) :
    (nextPosition? tokens).isSome = true := by
  obtain ⟨front, rfl, _⟩ := inStep.exists_front
  obtain ⟨token, more, same⟩ :=
    List.exists_cons_of_ne_nil (List.append_ne_nil_of_right_ne_nil front some)
  rw [same]
  rfl

end InStep

theorem inStep_append (front : List Token) :
    exchange.InStep (front ++ exchange.behind) (front.map exchange.token ++ exchange.instead) := by
  induction front with
  | nil => exact .stop
  | cons token front ih => exact .step token ih

/-! ## Readings in step -/

/-- The second refusal is the first one in its new place. -/
structure Refuses (refusal other : Refusal) : Prop where
  issue : other.issue = refusal.issue
  position : other.position = refusal.position.map exchange.position
  unread : other.unread + exchange.behind.length = refusal.unread + exchange.instead.length
  unseen : other.unseen + exchange.behind.length = refusal.unseen + exchange.instead.length
  placed : exchange.behind ≠ [] → refusal.position.isSome = true

section Readings

variable {α β γ : Type} {count : Nat} {tokens others : List Token}

/-- The second reading goes in step with the first one, given what becomes of the value. -/
inductive Moves (carry : α → α) : Reading α count tokens → Reading α count others → Prop where
  | ok {result : Parsed α count tokens} {other : Parsed α count others}
      (sameValue : other.value = carry result.value)
      (inStep : exchange.InStep result.rest other.rest) : Moves carry (.ok result) (.ok other)
  | error {refusal other : Refusal} (same : exchange.Refuses refusal other) :
      Moves carry (.error refusal) (.error other)

/-- The production goes in step with itself. -/
def Natural (carry : α → α) (production : Production α count) : Prop :=
  ∀ ⦃tokens others⦄, exchange.InStep tokens others →
    exchange.Moves carry (production tokens) (production others)

namespace Moves

variable {exchange} {carry : α → α}

/-- **Readings in two steps go in step one after the other.** -/
theorem bind {carryFirst : β → β} {between : Nat} {earlier earlier' : List Token}
    {first : Reading β between earlier} {first' : Reading β between earlier'}
    {further : Parsed β between earlier → Reading α count tokens}
    {further' : Parsed β between earlier' → Reading α count others}
    (moves : exchange.Moves carryFirst first first')
    (later : ∀ {rest rest'} value fits fits', exchange.InStep rest rest' →
      exchange.Moves carry (further ⟨value, rest, fits⟩)
        (further' ⟨carryFirst value, rest', fits'⟩)) :
    exchange.Moves carry (first >>= further) (first' >>= further') := by
  cases moves with
  | error same => exact .error same
  | @ok result other sameValue inStep =>
    obtain ⟨value, rest, fits⟩ := result
    obtain ⟨value', rest', fits'⟩ := other
    subst sameValue
    exact later value fits fits' inStep

/-- The same readings under the same condition. -/
theorem ite {condition condition' : Prop} [Decidable condition] [Decidable condition']
    {holds otherwise : Reading α count tokens} {holds' otherwise' : Reading α count others}
    (same : condition' ↔ condition)
    (ifHolds : condition → exchange.Moves carry holds holds')
    (ifNot : ¬condition → exchange.Moves carry otherwise otherwise') :
    exchange.Moves carry (if condition then holds else otherwise)
      (if condition' then holds' else otherwise') := by
  by_cases truth : condition
  · rw [if_pos truth, if_pos (same.mpr truth)]
    exact ifHolds truth
  · rw [if_neg truth, if_neg (fun truth' => truth (same.mp truth'))]
    exact ifNot truth

end Moves

end Readings

/-! ## Refusals and single tokens -/

section Refusals

variable {exchange} {tokens others : List Token} (inStep : exchange.InStep tokens others)
include inStep

/-- A refusal to which reading has gone on from the token to blame. -/
theorem InStep.refuses {rest rest' : List Token} (left : exchange.InStep rest rest')
    (issue : Issue) : exchange.Refuses ⟨issue, nextPosition? tokens, rest.length, rest.length⟩
      ⟨issue, nextPosition? others, rest'.length, rest'.length⟩ :=
  ⟨rfl, inStep.nextPosition?_eq, left.length_eq, left.length_eq, inStep.nextPosition?_isSome⟩

theorem InStep.refuse (issue : Issue) :
    exchange.Refuses (Production.refuse tokens issue) (Production.refuse others issue) :=
  inStep.refuses inStep issue

theorem InStep.expected (expectation : Expectation) :
    exchange.Refuses (Production.expected tokens expectation)
      (Production.expected others expectation) := by
  rw [Production.expected, Production.expected, inStep.nextKind_eq]
  exact inStep.refuse _

theorem InStep.reject (issue : Issue) :
    exchange.Refuses (Production.reject tokens issue) (Production.reject others issue) :=
  ⟨rfl, inStep.nextPosition?_eq, inStep.length_pred_eq, inStep.length_eq,
    inStep.nextPosition?_isSome⟩

end Refusals

theorem natural_symbol {sign : Symbol} (noSemicolon : sign ≠ .semicolon) :
    exchange.Natural exchange.token (symbol sign) := by
  intro tokens others inStep
  rcases inStep.cases with ⟨rfl, rfl⟩ | ⟨token, rest, rest', rfl, rfl, onward⟩
  · exact .error (inStep.expected _)
  · refine .ite Iff.rfl (fun isSign => .ok rfl (onward ?_)) fun _ => .error (inStep.expected _)
    simpa [isSign] using noSemicolon

theorem natural_keyword (word : Keyword) : exchange.Natural exchange.token (keyword word) := by
  intro tokens others inStep
  rcases inStep.cases with ⟨rfl, rfl⟩ | ⟨token, rest, rest', rfl, rfl, onward⟩
  · exact .error (inStep.expected _)
  · refine .ite Iff.rfl (fun isWord => .ok rfl (onward ?_)) fun _ => .error (inStep.expected _)
    simp [isWord]

/-! ## Repetition -/

section Repetition

variable {exchange} {α : Type} {carry : α → α} {count : Nat}

theorem natural_manyWhile {item : Production α 1} (natural : exchange.Natural carry item)
    (continues : TokenKind → Bool) :
    exchange.Natural (List.map carry) (manyWhile continues item) := by
  intro tokens others inStep
  induction counted : tokens.length using Nat.strongRecOn generalizing tokens others with
  | ind length ih =>
    rw [manyWhile, manyWhile]
    refine .ite (by rw [inStep.nextKind_eq]) (fun _ => ?_) fun _ => .ok rfl inStep
    refine .bind (natural inStep) @fun rest _ first fits _ inStep => ?_
    have shorter : rest.length < length := by omega
    refine .bind (ih _ shorter inStep rfl) fun others _ _ inStep => ?_
    exact .ok rfl inStep

theorem natural_foldWhile {step : α → Production α 1}
    (natural : ∀ state {tokens others}, exchange.InStep tokens others →
      exchange.Moves carry (step state tokens) (step (carry state) others))
    (continues : TokenKind → Bool) (state : α) {tokens others : List Token}
    (inStep : exchange.InStep tokens others) :
    exchange.Moves carry (foldWhile continues step state tokens)
      (foldWhile continues step (carry state) others) := by
  induction counted : tokens.length using Nat.strongRecOn generalizing tokens others state with
  | ind length ih =>
    rw [foldWhile, foldWhile]
    refine .ite (by rw [inStep.nextKind_eq]) (fun _ => ?_) fun _ => .ok rfl inStep
    refine .bind (natural state inStep) @fun rest _ next fits _ inStep => ?_
    have shorter : rest.length < length := by omega
    refine .bind (ih _ shorter next inStep rfl) fun last _ _ inStep => ?_
    exact .ok rfl inStep

theorem natural_weaken {item : Production α count} (natural : exchange.Natural carry item) :
    exchange.Natural carry (Production.weaken item) := by
  intro tokens others inStep
  exact .bind (natural inStep) fun _ _ _ inStep => .ok rfl inStep

theorem natural_afterComma {item : Production α 0} (natural : exchange.Natural carry item) :
    exchange.Natural carry (afterComma item) := by
  intro tokens others inStep
  refine .bind (exchange.natural_symbol (by decide) inStep) fun comma _ _ inStep => ?_
  refine .bind (natural inStep) fun next _ _ inStep => ?_
  exact .ok rfl inStep

theorem natural_separated {item : Production α count} (natural : exchange.Natural carry item) :
    exchange.Natural (List.map carry) (separated item) := by
  intro tokens others inStep
  refine .bind (natural inStep) fun first _ _ inStep => ?_
  have further := natural_manyWhile (natural_afterComma (natural_weaken natural)) (isSymbol .comma)
  refine .bind (further inStep) fun values _ _ inStep => ?_
  exact .ok rfl inStep

theorem natural_separatedUnless {item : Production α count}
    (natural : exchange.Natural carry item) (close : Symbol) :
    exchange.Natural (List.map carry) (separatedUnless close item) := by
  intro tokens others inStep
  refine .ite (by rw [inStep.nextKind_eq]) (fun _ => .ok rfl inStep) fun _ => ?_
  exact natural_weaken (natural_separated natural) inStep

end Repetition

end Exchange

/-! ## Up to the end of the input -/

namespace Relocation

variable {place : Relocation} {α : Type} {count : Nat} {carry : α → α}

theorem inStep_map (place : Relocation) (tokens : List Token) :
    place.toEnd.InStep tokens (tokens.map place.token) := by
  have inStep := place.toEnd.inStep_append tokens
  change place.toEnd.InStep (tokens ++ []) (tokens.map place.token ++ []) at inStep
  rwa [List.append_nil, List.append_nil] at inStep

/-- A reading up to the end of the input that goes in step is relocated. -/
theorem moves_of_toEnd {tokens : List Token} {original : Reading α count tokens}
    {moved : Reading α count (tokens.map place.token)}
    (moves : place.toEnd.Moves carry original moved) : place.Moves carry original moved := by
  cases moves with
  | @ok result other sameValue inStep =>
    obtain ⟨value, rest, fits⟩ := result
    obtain ⟨value', rest', fits'⟩ := other
    obtain ⟨front, same, same'⟩ := inStep.exists_front
    obtain rfl : rest = front := same.trans (List.append_nil front)
    obtain rfl : rest' = rest.map place.token := same'.trans (List.append_nil _)
    subst sameValue
    rfl
  | @error refusal other same =>
    obtain ⟨issue, position, unread, unseen, _⟩ := same
    obtain ⟨issue', position', unread', unseen'⟩ := other
    subst issue position
    obtain rfl : unread' = refusal.unread := unread
    obtain rfl : unseen' = refusal.unseen := unseen
    rfl

theorem natural_of_toEnd {production : Production α count}
    (natural : place.toEnd.Natural carry production) : place.Natural carry production :=
  fun tokens => moves_of_toEnd (natural (place.inStep_map tokens))

end Relocation

end DaxScript
