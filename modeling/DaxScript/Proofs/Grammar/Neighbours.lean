import DaxScript.Proofs.Grammar.DataRows
import DaxScript.Proofs.Grammar.Subtrees

/-!
# Tokens side by side

Between a sign that opens a position and one that closes it nothing stands.  In an expression this
happens in three ways: arguments or filters are left out all together, braces have nothing in them,
or a cell is left out of a row of data (`Gap`).  And where a table of data begins, its columns and
rows follow (`DataText`).

What is known of two tokens side by side (`Neighbours`) stays true when further tokens stand on
either side.  So it is known of all tokens of an expression if it is known of the parts and of the
two tokens where the parts meet (`Orderly.append`).

A form is found where it is read from: from its first token on, or from parentheses that are opened
directly in front of it (`Expr.HasAround`).
-/

set_option autoImplicit false

namespace DaxScript

open Production TokenOutline

/-! ## Signs that open and close positions -/

namespace TokenKind

/-- Whether a position begins behind a token. -/
def opensPosition : TokenKind → Bool
  | symbol .leftParen | symbol .leftBrace | symbol .comma => true
  | _ => false

/-- Whether a position ends in front of a token. -/
def closesPosition : TokenKind → Bool
  | symbol .rightParen | symbol .rightBrace | symbol .comma => true
  | _ => false

/-- Whether something ends with a token, so that the next one may be anything. -/
def endsSomething (kind : TokenKind) : Bool :=
  !kind.opensPosition && kind != keyword .dataTable

end TokenKind

/-! ## Parentheses in front -/

/-- Some tokens that follow each other in a source. -/
structure Stretch (source used : List Token) : Prop where
  part : used <:+: source
  ordered : InOrder source
  solid : ∀ token ∈ source, token.span.start < token.span.stop

/-- From one offset of a source to another nothing stands but parentheses that are opened. -/
structure OnlyParens (source : List Token) (start stop : Nat) : Prop where
  le : start ≤ stop
  parens : ∀ token ∈ source, start ≤ token.span.start → token.span.start < stop →
    token.kind = .symbol .leftParen

namespace OnlyParens

variable {source : List Token} {first second third : Nat}

theorem refl (offset : Nat) : OnlyParens source offset offset :=
  ⟨Nat.le_refl _, fun _ _ starts stops => absurd starts (Nat.not_le_of_lt stops)⟩

theorem trans (front : OnlyParens source first second) (behind : OnlyParens source second third) :
    OnlyParens source first third := by
  refine ⟨Nat.le_trans front.le behind.le, fun token member starts stops => ?_⟩
  rcases Nat.lt_or_ge token.span.start second with inFront | isBehind
  · exact front.parens token member starts inFront
  · exact behind.parens token member isBehind stops

end OnlyParens

namespace Stretch

variable {source first second : List Token} {token : Token}

theorem inOrder (stretch : Stretch source first) : InOrder first := by
  obtain ⟨⟨before, after, rfl⟩, ordered, _⟩ := stretch
  exact ordered.left.right

theorem left (stretch : Stretch source (first ++ second)) : Stretch source first :=
  { stretch with part := (List.infix_append' [] first second).trans stretch.part }

theorem right (stretch : Stretch source (first ++ second)) : Stretch source second :=
  { stretch with part := (List.suffix_append first second).isInfix.trans stretch.part }

theorem tail (stretch : Stretch source (token :: first)) : Stretch source first :=
  { stretch with part := (List.suffix_cons token first).isInfix.trans stretch.part }

/-- Between a parenthesis and the token behind it there is no other token. -/
theorem onlyParens {opening : Token} (stretch : Stretch source (opening :: token :: first))
    (opens : opening.kind = .symbol .leftParen) :
    OnlyParens source opening.span.start token.span.start := by
  obtain ⟨⟨before, after, rfl⟩, ordered, solid⟩ := stretch
  rw [List.append_assoc, List.cons_append, List.cons_append] at ordered solid ⊢
  have inFront : InOrder ([opening] ++ token :: (first ++ after)) := ordered.right
  have behind : InOrder ([token] ++ (first ++ after)) := ordered.right.tail
  have apart := inFront.stop_le (.head _) (.head _)
  have forward := inFront.forward opening (.head _)
  refine ⟨Nat.le_trans forward apart, fun other member starts stops => ?_⟩
  rcases List.mem_append.mp member with isBefore | others
  · have ends := ordered.stop_le isBefore (.head _)
    have some := solid other member
    omega
  rcases List.mem_cons.mp others with rfl | others
  · exact opens
  rcases List.mem_cons.mp others with rfl | isBehind
  · exact absurd stops (Nat.lt_irrefl _)
  · have begins := behind.stop_le (.head _) isBehind
    have some := behind.forward token (.head _)
    omega

end Stretch

/-! ## Forms around some part of a source -/

/-- A form that is read from one offset of a source to another, or to one behind it.  In front of
the first offset it may have parentheses of its own. -/
def Expr.HasAround (source : List Token) (expr : Expr) (form : Form Expr) (start stop : Nat) :
    Prop :=
  ∃ node : Expr, node.Subtree expr ∧ node.form = form ∧
    OnlyParens source node.span.start start ∧ stop ≤ node.span.stop

namespace Expr.HasAround

variable {source : List Token} {expr child : Expr} {form : Form Expr} {start stop : Nat}

theorem of_child (around : child.HasAround source form start stop)
    (member : child ∈ expr.children) : expr.HasAround source form start stop := by
  obtain ⟨node, inside, found⟩ := around
  exact ⟨node, .under member inside, found⟩

theorem self {span : Span} (starts : span.start = start) (stops : stop ≤ span.stop) :
    (Expr.node form span).HasAround source form start stop :=
  ⟨_, .self, rfl, starts ▸ .refl _, stops⟩

/-- What is read from an offset on is so with parentheses around it. -/
theorem withSpan {span : Span} (around : expr.HasAround source form start stop)
    (parens : OnlyParens source span.start expr.span.start)
    (stops : expr.span.stop ≤ span.stop) :
    (expr.withSpan span).HasAround source form start stop := by
  obtain ⟨node, inside, isForm, before, behind⟩ := around
  rcases inside.eq_or_below with rfl | ⟨child, member, inside⟩
  · exact ⟨_, .self, isForm, parens.trans before, Nat.le_trans behind stops⟩
  · exact ⟨node, .under member inside, isForm, before, behind⟩

end Expr.HasAround

/-! ## Two tokens side by side -/

/-- What is read around parts of the source. -/
abbrev Surroundings : Type :=
  Form Expr → Nat → Nat → Prop

/-- What is found around some part is found again, apart from tuples, which may be rows. -/
def Surroundings.Within (found more : Surroundings) : Prop :=
  ∀ ⦃form : Form Expr⦄ ⦃start stop : Nat⦄, (∀ values, form ≠ .tuple values) →
    found form start stop → more form start stop

/-- How nothing may stand between two tokens, given what stands in front of them. -/
inductive Gap (found : Surroundings) (inRow : List Token → Prop) (before : List Token)
    (first second : Token) : Prop where
  | arguments {lead : List Token} {token : Token} {name : String} (split : before = lead ++ [token])
      (named : token.kind.functionName? = some name)
      (opens : first.kind = .symbol .leftParen) (closes : second.kind = .symbol .rightParen)
      (around : found (.call name []) token.span.start second.span.stop)
  | filters {lead : List Token} {token : Token} {name : String} {target : Expr} {start : Nat}
      (split : before = lead ++ [token]) (named : token.kind = .bracketName name)
      (opens : first.kind = .symbol .leftParen) (closes : second.kind = .symbol .rightParen)
      (starts : start ≤ token.span.start)
      (around : found (.calculate target []) start second.span.stop)
  | braces (opens : first.kind = .symbol .leftBrace) (closes : second.kind = .symbol .rightBrace)
  | cell (opens : first.kind = .symbol .leftBrace ∨ first.kind = .symbol .comma)
      (closes : second.kind = .symbol .rightBrace ∨ second.kind = .symbol .comma)
      (inside : inRow (before ++ [first]))

/-- What stands behind the word of a table of data and its parenthesis. -/
inductive DataText (found : Surroundings) (word : Token) : List Token → Prop where
  | intro {heads body behind : List Token} {opening closing last : Token}
      {columns : List Column} {rows : List (List (Option Expr))}
      (plain : ∀ head ∈ heads, isPlain head.kind = true)
      (opens : opening.kind = .symbol .leftBrace) (laid : IsDataRows body rows)
      (closes : closing.kind = .symbol .rightBrace)
      (inside : ∀ token ∈ body, token.span.stop ≤ last.span.stop)
      (around : found (.dataTable columns rows) word.span.start last.span.stop) :
      DataText found word (heads ++ opening :: (body ++ closing :: last :: behind))

/-- What is known of two tokens side by side, given what stands in front of and behind them. -/
structure Neighbours (found : Surroundings) (inRow : List Token → Prop) (before : List Token)
    (first second : Token) (after : List Token) : Prop where
  gap : first.kind.opensPosition = true → second.kind.closesPosition = true →
    Gap found inRow before first second
  data : first.kind = .keyword .dataTable → second.kind = .symbol .leftParen →
    DataText found first after

section Meeting

variable {found : Surroundings} {inRow : List Token → Prop} {before after : List Token}
  {first second : Token}

theorem Neighbours.of_ends (ends : first.kind.endsSomething = true) :
    Neighbours found inRow before first second after := by
  obtain ⟨notOpen, notTable⟩ := Bool.and_eq_true_iff.mp ends
  constructor
  · intro opens _
    rw [opens] at notOpen
    cases notOpen
  · intro named _
    rw [named] at notTable
    cases notTable

theorem Neighbours.of_isPlain (noComma : second.kind ≠ .symbol .comma)
    (plain : isPlain second.kind = true) : Neighbours found inRow before first second after := by
  constructor
  · intro _ closes
    unfold TokenKind.closesPosition at closes
    split at closes
    all_goals simp_all [isPlain]
  · intro _ opens
    rw [opens] at plain
    cases plain

theorem Neighbours.of_begins (noTable : first.kind ≠ .keyword .dataTable)
    (begins : second.kind.closesPosition = false) :
    Neighbours found inRow before first second after := by
  constructor
  · intro _ closes
    rw [begins] at closes
    cases closes
  · intro named _
    exact absurd named noTable

/-- More may stand in front and behind, and more may be found around. -/
theorem Neighbours.mono {found' : Surroundings} {inRow' : List Token → Prop}
    (known : Neighbours found inRow before first second after)
    (within : found.Within found') (lead : List Token)
    (stays : ∀ front, inRow front → inRow' (lead ++ front)) (behind : List Token) :
    Neighbours found' inRow' (lead ++ before) first second (after ++ behind) := by
  constructor
  · intro opens closes
    cases known.gap opens closes with
    | @arguments front token _ split named opens closes around =>
      have split : lead ++ before = (lead ++ front) ++ [token] := by rw [split, List.append_assoc]
      exact .arguments split named opens closes (within nofun around)
    | @filters front token _ _ _ split named opens closes starts around =>
      have split : lead ++ before = (lead ++ front) ++ [token] := by rw [split, List.append_assoc]
      exact .filters split named opens closes starts (within nofun around)
    | braces opens closes => exact .braces opens closes
    | cell opens closes inside =>
      exact .cell opens closes (by rw [List.append_assoc]; exact stays _ inside)
  · intro named opens
    obtain ⟨plain, opens, laid, closes, inside, around⟩ := known.data named opens
    simp only [List.append_assoc, List.cons_append]
    exact .intro plain opens laid closes inside (within nofun around)

end Meeting

/-- Something is known of all tokens side by side. -/
def Orderly (found : Surroundings) (inRow : List Token → Prop) (tokens : List Token) : Prop :=
  ∀ ⦃before : List Token⦄ ⦃first second : Token⦄ ⦃after : List Token⦄,
    tokens = before ++ first :: second :: after → Neighbours found inRow before first second after

/-- Some tokens end with one behind which anything may stand. -/
def EndsSomething (tokens : List Token) : Prop :=
  ∃ others last, tokens = others ++ [last] ∧ last.kind.endsSomething = true

/-- Some tokens begin with one that ends no position. -/
def BeginsSomething (tokens : List Token) : Prop :=
  ∃ first others, tokens = first :: others ∧ first.kind.closesPosition = false

theorem EndsSomething.behind {tokens : List Token} (ends : EndsSomething tokens)
    (more : List Token) : EndsSomething (more ++ tokens) := by
  obtain ⟨others, last, rfl, ends⟩ := ends
  exact ⟨more ++ others, last, by simp, ends⟩

theorem BeginsSomething.inFront {tokens : List Token} (begins : BeginsSomething tokens)
    (more : List Token) : BeginsSomething (tokens ++ more) := by
  obtain ⟨first, others, rfl, begins⟩ := begins
  exact ⟨first, others ++ more, rfl, begins⟩

namespace Orderly

variable {found : Surroundings} {inRow : List Token → Prop} {tokens more : List Token}
  {token : Token}

theorem nil : Orderly found inRow [] :=
  fun _ _ _ _ split => absurd split (by simp)

theorem single : Orderly found inRow [token] := by
  intro before first second after split
  have lengths := congrArg List.length split
  simp only [List.length_append, List.length_cons, List.length_nil] at lengths
  omega

/-- What may be found in more places, and what counts as a row in more. -/
theorem mono {found' : Surroundings} {inRow' : List Token → Prop}
    (orderly : Orderly found inRow tokens) (within : found.Within found')
    (stays : ∀ front, inRow front → inRow' front) : Orderly found' inRow' tokens := by
  intro before first second after split
  have known := (orderly split).mono within [] stays []
  rwa [List.append_nil] at known

/-- **Where two parts meet, their last and first tokens stand side by side.** -/
theorem append {inner : List Token → Prop} (front : Orderly found inRow tokens)
    (behind : Orderly found inner more) (stays : ∀ others, inner others → inRow (tokens ++ others))
    (meet : ∀ others first second after, tokens = others ++ [first] → more = second :: after →
      Neighbours found inRow others first second after) :
    Orderly found inRow (tokens ++ more) := by
  intro before first second after split
  have itself : found.Within found := fun _ _ _ _ around => around
  rcases List.append_eq_append_iff.mp split with ⟨others, rfl, inBehind⟩ | ⟨others, rfl, inFront⟩
  · have known := (behind inBehind).mono itself tokens stays []
    rwa [List.append_nil] at known
  · match others with
    | [] =>
      have isMore : more = [] ++ first :: second :: after := inFront.symm
      have known := (behind isMore).mono itself before (by simpa using stays) []
      simpa using known
    | [last] =>
      obtain ⟨rfl, isMore⟩ := List.cons.inj inFront
      exact meet before _ _ _ rfl isMore.symm
    | last :: next :: others =>
      obtain ⟨rfl, isNext⟩ := List.cons.inj inFront
      obtain ⟨rfl, rfl⟩ := List.cons.inj isNext
      exact (front rfl).mono itself [] (fun _ inside => inside) more

/-- Behind something anything may stand. -/
theorem append_of_ends {inner : List Token → Prop} (front : Orderly found inRow tokens)
    (ends : EndsSomething tokens) (behind : Orderly found inner more)
    (stays : ∀ others, inner others → inRow (tokens ++ others)) :
    Orderly found inRow (tokens ++ more) := by
  refine front.append behind stays fun others first second after split _ => ?_
  obtain ⟨_, last, same, ends⟩ := ends
  obtain ⟨_, isLast⟩ := List.append_inj' (split.symm.trans same) rfl
  obtain rfl := List.singleton_inj.mp isLast
  exact .of_ends ends

theorem cons {inner : List Token → Prop} (behind : Orderly found inner more)
    (stays : ∀ others, inner others → inRow (token :: others))
    (meet : ∀ second after, more = second :: after →
      Neighbours found inRow [] token second after) : Orderly found inRow (token :: more) := by
  refine append single behind stays fun others first second after split same => ?_
  have split : [] ++ [token] = others ++ [first] := split
  obtain ⟨rfl, isFirst⟩ := List.append_inj' split rfl
  obtain rfl := List.singleton_inj.mp isFirst
  exact meet second after same

/-- A token in front of something. -/
theorem cons_of_begins {inner : List Token → Prop} (noTable : token.kind ≠ .keyword .dataTable)
    (begins : BeginsSomething more) (behind : Orderly found inner more)
    (stays : ∀ others, inner others → inRow (token :: others)) :
    Orderly found inRow (token :: more) := by
  refine cons behind stays fun second after same => ?_
  obtain ⟨first, others, isFirst, begins⟩ := begins
  obtain ⟨rfl, _⟩ := List.cons.inj (isFirst.symm.trans same)
  exact .of_begins noTable begins

end Orderly

/-! ## Rows of data are the same wherever they stand -/

section InDataRow

variable {found : Surroundings} {tokens more : List Token} {token : Token}

/-- A token in front of something, in front of which nothing is known of rows. -/
theorem Orderly.behindToken (noTable : token.kind ≠ .keyword .dataTable)
    (begins : BeginsSomething tokens) (orderly : Orderly found InDataRow tokens) :
    Orderly found InDataRow (token :: tokens) :=
  .cons_of_begins noTable begins orderly fun _ inside => inside.behind [token]

theorem Orderly.behindSomething (ends : EndsSomething tokens)
    (front : Orderly found InDataRow tokens) (behind : Orderly found InDataRow more) :
    Orderly found InDataRow (tokens ++ more) :=
  front.append_of_ends ends behind fun _ inside => inside.behind tokens

/-- Behind a token with which something ends anything may stand. -/
theorem Orderly.behindEnd (ends : token.kind.endsSomething = true)
    (orderly : Orderly found InDataRow tokens) : Orderly found InDataRow (token :: tokens) :=
  .behindSomething ⟨[], token, rfl, ends⟩ .single orderly

/-- Something in parentheses or braces. -/
theorem Orderly.enclosed {opening closing : Token} (noTable : opening.kind ≠ .keyword .dataTable)
    (begins : BeginsSomething tokens) (ends : EndsSomething tokens)
    (orderly : Orderly found InDataRow tokens) :
    Orderly found InDataRow (opening :: (tokens ++ [closing])) :=
  .behindToken noTable (begins.inFront [closing]) (.behindSomething ends orderly .single)

end InDataRow

end DaxScript
