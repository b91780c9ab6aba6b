import DaxScript.Proofs.Grammar.Agreement
import DaxScript.Proofs.Grammar.Blame
import DaxScript.Proofs.LosslessTokens
import DaxScript.Proofs.Script.Layout

/-!
# Reading makes progress

Nothing is read for ever.  Each token ends behind the one before, also where a text is opened and
never closed; whatever is repeated reads tokens every time; an expression inside of an operand is
read behind a token of the operand; and each turn of a script reads a token, until the end of the
input is looked at in the last one (`Progresses`).

All functions here are total, so that they end is not in question.  What is proved is how: none of
them is cut off by a count of its own, apart from the limit on nesting, which is part of the
language.
-/

set_option autoImplicit false

namespace DaxScript

open Production

/-! ## Tokens -/

/-- The byte behind the last of the tokens that have been read. -/
def cursor (read : List Token) : Nat :=
  (read.getLast?.map (·.span.stop)).getD 0

theorem cursor_concat (read : List Token) (token : Token) :
    cursor (read ++ [token]) = token.span.stop := by
  simp [cursor]

/-- **The next token of a source takes the cursor further**, unless it is the end. -/
theorem cursor_lt {source : String} {before after : List Token} {token : Token}
    (cut : tokenize source = before ++ token :: after) (notEnd : token.kind ≠ .endOfInput) :
    cursor before < cursor (before ++ [token]) := by
  have member : token ∈ tokenize source := by simp [cut]
  have width : token.span.start < token.span.stop := by
    rw [tokenize_eq] at member
    rcases List.mem_append.mp member with own | isLast
    · exact Piece.start_lt_stop own
    · rw [List.mem_singleton.mp isLast] at notEnd
      exact absurd rfl notEnd
  rw [cursor_concat]
  rcases List.eq_nil_or_concat before with rfl | ⟨front, last, rfl⟩
  · exact Nat.lt_of_le_of_lt (Nat.zero_le _) width
  · have pairs := pairwise_tokenize source
    rw [cut] at pairs
    have apart := (List.pairwise_append.mp pairs).2.2 last (by simp) token (.head _)
    rw [List.concat_eq_append, cursor_concat]
    exact Nat.lt_of_le_of_lt apart.2 width

namespace Piece

/-- The first piece of a text takes something off it. -/
theorem exists_first (char : Char) (chars : List Char) :
    ∃ used, used ≠ [] ∧ char :: chars = used ++ (first char chars).2 :=
  ⟨(first char chars).1.spelling, spelling_first_ne_nil char chars,
    (spelling_first char chars).symm⟩

theorem length_all_le (chars : List Char) : (all chars).length ≤ chars.length := by
  fun_induction all chars with
  | case1 => exact Nat.le_refl _
  | case2 char chars ih => exact Nat.le_trans (Nat.succ_le_succ ih) (length_first_rest char chars)

theorem length_allTokens_le (position : Position) (pieces : List Piece) :
    (allTokens position pieces).length ≤ pieces.length := by
  induction pieces generalizing position with
  | nil => exact Nat.le_refl _
  | cons piece pieces ih =>
    have later := ih (position.advanceAll piece.spelling)
    rw [allTokens, List.length_append, List.length_cons]
    cases piece.token? position <;> simp <;> omega

end Piece

/-- **There are no more tokens than characters**, the end of the input apart. -/
theorem length_tokenize_le (source : String) :
    (tokenize source).length ≤ source.toList.length + 1 := by
  have tokens := Piece.length_allTokens_le .start (Piece.all source.toList)
  have pieces := Piece.length_all_le source.toList
  rw [tokenize_eq, List.length_append, List.length_singleton]
  omega

/-! ## Loops -/

/-- What is read again and again. -/
inductive IsItem : {α : Type} → {count : Nat} → Production α count → Prop where
  | definition : IsItem definition
  | sortKey : IsItem sortKey
  /-- An argument, a filter, or a value of a tuple. -/
  | value (levels : Nat) : IsItem (climb (operand levels) 0)
  | binding (levels : Nat) : IsItem (binding (climb (operand levels)))
  | row (levels : Nat) (width? : Option Nat) : IsItem (tableRow (climb (operand levels)) width?)
  | dataColumn : IsItem dataColumn
  | dataRow (levels width : Nat) : IsItem (dataRow (climb (operand levels)) width)
  | dataCell (levels : Nat) : IsItem (dataCell (climb (operand levels)))
  | formatAttribute (property : CalculationProperty) : IsItem (formatAttribute property)

/-- One iteration of a loop takes some tokens to others. -/
inductive Iterates : List Token → List Token → Prop where
  /-- An item that promises to read. -/
  | item {α : Type} {item : Production α 1} {tokens : List Token} {parsed : Parsed α 1 tokens}
      (isItem : IsItem item) (read : item tokens = .ok parsed) : Iterates tokens parsed.rest
  /-- A comma and an item. -/
  | further {α : Type} {count : Nat} {item : Production α count} {tokens : List Token}
      {parsed : Parsed α 1 tokens} (isItem : IsItem item)
      (read : afterComma (weaken item) tokens = .ok parsed) : Iterates tokens parsed.rest
  /-- An operator and its right operand with what binds tighter. -/
  | operator {sign : Token} {operator : BinaryOperator} {levels : Nat} {tokens : List Token}
      {parsed : Parsed Expr 1 tokens} (joins : BinaryOperator.ofKind? sign.kind = some operator)
      (read : climb (operand levels) (operator.level + 1) tokens = .ok parsed) :
      Iterates (sign :: tokens) parsed.rest
  /-- A turn of a script. -/
  | turn (source : List Char) (finish : Position) (first : Token) (rest : List Token) :
      Iterates (first :: rest) (Turn.ofTokens source finish first rest).rest

theorem IsItem.isLocal {α : Type} {count : Nat} {item : Production α count} (isItem : IsItem item) :
    Local item := by
  have expr (levels level : Nat) : Local (climb (operand levels) level) :=
    local_climb (local_operand levels) level
  cases isItem with
  | definition => exact local_definition
  | sortKey => exact local_sortKey
  | value levels => exact expr levels 0
  | binding levels => exact local_binding (expr levels)
  | row levels width? => exact local_tableRow (expr levels) width?
  | dataColumn => exact local_dataColumn
  | dataRow levels width => exact local_dataRow (expr levels) width
  | dataCell levels => exact local_dataCell (expr levels)
  | formatAttribute property => exact local_formatAttribute property

/-- What is left is shorter and the last part of what there was. -/
theorem exists_used {tokens rest : List Token} (left : rest <:+ tokens)
    (fewer : rest.length < tokens.length) : ∃ used, used ≠ [] ∧ tokens = used ++ rest := by
  obtain ⟨used, rfl⟩ := left
  refine ⟨used, ?_, rfl⟩
  rintro rfl
  exact absurd fewer (Nat.lt_irrefl _)

/-- What a production leaves that promises to read. -/
theorem Production.Local.exists_used {α : Type} {production : Production α 1}
    (isLocal : Local production) {tokens : List Token} {parsed : Parsed α 1 tokens}
    (read : production tokens = .ok parsed) :
    ∃ used, used ≠ [] ∧ tokens = used ++ parsed.rest := by
  have within := isLocal (List.suffix_refl tokens)
  rw [read] at within
  cases within with
  | ok left => exact DaxScript.exists_used left parsed.fits

/-- **Every iteration reads tokens.** -/
theorem Iterates.exists_used {tokens rest : List Token} (iterates : Iterates tokens rest) :
    ∃ used, used ≠ [] ∧ tokens = used ++ rest := by
  cases iterates with
  | item isItem read => exact isItem.isLocal.exists_used read
  | further isItem read => exact (local_afterComma (local_weaken isItem.isLocal)).exists_used read
  | @operator sign operator levels tokens parsed joins read =>
    obtain ⟨used, _, same⟩ := (local_climb (local_operand levels) _).exists_used read
    exact ⟨sign :: used, List.cons_ne_nil _ _, congrArg (sign :: ·) same⟩
  | turn source finish first rest =>
    exact DaxScript.exists_used (Turn.course source finish first rest).rest_suffix
      (Turn.length_ofTokens_lt source finish first rest)

/-- **A loop reads at least one token for every item** that it returns. -/
theorem Production.length_manyWhile_le {α : Type} {continues : TokenKind → Bool}
    {item : Production α 1} {tokens : List Token} {parsed : Parsed (List α) 0 tokens}
    (read : manyWhile continues item tokens = .ok parsed) :
    parsed.value.length + parsed.rest.length ≤ tokens.length := by
  induction counted : tokens.length using Nat.strongRecOn generalizing tokens with
  | ind length ih =>
    rw [manyWhile] at read
    split at read
    · cases first : item tokens with
      | error => rw [first] at read; cases read
      | ok value =>
        have fits := value.fits
        rw [first] at read
        cases others : manyWhile continues item value.rest with
        | error => simp [Bind.bind, Except.bind, others] at read
        | ok values =>
          have fewer := ih value.rest.length (by omega) others rfl
          simp only [Bind.bind, Except.bind, others] at read
          obtain rfl := Except.ok.inj read
          simp only [List.length_cons]
          omega
    · obtain rfl := Except.ok.inj read
      simp [Parsed.nothing, counted]

/-- On the way to the end of a statement a token is passed over each time, or the end has been
found, with the token or in front of it. -/
theorem Turn.pass_step (depth : Nat) (token : Token) (rest : List Token) :
    (∃ deeper, pass depth (token :: rest) = pass deeper rest) ∨
      (pass depth (token :: rest)).2 = rest ∨ (pass depth (token :: rest)).2 = token :: rest := by
  rw [pass]
  split
  · split
    · exact .inr (.inl rfl)
    · exact .inl ⟨_, rfl⟩
  · split
    · exact .inr (.inr rfl)
    · exact .inl ⟨_, rfl⟩
  all_goals exact .inl ⟨_, rfl⟩

/-! ## Turns -/

/-- **There are no more turns than tokens**, apart from the one in which the end is looked at. -/
theorem Turn.exists_all (source : List Char) (finish : Position) (tokens : List Token) :
    ∃ turns, all source finish tokens = turns ++ [⟨[⟨0, []⟩], []⟩] ∧
      turns.length ≤ tokens.length := by
  fun_induction all source finish tokens with
  | case1 => exact ⟨[], rfl, Nat.le_refl 0⟩
  | case2 first rest turn ih =>
    obtain ⟨turns, same, few⟩ := ih
    have fewer := length_ofTokens_lt source finish first rest
    refine ⟨turn :: turns, by rw [same]; rfl, ?_⟩
    exact Nat.le_trans (Nat.succ_le_succ few) fewer

theorem Turn.length_allEvents (faults : List (List Diagnostic)) (turns : List Turn) :
    (allEvents faults turns).length = turns.length := by
  induction turns generalizing faults with
  | nil => rfl
  | cons turn turns ih => simp [allEvents, ih]

/-- How many turns are begun before a diagnostic has been dropped. -/
def Recording.turnsBegun (recording : Recording) : List (List Event) → Nat
  | [] => 0
  | events :: later =>
    if recording.collector.overflowed then 0
    else (events.foldl add recording).turnsBegun later + 1

theorem Recording.turnsBegun_le (recording : Recording) (turns : List (List Event)) :
    recording.turnsBegun turns ≤ turns.length := by
  induction turns generalizing recording with
  | nil => exact Nat.le_refl 0
  | cons events later ih =>
    rw [turnsBegun]
    split
    · exact Nat.zero_le _
    · exact Nat.succ_le_succ (ih _)

/-- Of the turns of a script only those count that are begun. -/
theorem Recording.addTurns_take (recording : Recording) (turns : List (List Event)) :
    recording.addTurns turns = recording.addTurns (turns.take (recording.turnsBegun turns)) := by
  induction turns generalizing recording with
  | nil => rfl
  | cons events later ih =>
    rw [turnsBegun]
    by_cases overflowed : recording.collector.overflowed = true
    · rw [addTurns, if_pos overflowed, if_pos overflowed]
      rfl
    · rw [addTurns, if_neg overflowed, if_neg overflowed, List.take_succ_cons, addTurns,
        if_neg overflowed]
      exact ih _

/-! ## Everything together -/

/-- That a source is read to its end without standing still. -/
structure Progresses (source : String) : Prop where
  /-- From any place on a piece takes something off the text. -/
  pieces : ∀ char chars, ∃ used, used ≠ [] ∧ char :: chars = used ++ (Piece.first char chars).2
  forward : ∀ before token after, tokenize source = before ++ token :: after →
    token.kind ≠ .endOfInput → cursor before < cursor (before ++ [token])
  fewTokens : (tokenize source).length ≤ source.toList.length + 1
  iterations : ∀ tokens rest, Iterates tokens rest → ∃ used, used ≠ [] ∧ tokens = used ++ rest
  /-- A loop reads at least one token for every item that it returns. -/
  items : ∀ (α : Type) (continues : TokenKind → Bool) (item : Production α 1) (tokens : List Token)
    (parsed : Parsed (List α) 0 tokens), manyWhile continues item tokens = .ok parsed →
      parsed.value.length + parsed.rest.length ≤ tokens.length
  /-- What is left of a statement is passed over token by token, until the end is found with a token
  or in front of one. -/
  passing : ∀ depth token rest,
    (∃ deeper, Turn.pass depth (token :: rest) = Turn.pass deeper rest) ∨
      (Turn.pass depth (token :: rest)).2 = rest ∨
        (Turn.pass depth (token :: rest)).2 = token :: rest
  /-- An operand reads the expressions inside behind one of its tokens, so it makes no difference
  how they would be read from its first token on. -/
  descent : ∀ (levels : Nat) (other : ExprProduction) (tokens : List Token),
    (∀ level shorter, shorter.length < tokens.length →
      climb (operand levels) level shorter = other level shorter) →
    operand (levels + 1) tokens = operandOf other tokens
  /-- There are no more turns than tokens, apart from the one in which the end is looked at. -/
  turns : ∃ turns, Turn.all source.toList (Input.ofSource source).finish
      (Input.ofSource source).tokens = turns ++ [⟨[⟨0, []⟩], []⟩] ∧
    turns.length ≤ (Input.ofSource source).tokens.length
  /-- Only the turns that are begun count, and whatever the limit there are no more of them. -/
  begun : ∀ options : ScriptOptions,
    let begun := (Recording.withLimit options.maxErrors).turnsBegun (scriptEvents source)
    begun ≤ (Input.ofSource source).tokens.length + 1 ∧ readScript source options =
      (Recording.withLimit options.maxErrors).addTurns ((scriptEvents source).take begun)

/-- **Reading makes progress and ends**, whatever the source and the limit on errors are. -/
theorem reading_progresses (source : String) : Progresses source where
  pieces := Piece.exists_first
  forward _ _ _ := cursor_lt
  fewTokens := length_tokenize_le source
  iterations _ _ := Iterates.exists_used
  items _ _ _ _ _ := length_manyWhile_le
  passing := Turn.pass_step
  descent _ _ _ := operandOf_congr
  turns := Turn.exists_all _ _ _
  begun options := by
    obtain ⟨turns, same, few⟩ := Turn.exists_all source.toList (Input.ofSource source).finish
      (Input.ofSource source).tokens
    have events : (scriptEvents source).length = turns.length + 1 := by
      rw [scriptEvents, Turn.length_allEvents, same]
      simp
    have begun := (Recording.withLimit options.maxErrors).turnsBegun_le (scriptEvents source)
    exact ⟨by omega, Recording.addTurns_take _ _⟩

end DaxScript
