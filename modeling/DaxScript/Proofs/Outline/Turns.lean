import DaxScript.Proofs.Grammar.Nesting
import DaxScript.Proofs.Outline.OpeningWords
import DaxScript.Proofs.Script.Portions

/-!
# The outline turn by turn

The outline runs over the tokens of a script without knowing of turns.  Between two turns its
running statement, if there is one, is about to end (`Boundary`), and each turn leads from one such
point to the next: a semicolon ends the running statement, and so does the first token of every
other turn (`Boundary.begins`).

A statement that is read goes on to the end of its turn, because its tokens are nested and the words
among them split nothing (`exists_boundary_read`).  A statement that is passed over may be split on
the way.  It is enough that its depth is the same on both sides: parentheses and braces are counted
together where it is passed over and apart in the outline, and the sum of the two counts is the one
count as long as no sign closes one of the other kind (`exists_boundary_pass`).
-/

set_option autoImplicit false

namespace DaxScript

open Outline Production

/-! ## Passing over, token by token -/

namespace Turn

/-- How many parentheses and braces, counted together, are open behind a token. -/
def depthAfter (kind : TokenKind) (depth : Nat) : Nat :=
  match kind with
  | .symbol .leftParen | .symbol .leftBrace => depth + 1
  | .symbol .rightParen | .symbol .rightBrace => depth - 1
  | _ => depth

theorem pass_cons {depth : Nat} {token : Token} (rest : List Token)
    (goesOn : ¬(depth = 0 ∧ endsStatement token.kind = true)) :
    (pass depth (token :: rest)).2 = (pass (depthAfter token.kind depth) rest).2 := by
  simp only [pass]
  cases kind : token.kind with
  | symbol sign =>
    cases sign with
    | semicolon =>
      have some : depth ≠ 0 := fun none => goesOn ⟨none, by rw [kind]; rfl⟩
      simp only [if_neg some]
      rfl
    | _ => rfl
  | keyword word =>
    have goesOn : ¬(depth = 0 ∧ word.startsStatement = true) := by
      rw [kind] at goesOn
      exact goesOn
    simp only [if_neg goesOn]
    rfl
  | _ => rfl

/-- Passing over ends behind a semicolon or in front of a keyword. -/
theorem pass_cons_of_ends {token : Token} (rest : List Token) (inside : token.kind ≠ .endOfInput)
    (ends : endsStatement token.kind = true) :
    (pass 0 (token :: rest)).2 =
      if token.kind = .symbol .semicolon then rest else token :: rest := by
  simp only [pass]
  cases kind : token.kind with
  | symbol sign =>
    rw [kind] at ends
    cases sign <;> first | rfl | cases ends
  | keyword word =>
    rw [kind] at ends
    have starts : word.startsStatement = true := ends
    simp [starts]
  | endOfInput => exact absurd kind inside
  | _ =>
    rw [kind] at ends
    cases ends

end Turn

/-- Whether a token closes no sign of the other kind, given how many parentheses and braces are
open. -/
def closesInKind (parentheses braces : Nat) : TokenKind → Bool
  | .symbol .rightParen => parentheses != 0 || braces == 0
  | .symbol .rightBrace => braces != 0 || parentheses == 0
  | _ => true

open TokenOutline

theorem depthAfter_add {kind : TokenKind} {parentheses braces : Nat}
    (closes : closesInKind parentheses braces kind = true) :
    Turn.depthAfter kind (parentheses + braces) =
      parenthesesAfter kind parentheses + bracesAfter kind braces := by
  cases kind with
  | symbol sign =>
    cases sign
    case leftParen => exact Nat.add_right_comm parentheses braces 1
    case rightParen =>
      have some : parentheses ≠ 0 ∨ braces = 0 := by simpa [closesInKind] using closes
      simp only [Turn.depthAfter, parenthesesAfter, bracesAfter]
      omega
    case rightBrace =>
      have some : braces ≠ 0 ∨ parentheses = 0 := by simpa [closesInKind] using closes
      simp only [Turn.depthAfter, parenthesesAfter, bracesAfter]
      omega
    all_goals rfl
  | _ => rfl

/-- Whether no sign among tokens closes one of the other kind. -/
def allCloseInKind (parentheses braces : Nat) : List Token → Bool
  | [] => true
  | token :: tokens =>
    closesInKind parentheses braces token.kind &&
      allCloseInKind (parenthesesAfter token.kind parentheses) (bracesAfter token.kind braces)
        tokens

namespace TokenOutline

/-! ## Statements that go on -/

namespace State

/-- The statement goes on with some tokens, or begins with them. -/
def addAll (state : State) (tokens : List Token) : State :=
  tokens.foldl add state

/-- Whether the running statement goes on with a token. -/
def GoesOnWith (state : State) (token : Token) : Prop :=
  ¬(token.kind = .symbol .semicolon ∧ state.isTopLevel = true) ∧
    ¬token.openingWord?.any state.splitsBefore = true

theorem isTopLevel_iff {state : State} :
    state.isTopLevel = true ↔ state.parentheses = 0 ∧ state.braces = 0 := by
  simp [isTopLevel]

variable (state : State) (token : Token) (tokens : List Token)

theorem running_add_of_none (none : state.running = none) :
    (state.add token).running = some ⟨token, token, false⟩ := by
  rw [add, none]

theorem running_add {running : Running} (isRunning : state.running = some running) :
    (state.add token).running = some ⟨running.first, token,
      running.hasQuery || token.openingWord? == some .evaluate⟩ := by
  rw [add, isRunning]

theorem parentheses_addAll : (state.addAll tokens).parentheses =
    tokens.foldl (fun count token => parenthesesAfter token.kind count) state.parentheses := by
  induction tokens generalizing state with
  | nil => rfl
  | cons token tokens ih => exact ih (state.add token)

theorem braces_addAll : (state.addAll tokens).braces =
    tokens.foldl (fun count token => bracesAfter token.kind count) state.braces := by
  induction tokens generalizing state with
  | nil => rfl
  | cons token tokens ih => exact ih (state.add token)

variable {state}

theorem running_addAll {running : Running} (isRunning : state.running = some running) :
    (state.addAll tokens).running = some ⟨running.first, tokens.getLast?.getD running.last,
      running.hasQuery || tokens.any (·.openingWord? == some .evaluate)⟩ := by
  induction tokens generalizing state running with
  | nil => simpa [addAll] using isRunning
  | cons token tokens ih =>
    have added := state.running_add token isRunning
    have later := ih added
    rw [List.any_cons, ← Bool.or_assoc]
    cases tokens with
    | nil => simpa [addAll] using added
    | cons next tokens =>
      rw [List.getLast?_cons_cons]
      have some : (next :: tokens).getLast?.isSome = true := by simp
      obtain ⟨last, isLast⟩ := Option.isSome_iff_exists.mp some
      rw [isLast] at later ⊢
      exact later

end State

theorem statements_of_goesOn {state : State} {token : Token} (goesOn : state.GoesOnWith token)
    (tokens : List Token) : statements state (token :: tokens) =
      statements (state.add token) tokens := by
  rw [statements, if_neg goesOn.1, if_neg goesOn.2]

/-- Nothing ends as long as the statement goes on. -/
theorem statements_addAll {state : State} {tokens : List Token}
    (goesOn : ∀ front token behind, tokens = front ++ token :: behind →
      (state.addAll front).GoesOnWith token) (rest : List Token) :
    statements state (tokens ++ rest) = statements (state.addAll tokens) rest := by
  induction tokens generalizing state with
  | nil => rfl
  | cons token tokens ih =>
    have now : state.GoesOnWith token := goesOn [] token tokens rfl
    rw [List.cons_append, statements_of_goesOn now]
    exact ih fun front later behind cut =>
      goesOn (token :: front) later behind (by rw [cut, List.cons_append])

/-! ## Statements in order -/

theorem State.close_cases (state : State) (semicolon? : Option Token) :
    state.close semicolon? = [] ∨ ∃ running, state.running = some running ∧
      state.close semicolon? =
        [⟨running.first.span.start, (semicolon?.getD running.last).span.stop⟩] := by
  unfold State.close
  cases state.running with
  | none => exact .inl rfl
  | some running =>
    dsimp only
    split
    · exact .inr ⟨running, rfl, rfl⟩
    · exact .inl rfl

/-- Where the running statement begins, or the given offset if there is none. -/
def State.start (state : State) (bound : Nat) : Nat :=
  state.running.elim bound fun running => running.first.span.start

/-- A statement that ends here stands in front of all that follow. -/
theorem State.standFrom_close {state : State} {semicolon? : Option Token} {bound middle : Nat}
    {spans : List Span}
    (forward : ∀ running ∈ state.running,
      running.first.span.start ≤ (semicolon?.getD running.last).span.stop ∧
        (semicolon?.getD running.last).span.stop ≤ middle)
    (before : bound ≤ middle) (stand : StandFrom middle spans) :
    StandFrom (state.start bound) (state.close semicolon? ++ spans) := by
  rcases state.close_cases semicolon? with none | ⟨running, isRunning, single⟩
  · rw [none]
    refine stand.mono ?_
    rw [State.start]
    cases isRunning : state.running with
    | none => exact before
    | some running => exact (forward running isRunning).1.trans (forward running isRunning).2
  · rw [single, State.start, isRunning]
    have ends := forward running isRunning
    exact .cons ends.1 (stand.mono ends.2)

/-- A token that is added comes last, and the statement begins where it did or with the token. -/
theorem State.exists_running_add {state : State} {token : Token} {bound : Nat}
    (forward : ∀ running ∈ state.running,
      running.first.span.start ≤ running.last.span.stop ∧ running.last.span.stop ≤ bound)
    (begins : bound ≤ token.span.start) (length : token.span.start ≤ token.span.stop) :
    ∃ added, (state.add token).running = some added ∧ added.last = token ∧
      state.start bound ≤ added.first.span.start ∧
      added.first.span.start ≤ token.span.stop := by
  rw [State.start]
  cases isRunning : state.running with
  | none => exact ⟨_, state.running_add_of_none token isRunning, rfl, begins, length⟩
  | some running =>
    obtain ⟨ahead, ends⟩ := forward running isRunning
    exact ⟨_, state.running_add token isRunning, rfl, Nat.le_refl _,
      ahead.trans (ends.trans (begins.trans length))⟩

/-- **The statements of the outline stand one behind the other**, and the running one comes
first. -/
theorem standFrom_statements {state : State} {tokens : List Token} {bound : Nat}
    (forward : ∀ running ∈ state.running,
      running.first.span.start ≤ running.last.span.stop ∧ running.last.span.stop ≤ bound)
    (ordered : InOrder tokens) (behind : ∀ token ∈ tokens, bound ≤ token.span.start) :
    StandFrom (state.start bound) (statements state tokens) := by
  induction tokens generalizing state bound with
  | nil =>
    have whole := @State.standFrom_close state none bound bound [] forward (Nat.le_refl bound)
      ⟨.nil, fun _ member => absurd member List.not_mem_nil⟩
    rwa [List.append_nil] at whole
  | cons token rest ih =>
    have begins := behind token (.head _)
    have length := ordered.forward token (.head _)
    have later {state : State} (forward : ∀ running ∈ state.running,
        running.first.span.start ≤ running.last.span.stop ∧
          running.last.span.stop ≤ token.span.stop) :
        StandFrom (state.start token.span.stop) (statements state rest) :=
      ih forward ordered.tail (List.pairwise_cons.mp ordered.apart).1
    rw [statements]
    split
    · have others : StandFrom token.span.stop (statements .between rest) :=
        @later .between fun _ none => by cases none
      refine State.standFrom_close (fun running isRunning => ?_) (begins.trans length) others
      obtain ⟨ahead, ends⟩ := forward running isRunning
      exact ⟨ahead.trans (ends.trans (begins.trans length)), Nat.le_refl _⟩
    · split
      · have others : StandFrom token.span.start (statements (State.between.add token) rest) :=
          @later (State.between.add token) fun running isRunning => by
            obtain rfl := Option.some.inj isRunning
            exact ⟨length, Nat.le_refl _⟩
        refine State.standFrom_close (fun running isRunning => ?_) begins others
        obtain ⟨ahead, ends⟩ := forward running isRunning
        exact ⟨ahead, ends.trans begins⟩
      · obtain ⟨added, isAdded, last, first, ahead⟩ :=
          State.exists_running_add forward begins length
        have goesOn := @later (state.add token) fun running isRunning => by
          obtain rfl := Option.some.inj (isAdded.symm.trans isRunning)
          rw [last]
          exact ⟨ahead, Nat.le_refl _⟩
        rw [State.start, isAdded] at goesOn
        exact goesOn.mono first

/-! ## Between two turns -/

/-- What holds of the running statement between two turns: it is about to end. -/
structure Boundary (state : State) (tokens : List Token) : Prop where
  topLevel : tokens ≠ [] → state.isTopLevel = true
  /-- A block of definitions has its query. -/
  asked : ∀ running ∈ state.running, running.first.openingWord? = some .define →
    running.hasQuery = true
  ends : state.running.isSome = true → endsStatement (nextKind tokens) = true

namespace Boundary

theorem between (tokens : List Token) : Boundary .between tokens where
  topLevel _ := rfl
  asked _ member := by cases member
  ends running := by cases running

variable {state : State} {first : Token} {rest tokens : List Token}

theorem of_running {running : Running} (isRunning : state.running = some running)
    (noBlock : running.first.openingWord? ≠ some .define)
    (topLevel : tokens ≠ [] → state.isTopLevel = true)
    (ends : endsStatement (nextKind tokens) = true) : Boundary state tokens where
  topLevel := topLevel
  asked other member block := by
    obtain rfl : running = other := Option.some.inj (isRunning.symm.trans member)
    exact absurd block noBlock
  ends _ := ends

/-- A semicolon ends the statement. -/
theorem semicolon (boundary : Boundary state (first :: rest))
    (sign : first.kind = .symbol .semicolon) :
    statements state (first :: rest) =
      state.close (some first) ++ statements .between rest := by
  rw [statements, if_pos ⟨sign, boundary.topLevel (List.cons_ne_nil _ _)⟩]

/-- So does any other token, and the next statement begins with it. -/
theorem begins (boundary : Boundary state (first :: rest)) (spelled : first.IsSpelled)
    (noSign : first.kind ≠ .symbol .semicolon) :
    statements state (first :: rest) =
      state.close none ++ statements (State.between.add first) rest := by
  have topLevel := boundary.topLevel (List.cons_ne_nil _ _)
  rw [statements, if_neg fun both => noSign both.1]
  cases running : state.running with
  | none =>
    obtain ⟨_, parentheses, braces⟩ := state
    obtain rfl : _ = none := running
    obtain ⟨rfl, rfl⟩ : _ = 0 ∧ _ = 0 := State.isTopLevel_iff.mp topLevel
    rw [show State.close ⟨none, 0, 0⟩ none = [] from rfl, List.nil_append]
    exact ite_self _
  | some current =>
    -- The token is a keyword that begins a statement.
    have ends : endsStatement first.kind = true := boundary.ends (by rw [running]; rfl)
    obtain ⟨opening, opens⟩ : ∃ opening, first.openingWord? = some opening := by
      cases kind : first.kind with
      | keyword word =>
        rw [kind] at ends
        rw [spelled.openingWord?_of_keyword kind]
        exact word.startsStatement_iff.mp ends
      | symbol sign => cases sign <;> simp_all [endsStatement]
      | endOfInput => exact absurd kind spelled.inside
      | _ => rw [kind] at ends; cases ends
    have splits : state.splitsBefore opening = true := by
      cases opening with
      | evaluate =>
        have asked := boundary.asked current running
        simp only [State.splitsBefore, topLevel, running, Bool.true_and, Option.any_some,
          Bool.not_eq_true', Bool.and_eq_false_iff, Bool.not_eq_false', beq_eq_false_iff_ne]
        by_cases block : current.first.openingWord? = some .define
        · exact .inr (asked block)
        · exact .inl block
      | _ => simp [State.splitsBefore, topLevel]
    rw [if_pos (by rw [opens]; exact splits)]

/-- The running statement is listed next if it begins with an opening word. -/
theorem exists_span (boundary : Boundary state tokens) {running : Running}
    (isRunning : state.running = some running) (opens : running.first.openingWord?.isSome = true)
    (spelled : ∀ token ∈ tokens, token.IsSpelled)
    (behind : ∀ token ∈ tokens, running.last.span.stop ≤ token.span.stop) :
    ∃ span ∈ statements state tokens, span.start = running.first.span.start ∧
      running.last.span.stop ≤ span.stop := by
  have closed (semicolon? : Option Token) : state.close semicolon? =
      [⟨running.first.span.start, (semicolon?.getD running.last).span.stop⟩] := by
    rw [State.close, isRunning]
    exact if_pos opens
  cases tokens with
  | nil =>
    rw [statements, closed]
    exact ⟨_, .head _, rfl, Nat.le_refl _⟩
  | cons first rest =>
    by_cases sign : first.kind = .symbol .semicolon
    · rw [boundary.semicolon sign, closed]
      exact ⟨_, .head _, rfl, behind first (.head _)⟩
    · rw [boundary.begins (spelled first (.head _)) sign, closed]
      exact ⟨_, .head _, rfl, Nat.le_refl _⟩

end Boundary

/-! ## Statements that are read -/

/-- The opening words among tokens. -/
def openingWords (tokens : List Token) : List OpeningWord :=
  tokens.filterMap Token.openingWord?

/-- A statement that defines measures begins with an opening word. -/
theorem isSome_openingWord? {first : Token} {others used : List Token} {statement : Statement}
    {next : TokenKind} (reading : Rule.Statement used statement next) (cut : used = first :: others)
    (spelled : first.IsSpelled) (defines : statement.measures ≠ []) :
    first.openingWord?.isSome = true := by
  cases reading with
  | createMeasure creates =>
    obtain ⟨rfl, _⟩ := List.cons.inj cut
    rw [spelled.openingWord?_of_keyword creates]
    rfl
  | define opens =>
    obtain ⟨rfl, _⟩ := List.cons.inj cut
    rw [spelled.openingWord?_of_keyword opens]
    rfl
  | evaluate => exact absurd rfl defines
  | expression => exact absurd rfl defines

section Reading

variable {first : Token} {further : List Token}

/-- No word splits a statement where the only one is that of the query of a block. -/
theorem splitsBefore_of_openingWords {front behind : List Token} {token : Token}
    {opening : OpeningWord} (opens : token.openingWord? = some opening)
    (words : openingWords (front ++ token :: behind) =
      if first.openingWord? = some .define then [.evaluate] else []) :
    ((State.between.add first).addAll front).splitsBefore opening = false := by
  have began : (State.between.add first).running = some ⟨first, first, false⟩ := rfl
  have whole : openingWords front ++ opening :: openingWords behind =
      if first.openingWord? = some .define then [.evaluate] else [] := by
    rw [← words]
    simp [openingWords, opens]
  split at whole
  · next block =>
    -- The word is the query of the block, and the first one among its further tokens.
    obtain ⟨noWord, rfl⟩ : openingWords front = [] ∧ opening = .evaluate := by
      cases inFront : openingWords front with
      | nil =>
        rw [inFront] at whole
        exact ⟨rfl, (List.cons.inj whole).1⟩
      | cons =>
        rw [inFront] at whole
        simp at whole
    have noQuery : front.any (·.openingWord? == some .evaluate) = false := by
      rw [openingWords, List.filterMap_eq_nil_iff] at noWord
      exact List.any_eq_false.mpr fun token member => by simp [noWord token member]
    rw [State.splitsBefore, State.running_addAll front began]
    simp [block, noQuery]
  · simp at whole

/-- Behind nested tokens nothing is open. -/
theorem isTopLevel_of_nested (nested : Nested (first :: further)) :
    ((State.between.add first).addAll further).isTopLevel = true := by
  have parentheses := nested.parentheses 0
  have braces := nested.braces 0
  rw [List.foldl_cons] at parentheses braces
  rw [State.isTopLevel, State.parentheses_addAll, State.braces_addAll]
  simp [State.add, State.between, parentheses, braces]

/-- **A statement that is read goes on to the end of its turn**, where the only word among its
further tokens is that of the query of a block. -/
theorem exists_boundary_read {left : List Token} {statement : Statement}
    (reading : Rule.Statement (first :: further) statement (nextKind left))
    (words : openingWords further =
      if first.openingWord? = some .define then [.evaluate] else [])
    (ordered : InOrder (first :: further)) :
    ∃ state running,
      statements (State.between.add first) (further ++ left) = statements state left ∧
      Boundary state left ∧ state.running = some running ∧ running.first = first ∧
      running.last ∈ first :: further ∧
      ∀ token ∈ first :: further, token.span.stop ≤ running.last.span.stop := by
  have nested := Rule.Statement.nests reading
  have began : (State.between.add first).running = some ⟨first, first, false⟩ := rfl
  have isRunning := State.running_addAll further began
  have goesOn (front : List Token) (token : Token) (behind : List Token)
      (cut : further = front ++ token :: behind) :
      ((State.between.add first).addAll front).GoesOnWith token := by
    refine ⟨fun both => nested.noSemicolon token (by simp [cut]) both.1, fun splits => ?_⟩
    cases opens : token.openingWord? with
    | none =>
      rw [opens] at splits
      cases splits
    | some opening =>
      rw [opens, Option.any_some, splitsBefore_of_openingWords opens (cut ▸ words)] at splits
      cases splits
  have asked (block : first.openingWord? = some .define) :
      further.any (·.openingWord? == some .evaluate) = true := by
    have asks : .evaluate ∈ openingWords further := by
      rw [words, if_pos block]
      exact .head _
    obtain ⟨token, isFurther, opens⟩ := List.mem_filterMap.mp asks
    exact List.any_eq_true.mpr ⟨token, isFurther, by simp [opens]⟩
  have isLast : further.getLast?.getD first ∈ first :: further := by
    cases last : further.getLast? with
    | none => exact .head _
    | some token => exact .tail _ (List.mem_of_getLast? last)
  refine ⟨_, _, statements_addAll goesOn left,
    ⟨fun _ => isTopLevel_of_nested nested, ?_, fun _ => reading.ends⟩,
    isRunning, rfl, isLast, fun token member => ordered.stop_le_last member⟩
  rintro running member block
  rw [isRunning, Option.mem_def, Option.some.injEq] at member
  subst member
  exact asked block

/-- If it defines measures, it is listed next, and reaches over its tokens. -/
theorem exists_listed_read {left : List Token} {statement : Statement}
    (reading : Rule.Statement (first :: further) statement (nextKind left))
    (words : openingWords further =
      if first.openingWord? = some .define then [.evaluate] else [])
    (spelled : ∀ token ∈ first :: further ++ left, token.IsSpelled)
    (ordered : InOrder (first :: further ++ left)) :
    ∃ state, statements (State.between.add first) (further ++ left) = statements state left ∧
      Boundary state left ∧ (statement.measures ≠ [] →
        ∃ span ∈ statements (State.between.add first) (further ++ left),
          span.start = first.span.start ∧
          ∀ token ∈ first :: further, token.span.stop ≤ span.stop) := by
  obtain ⟨state, running, run, boundary, isRunning, isFirst, isLast, reaches⟩ :=
    exists_boundary_read reading words ordered.left
  refine ⟨state, run, boundary, fun defines => ?_⟩
  have opens : running.first.openingWord?.isSome = true := by
    rw [isFirst]
    exact isSome_openingWord? reading rfl (spelled first (.head _)) defines
  obtain ⟨span, listed, start, stop⟩ := boundary.exists_span isRunning opens
    (fun token member => spelled token (List.mem_append_right _ member))
    (fun token member =>
      (ordered.stop_le isLast member).trans (ordered.right.forward token member))
  rw [run]
  exact ⟨span, listed, by rw [start, isFirst], fun token own => (reaches token own).trans stop⟩

end Reading

/-! ## Statements that are passed over -/

/-- **Passing over leads from the middle of a running statement to the end of one**, as long as no
sign closes one of the other kind. -/
theorem exists_boundary_pass {tokens used : List Token} {state : State} {running : Running}
    (isRunning : state.running = some running)
    (noBlock : running.first.openingWord? ≠ some .define)
    (spelled : ∀ token ∈ tokens, token.IsSpelled)
    (cut : tokens = used ++ (Turn.pass (state.parentheses + state.braces) tokens).2)
    (closes : allCloseInKind state.parentheses state.braces used = true) :
    ∃ spans state', statements state tokens =
        spans ++ statements state' (Turn.pass (state.parentheses + state.braces) tokens).2 ∧
      Boundary state' (Turn.pass (state.parentheses + state.braces) tokens).2 := by
  induction tokens generalizing state running used with
  | nil => exact ⟨[], state, rfl, .of_running isRunning noBlock (absurd rfl) rfl⟩
  | cons token rest ih =>
    have isSpelled := spelled token (.head _)
    by_cases ends : state.parentheses + state.braces = 0 ∧ endsStatement token.kind = true
    · -- Here the passing ends, and nothing is open in the outline either.
      have topLevel : state.isTopLevel = true :=
        State.isTopLevel_iff.mpr (Nat.add_eq_zero_iff.mp ends.1)
      rw [ends.1, Turn.pass_cons_of_ends rest isSpelled.inside ends.2]
      split
      · next sign =>
        exact ⟨state.close (some token), .between, by rw [statements, if_pos ⟨sign, topLevel⟩],
          .between rest⟩
      · exact ⟨[], state, rfl, .of_running isRunning noBlock (fun _ => topLevel) ends.2⟩
    · rw [Turn.pass_cons rest ends] at cut ⊢
      obtain ⟨later, rfl, isLater⟩ : ∃ later, used = token :: later ∧ rest = later ++
          (Turn.pass (Turn.depthAfter token.kind (state.parentheses + state.braces)) rest).2 := by
        cases used with
        | nil =>
          have shorter := Turn.length_pass_le
            (Turn.depthAfter token.kind (state.parentheses + state.braces)) rest
          rw [List.nil_append] at cut
          rw [← cut, List.length_cons] at shorter
          omega
        | cons first later =>
          obtain ⟨rfl, isLater⟩ := List.cons.inj cut
          exact ⟨later, rfl, isLater⟩
      rw [allCloseInKind, Bool.and_eq_true] at closes
      rw [depthAfter_add closes.1] at isLater ⊢
      have noEnd : ¬(token.kind = .symbol .semicolon ∧ state.isTopLevel = true) := by
        rintro ⟨sign, topLevel⟩
        refine ends ⟨Nat.add_eq_zero_iff.mpr (State.isTopLevel_iff.mp topLevel), ?_⟩
        rw [sign]
        rfl
      have spelledLater := fun token member => spelled token (List.mem_cons_of_mem _ member)
      by_cases splits : token.openingWord?.any state.splitsBefore = true
      · -- A word that begins a statement of the outline and is a name to the grammar.
        have topLevel : state.parentheses = 0 ∧ state.braces = 0 := by
          cases opens : token.openingWord? with
          | none =>
            rw [opens] at splits
            cases splits
          | some opening =>
            rw [opens] at splits
            exact State.isTopLevel_iff.mp (Bool.and_eq_true_iff.mp splits).1
        have noDefine : token.openingWord? ≠ some .define := by
          intro opens
          refine ends ⟨Nat.add_eq_zero_iff.mpr topLevel, ?_⟩
          rw [isSpelled.openingWord?_eq_define_iff.mp opens]
          rfl
        rw [topLevel.1, topLevel.2] at isLater closes ⊢
        rw [statements, if_neg noEnd, if_pos splits]
        have began : (State.between.add token).running = some ⟨token, token, false⟩ := rfl
        obtain ⟨spans, state', same, boundary⟩ :=
          ih began noDefine spelledLater isLater closes.2
        exact ⟨state.close none ++ spans, state',
          by rw [List.append_assoc]; exact congrArg _ same, boundary⟩
      · have goesOn : state.GoesOnWith token := ⟨noEnd, splits⟩
        rw [statements_of_goesOn goesOn]
        exact ih (state.running_add token isRunning) noBlock spelledLater isLater closes.2

/-- Behind a first token that opens nothing, nothing is open. -/
theorem depths_of_depthAfter {kind : TokenKind} (nothing : Turn.depthAfter kind 0 = 0) :
    parenthesesAfter kind 0 = 0 ∧ bracesAfter kind 0 = 0 := by
  have closes : closesInKind 0 0 kind = true := by
    cases kind with
    | symbol sign => cases sign <;> rfl
    | _ => rfl
  exact Nat.add_eq_zero_iff.mp ((depthAfter_add closes).symm.trans nothing)

/-- A statement that is recognised begins no block, and behind its first token the outline passes
over it as well. -/
theorem exists_boundary_recognised {first : Token} {rest used : List Token} {statement : Statement}
    (recognised : recognised? first (nextKind rest) = some statement)
    (spelled : ∀ token ∈ first :: rest, token.IsSpelled)
    (cut : rest = used ++ (Turn.pass 0 rest).2)
    (nothing : Turn.depthAfter first.kind 0 = 0) (closes : allCloseInKind 0 0 used = true) :
    ∃ spans state, statements (State.between.add first) rest =
        spans ++ statements state (Turn.pass 0 rest).2 ∧ Boundary state (Turn.pass 0 rest).2 := by
  obtain ⟨parentheses, braces⟩ := depths_of_depthAfter nothing
  have noBlock : first.openingWord? ≠ some .define := by
    intro opens
    have isDefine := (spelled first (.head _)).openingWord?_eq_define_iff.mp opens
    simp [recognised?, isDefine] at recognised
  have start : State.between.add first = ⟨some ⟨first, first, false⟩, 0, 0⟩ := by
    rw [State.add, State.between]
    simp [parentheses, braces]
  rw [start]
  exact exists_boundary_pass rfl noBlock (fun token member => spelled token (.tail _ member)) cut
    closes

end TokenOutline

/-! ## Portions of a script -/

namespace Portion

/-- Whether the opening words of a portion are used to open statements: no further token is one but
for the query of a block.  In a statement that is passed over they may be anything. -/
def keepsWords (portion : Portion) : Bool :=
  portion.isPassed || openingWords portion.further ==
    if portion.first.openingWord? = some .define then [.evaluate] else []

/-- Whether a portion that is passed over has nothing open behind its first token, and closes no
sign of the other kind.  In a statement that is read that goes without saying. -/
def keepsSigns (portion : Portion) : Bool :=
  !portion.isPassed ||
    Turn.depthAfter portion.first.kind 0 == 0 && allCloseInKind 0 0 portion.further

end Portion

namespace TokenOutline

section Turns

variable {source : List Char} {finish : Position}

/-- **A turn leads from one boundary to the next**, and the measures that it defines are in the
statement that begins with it. -/
theorem exists_boundary_turn {portion : Portion} {rest : List Token}
    (noSign : portion.first.kind ≠ .symbol .semicolon)
    (cut : rest = portion.further ++ (Turn.ofTokens source finish portion.first rest).rest)
    (same : portion.statement? = statementAt? portion.first rest)
    (spelled : ∀ token ∈ portion.first :: rest, token.IsSpelled)
    (ordered : InOrder (portion.first :: rest)) (read : portion.statement?.isSome = true)
    (words : portion.keepsWords = true) (signs : portion.keepsSigns = true) :
    ∃ spans state, statements (State.between.add portion.first) rest =
        spans ++ statements state (Turn.ofTokens source finish portion.first rest).rest ∧
      Boundary state (Turn.ofTokens source finish portion.first rest).rest ∧
      (portion.measures source ≠ [] →
        ∃ span ∈ statements (State.between.add portion.first) rest,
          span.start = portion.first.span.start ∧
          ∀ token ∈ portion.tokens, token.span.stop ≤ span.stop) := by
  have course := Turn.course source finish portion.first rest
  generalize Turn.ofTokens source finish portion.first rest = turn at cut course ⊢
  have isSpelled := spelled portion.first (.head _)
  cases course with
  | semicolon sign => exact absurd sign noSign
  | refused _ refused =>
    rw [same, statementAt?, refused] at read
    cases read
  | @passed statement _ recognised =>
    have found : portion.statement? = some statement := by
      rw [same, statementAt?, statement_of_recognised? recognised]
      rfl
    have noMeasures : portion.measures source = [] := by
      rw [Portion.measures, found]
      exact congrArg (List.map _) (measures_of_recognised? recognised)
    have isPassed : portion.isPassed = true := by
      rw [Portion.isPassed, found]
      exact Turn.isPassed_of_recognised? recognised
    rw [Portion.keepsSigns, isPassed, Bool.not_true, Bool.false_or, Bool.and_eq_true, beq_iff_eq]
      at signs
    obtain ⟨spans, state, run, boundary⟩ :=
      exists_boundary_recognised recognised spelled cut signs.1 signs.2
    exact ⟨spans, state, run, boundary, fun defines => absurd noMeasures defines⟩
  | @read statement used left _ cut' reading =>
    obtain rfl : portion.first :: portion.further = used :=
      List.append_cancel_right ((congrArg (portion.first :: ·) cut).symm.trans cut')
    have found : portion.statement? = some statement := by
      rw [same]
      exact statementAt?_of_yields (yields_statement_of_rule cut' reading)
    have isRead : portion.isPassed = false := by
      rw [Portion.isPassed, found]
      exact reading.isPassed_eq_false
    rw [Portion.keepsWords, isRead, Bool.false_or, beq_iff_eq] at words
    rw [cut'] at ordered spelled
    obtain ⟨state, run, boundary, listed⟩ := exists_listed_read reading words spelled ordered
    have same : portion.measures source = statement.measures.map (.ofClause source) := by
      rw [Portion.measures, found]
      rfl
    rw [cut, same, ne_eq, List.map_eq_nil_iff]
    exact ⟨[], state, run, boundary, listed⟩

/-- **The measures of a portion are in the statement that begins with it**, from any boundary on. -/
theorem exists_span_of_portion {tokens : List Token} {state : State}
    (boundary : Boundary state tokens) (spelled : ∀ token ∈ tokens, token.IsSpelled)
    (ordered : InOrder tokens)
    (agrees : ∀ portion ∈ Portion.all source finish tokens, portion.statement?.isSome = true ∧
      portion.keepsWords = true ∧ portion.keepsSigns = true) :
    ∀ portion ∈ Portion.all source finish tokens, portion.measures source ≠ [] →
      ∃ span ∈ statements state tokens, span.start = portion.first.span.start ∧
        ∀ token ∈ portion.tokens, token.span.stop ≤ span.stop := by
  induction tokens using Turn.byTurns source finish generalizing state with
  | nil =>
    rw [Portion.all_nil]
    exact fun _ member => absurd member List.not_mem_nil
  | turn first rest ih =>
    have suffix := (Turn.course source finish first rest).rest_suffix
    have spelledLater := fun token member => spelled token (suffix.subset member)
    have orderedLater : InOrder (Turn.ofTokens source finish first rest).rest := by
      obtain ⟨front, whole⟩ := suffix
      rw [← whole] at ordered
      exact ordered.right
    by_cases sign : first.kind = .symbol .semicolon
    · have left : (Turn.ofTokens source finish first rest).rest = rest := by
        rw [Turn.ofTokens, if_pos sign]
      rw [Portion.all_of_semicolon _ _ _ _ sign] at agrees ⊢
      intro portion member defines
      have later := ih (.between _) spelledLater orderedLater agrees portion member defines
      rw [left] at later
      rw [boundary.semicolon sign]
      obtain ⟨span, listed, found⟩ := later
      exact ⟨span, List.mem_append_right _ listed, found⟩
    · obtain ⟨further, cut, same⟩ := Portion.exists_all_eq source finish first rest sign
      rw [same] at agrees ⊢
      obtain ⟨read, words, signs⟩ := agrees _ (.head _)
      obtain ⟨spans, state', run, boundary', own⟩ :=
        exists_boundary_turn sign cut rfl spelled ordered read words signs
      rw [boundary.begins (spelled first (.head _)) sign]
      intro portion member defines
      rcases List.mem_cons.mp member with rfl | isLater
      · obtain ⟨span, listed, found⟩ := own defines
        exact ⟨span, List.mem_append_right _ listed, found⟩
      · obtain ⟨span, listed, found⟩ := ih boundary' spelledLater orderedLater
          (fun portion member => agrees portion (.tail _ member)) portion isLater defines
        rw [run]
        exact ⟨span, List.mem_append_right _ (List.mem_append_right _ listed), found⟩

end Turns

end TokenOutline

end DaxScript
