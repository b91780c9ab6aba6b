import DaxScript.Proofs.Script.Between
import DaxScript.Proofs.Text.Span

/-!
# Reading a script with another behind it

A script in which nothing is wrong is read in the same turns when tokens stand behind it before
which a statement ends.  A turn may look at the first of these tokens and no further
(`Turn.Joined`).  A turn that passes over a statement up to the end of the script needs the
parentheses and braces of the script to be balanced, or else it would run on; given that they are,
it has as few of them open as the script itself (`Turn.pass_append`).
-/

set_option autoImplicit false

namespace DaxScript

open Production

/-- Whether parentheses and braces, counted together, are all closed in the end and never close
more than is open, given how many are open at first. -/
def isBalanced (depth : Nat) : List TokenKind → Bool
  | [] => depth == 0
  | kind :: kinds =>
    match kind with
    | .symbol .leftParen | .symbol .leftBrace => isBalanced (depth + 1) kinds
    | .symbol .rightParen | .symbol .rightBrace => 0 < depth && isBalanced (depth - 1) kinds
    | _ => isBalanced depth kinds

/-- What stands behind a part of balanced tokens is balanced, with what the part leaves open. -/
theorem exists_isBalanced_of_append {first second : List TokenKind} {depth : Nat}
    (balanced : isBalanced depth (first ++ second) = true) :
    ∃ inner, isBalanced inner second = true := by
  induction first generalizing depth with
  | nil => exact ⟨depth, balanced⟩
  | cons kind first ih =>
    rw [List.cons_append] at balanced
    unfold isBalanced at balanced
    split at balanced
    · exact ih balanced
    · exact ih balanced
    · exact ih (Bool.and_eq_true_iff.mp balanced).2
    · exact ih (Bool.and_eq_true_iff.mp balanced).2
    · exact ih balanced

/-- Tokens before which every statement ends, with what is left of them when it is passed over. -/
structure Terminates (behind left : List Token) : Prop where
  ends : endsStatement (nextKind behind) = true
  passes : Turn.pass 0 behind = (⟨behind.length, []⟩, left)

theorem Terminates.semicolon {sign : Token} (isSign : sign.kind = .symbol .semicolon)
    (rest : List Token) : Terminates (sign :: rest) rest where
  ends := by simp [nextKind, isSign, endsStatement]
  passes := by simp [Turn.pass, isSign]

namespace Turn

/-- **A statement is passed over to the same token**, or to the first one behind the script if it
is passed over to the end of the script. -/
theorem pass_append {behind left : List Token} (terminates : Terminates behind left)
    {opened depth : Nat} {rest : List Token} (fewer : opened ≤ depth)
    (balanced : isBalanced depth (rest.map (·.kind)) = true) :
    behind.length ≤ (pass opened (rest ++ behind)).1.unseen ∧
      ((pass opened rest).1.unseen ≠ 0 ∧
          (pass opened (rest ++ behind)).2 = (pass opened rest).2 ++ behind ∨
        (pass opened rest).1.unseen = 0 ∧ (pass opened rest).2 = [] ∧
          (pass opened (rest ++ behind)).2 = left ∧
          (pass opened (rest ++ behind)).1.unseen = behind.length) := by
  induction rest generalizing opened depth with
  | nil =>
    -- All that was open is closed, so the passing ends with the first token behind.
    obtain rfl : opened = 0 := by
      simp only [List.map_nil, isBalanced, beq_iff_eq] at balanced
      omega
    rw [List.nil_append, terminates.passes]
    exact ⟨Nat.le_refl _, .inr ⟨rfl, rfl, rfl, rfl⟩⟩
  | cons token rest ih =>
    have found : behind.length ≤ (rest ++ behind).length + 1 := by
      rw [List.length_append]
      omega
    rw [List.map_cons] at balanced
    unfold isBalanced at balanced
    rw [List.cons_append]
    simp only [pass]
    cases kind : token.kind with
    | symbol sign =>
      simp only [kind] at balanced
      cases sign with
      | semicolon =>
        by_cases none : opened = 0
        · rw [if_pos none, if_pos none]
          exact ⟨found, .inl ⟨Nat.succ_ne_zero _, rfl⟩⟩
        · rw [if_neg none, if_neg none]
          exact ih fewer balanced
      | leftParen => exact ih (Nat.succ_le_succ fewer) balanced
      | leftBrace => exact ih (Nat.succ_le_succ fewer) balanced
      | rightParen =>
        simp only [Bool.and_eq_true, decide_eq_true_eq] at balanced
        exact ih (Nat.sub_le_sub_right fewer 1) balanced.2
      | rightBrace =>
        simp only [Bool.and_eq_true, decide_eq_true_eq] at balanced
        exact ih (Nat.sub_le_sub_right fewer 1) balanced.2
      | _ => exact ih fewer balanced
    | keyword word =>
      simp only [kind] at balanced
      by_cases starts : opened = 0 ∧ word.startsStatement = true
      · simp only [if_pos starts]
        exact ⟨found, .inl ⟨Nat.succ_ne_zero _, rfl⟩⟩
      · simp only [if_neg starts]
        exact ih fewer balanced
    | _ =>
      simp only [kind] at balanced
      exact ih fewer balanced

end Turn

/-! ## Turns -/

/-- A statement that is passed over at the end of a script is passed over before other tokens. -/
theorem exists_recognised?_append {first : Token} {rest behind : List Token} {statement : Statement}
    (recognised : recognised? first (nextKind rest) = some statement)
    (ends : endsStatement (nextKind behind) = true) :
    ∃ statement', recognised? first (nextKind (rest ++ behind)) = some statement' := by
  cases rest with
  | cons token rest => exact ⟨statement, recognised⟩
  | nil =>
    rw [List.nil_append]
    generalize nextKind behind = next at ends
    unfold recognised? at recognised ⊢
    split at recognised
    · cases recognised
    · cases recognised
    · cases recognised
    · cases next with
      | identifier => cases ends
      | keyword word => cases word <;> first | exact ⟨_, rfl⟩ | cases ends
      | _ => exact ⟨_, rfl⟩
    · exact ⟨_, rfl⟩

/-- A measure that ends within a source is the same when the source goes on. -/
theorem Measure.ofClause_append {source : List Char} {clause : MeasureClause}
    (fits : clause.span.stop ≤ byteLength source) (more : List Char) :
    Measure.ofClause (source ++ more) clause = Measure.ofClause source clause := by
  have body := @Span.slice_append_of_le clause.body.span source fits more
  have whole := Span.slice_append_of_le fits more
  simp only [Measure.ofClause, body, whole]

namespace Turn

/-- A semicolon makes a turn of its own. -/
theorem ofTokens_semicolon {source : List Char} {finish : Position} {sign : Token}
    (isSign : sign.kind = .symbol .semicolon) (rest : List Token) :
    ofTokens source finish sign rest = lookingAt rest ⟨[], rest⟩ := by
  unfold ofTokens
  rw [if_pos isSign]
  rfl

theorem ofTokens_of_recognised? {source : List Char} {finish : Position} {first : Token}
    {rest : List Token} {statement : Statement} (noSign : first.kind ≠ .symbol .semicolon)
    (recognised : recognised? first (nextKind rest) = some statement) :
    ofTokens source finish first rest =
      lookingAt rest (passAfter (recognition first rest statement) rest) := by
  unfold ofTokens
  rw [if_neg noSign, statement_of_recognised? recognised]
  exact congrArg (lookingAt rest) (ofStatement_of_recognised? recognised)

theorem ofTokens_of_rule {source : List Char} {finish : Position} {first : Token}
    {rest used left : List Token} {statement : Statement}
    (noSign : first.kind ≠ .symbol .semicolon) (cut : first :: rest = used ++ left)
    (reading : Rule.Statement used statement (nextKind left)) :
    ofTokens source finish first rest =
      lookingAt rest ⟨[definition source statement left], left⟩ := by
  obtain ⟨parsed, outcome, rfl, rfl⟩ := yields_statement_of_rule cut reading
  unfold ofTokens
  rw [if_neg noSign, outcome]
  exact congrArg (lookingAt rest) (ofStatement_of_rule reading)

/-- A turn of a script with tokens behind it, compared with the turn of the script alone. -/
structure Joined (behind left : List Token) (alone joined : Turn) : Prop where
  quiet : (joined.moments.flatMap fun moment => moment.events.flatMap Event.diagnostics) = []
  measures : (joined.moments.flatMap fun moment => moment.events.flatMap Event.measures) =
    alone.moments.flatMap fun moment => moment.events.flatMap Event.measures
  /-- Of the tokens behind only the first is looked at. -/
  unseen : ∀ moment ∈ joined.moments, behind.length ≤ moment.unseen
  /-- The same is left, unless the first token behind has been passed as well. -/
  rest : joined.rest = alone.rest ++ behind ∨
    alone.rest = [] ∧ joined.rest = left ∧ ∃ moment ∈ joined.moments, moment.unseen = behind.length

/-- **A turn in which nothing is wrong goes in the same way before other tokens.** -/
theorem Course.join {source : List Char} {finish : Position} {first : Token} {rest : List Token}
    {turn : Turn} (course : Course source finish first rest turn)
    (quiet : (turn.moments.flatMap fun moment => moment.events.flatMap Event.diagnostics) = [])
    {faults : List (List Diagnostic)} (layout : Layout finish faults (first :: rest))
    (inside : finish.offset ≤ byteLength source) {depth : Nat}
    (balanced : isBalanced depth (rest.map (·.kind)) = true) {behind left : List Token}
    (terminates : Terminates behind left) (more : List Char) (finish' : Position) :
    Joined behind left turn (ofTokens (source ++ more) finish' first (rest ++ behind)) := by
  have found : behind.length ≤ (rest ++ behind).length := by
    rw [List.length_append]
    omega
  cases course with
  | semicolon sign =>
    unfold ofTokens
    rw [if_pos sign]
    refine ⟨rfl, rfl, ?_, .inl rfl⟩
    intro moment member
    obtain rfl := List.mem_singleton.mp member
    exact Nat.le_succ_of_le found
  | @passed statement noSign recognised =>
    obtain ⟨statement', recognised'⟩ := exists_recognised?_append recognised terminates.ends
    obtain ⟨far, ending⟩ := pass_append terminates (Nat.zero_le depth) balanced
    have untold (recognised : Statement) (rest : List Token) :
        (recognition first rest recognised).events.flatMap Event.diagnostics = [] := by
      cases recognised <;> rfl
    have undefined (recognised : Statement) (rest : List Token) :
        (recognition first rest recognised).events.flatMap Event.measures = [] := by
      cases recognised <;> rfl
    rw [ofTokens_of_recognised? noSign recognised']
    refine ⟨?_, ?_, ?_, ?_⟩
    · simp [lookingAt, passAfter, untold, events_pass]
    · simp [lookingAt, passAfter, undefined, events_pass]
    · intro moment member
      simp only [lookingAt, passAfter, List.mem_cons, List.not_mem_nil, or_false] at member
      rcases member with rfl | rfl | rfl
      · exact Nat.le_succ_of_le found
      · cases statement' <;> simp [recognition, Nat.le_succ_of_le]
      · exact far
    · rcases ending with ⟨_, same⟩ | ⟨_, none, handed, seen⟩
      · exact .inl same
      · exact .inr ⟨none, handed, _, .tail _ (.tail _ (.head _)), seen⟩
  | @read statement used after noSign cut reading =>
    have cut' : first :: (rest ++ behind) = used ++ (after ++ behind) := by
      rw [← List.cons_append, cut, List.append_assoc]
    -- To the statement the first token behind is like the end of the script.
    have reading' : Rule.Statement used statement (nextKind (after ++ behind)) := by
      cases after with
      | nil => exact Rule.Statement.cuttable reading terminates.ends
      | cons => exact reading
    have sameMeasures : statement.measures.map (Measure.ofClause (source ++ more)) =
        statement.measures.map (Measure.ofClause source) := by
      refine List.map_congr_left fun clause isClause => ?_
      have ordered := layout.ordered
      rw [cut] at ordered
      obtain ⟨token, isUsed, stop⟩ := reading.stops ordered.left clause isClause
      have member : token ∈ first :: rest := by
        rw [cut]
        exact List.mem_append_left _ isUsed
      have bound := layout.finished token member
      exact Measure.ofClause_append (by omega) more
    rw [ofTokens_of_rule noSign cut' reading']
    refine ⟨?_, ?_, ?_, .inl rfl⟩
    · simp [lookingAt, definition]
    · simp [lookingAt, definition, sameMeasures]
    · intro moment member
      simp only [lookingAt, definition, List.mem_cons, List.not_mem_nil, or_false] at member
      rcases member with rfl | rfl
      · exact Nat.le_succ_of_le found
      · simp
  | refused => simp [lookingAt, ofRefusal, passAfter, Event.diagnostics] at quiet

end Turn

/-! ## Scripts -/

namespace Recording

/-- A turn in which nothing is told adds its measures and nothing else. -/
theorem afterTurn_of_quiet (recording : Recording) {faults : List (List Diagnostic)} {turn : Turn}
    (quiet : (Turn.events faults turn.moments).1.flatMap Event.diagnostics = [])
    (noErrors : recording.collector.hasErrors = false) :
    (recording.afterTurn faults turn).collector = recording.collector ∧
      (recording.afterTurn faults turn).measures = recording.measures ++
        turn.moments.flatMap fun moment => moment.events.flatMap Event.measures := by
  constructor
  · rw [collector_afterTurn, quiet]
    rfl
  · rw [afterTurn, recording.measures_foldl_add_of_right quiet noErrors,
      Turn.flatMap_measures_events]

/-- **A script in which nothing is wrong is recorded in the same way before other tokens**, and
then these are read. -/
theorem exists_readOn_append {source : List Char} {finish : Position} {alone recording : Recording}
    {faults groups later : List (List Diagnostic)} {tokens behind left : List Token} {depth : Nat}
    (between : Between finish alone faults tokens)
    (right : (alone.readOn source finish faults tokens).collector.items = [])
    (inside : finish.offset ≤ byteLength source)
    (balanced : isBalanced depth (tokens.map (·.kind)) = true)
    (terminates : Terminates behind left) (counted : groups.length = behind.length)
    {more : List Char} {finish' : Position}
    (resumes : ∀ {between : Recording}, between.collector.hasErrors = false →
      (∀ count, between.readOn (source ++ more) finish' (List.replicate count [] ++ groups) behind =
        between.readOn (source ++ more) finish' later left) ∧
      between.readOn (source ++ more) finish' groups left =
        between.readOn (source ++ more) finish' later left)
    (noErrors : recording.collector.hasErrors = false)
    (sameMeasures : recording.measures = alone.measures) (count : Nat) :
    ∃ joined : Recording, joined.collector = recording.collector ∧
      joined.measures = (alone.readOn source finish faults tokens).measures ∧
      recording.readOn (source ++ more) finish' (List.replicate count [] ++ groups)
          (tokens ++ behind) =
        joined.readOn (source ++ more) finish' later left := by
  induction tokens using Turn.byTurns source finish
    generalizing alone recording faults depth count with
  | nil =>
    have told := alone.measures_readOn_nil source finish faults
    exact ⟨recording, rfl, sameMeasures.trans told.symm, (resumes noErrors).1 count⟩
  | turn first rest ih =>
    have noErrorsAlone := between.hasErrors_eq_false right
    rw [alone.readOn_cons source finish faults first rest
      (Collector.overflowed_of_right noErrorsAlone)] at right ⊢
    simp only at right ⊢
    have course := Turn.course source finish first rest
    generalize Turn.ofTokens source finish first rest = turn at right course ih ⊢
    -- Nothing is told in the turn of the script alone, so the turn before other tokens is joined.
    have quiet := between.quiet_of_readOn course right
    have silent := List.eq_nil_of_subset_nil (quiet ▸ Turn.diagnostics_subset_events)
    obtain ⟨inner, balanced'⟩ := @exists_isBalanced_of_append [first.kind] _ _ balanced
    have joins := course.join silent between.layout inside balanced' terminates more finish'
    rw [List.cons_append, recording.readOn_cons _ _ _ _ _ (Collector.overflowed_of_right noErrors)]
    simp only
    generalize Turn.ofTokens (source ++ more) finish' first (rest ++ behind) = joined at joins ⊢
    have unseen : ∀ moment ∈ joined.moments, groups.length ≤ moment.unseen := by
      rw [counted]
      exact joins.unseen
    obtain ⟨fewer, told, none⟩ := Turn.events_replicate unseen count
    have quiet' : (Turn.events (List.replicate count [] ++ groups) joined.moments).1.flatMap
        Event.diagnostics = [] := by
      rw [told, List.flatMap_assoc]
      exact joins.quiet
    obtain ⟨_, addedAlone⟩ := alone.afterTurn_of_quiet quiet noErrorsAlone
    obtain ⟨sameCollector, added⟩ := recording.afterTurn_of_quiet quiet' noErrors
    rw [sameMeasures, joins.measures, ← addedAlone] at added
    have stillRight := (congrArg Collector.hasErrors sameCollector).trans noErrors
    rw [told]
    rcases joins.rest with same | ⟨ended, handed, looked⟩
    · obtain ⟨front, cut⟩ := course.rest_suffix
      have whole : isBalanced depth (front.map (·.kind) ++ turn.rest.map (·.kind)) = true := by
        rw [← List.map_append, cut]
        exact balanced
      obtain ⟨inner', balancedRest⟩ := exists_isBalanced_of_append whole
      obtain ⟨result, kept', same', read⟩ :=
        ih (between.afterTurn course) right balancedRest stillRight added fewer
      rw [same]
      exact ⟨result, kept'.trans sameCollector, same', read⟩
    · -- The turn has reached the end of the script and handed over.
      obtain rfl := none (counted ▸ looked)
      rw [ended, handed, Recording.measures_readOn_nil]
      exact ⟨_, sameCollector, added, (resumes stillRight).2⟩

/-- Groups without diagnostics, about tokens that have been read, make no difference. -/
theorem readOn_replicate (recording : Recording) (source : List Char) (finish : Position)
    {groups : List (List Diagnostic)} {first : Token} {rest : List Token}
    (counted : groups.length = rest.length + 1) (count : Nat) :
    recording.readOn source finish (List.replicate count [] ++ groups) (first :: rest) =
      recording.readOn source finish groups (first :: rest) := by
  cases room : recording.collector.overflowed with
  | true => rw [readOn_of_overflowed _ _ _ _ _ room, readOn_of_overflowed _ _ _ _ _ room]
  | false =>
    have noMore : groups.length - (rest.length + 1) = 0 := by omega
    have sameCount : (List.replicate count ([] : List Diagnostic) ++ groups).length -
        (rest.length + 1) = (List.replicate count ([] : List Diagnostic)).length := by
      rw [List.length_append, counted, Nat.add_sub_cancel]
    -- The first token is looked at before anything else, and then no more groups are due.
    have looked : Turn.events (List.replicate count [] ++ groups)
          (Turn.ofTokens source finish first rest).moments =
        Turn.events groups (Turn.ofTokens source finish first rest).moments := by
      unfold Turn.ofTokens
      simp only [Turn.events, noMore, sameCount, List.take_left, List.drop_left, List.take_zero,
        List.drop_zero, List.flatten_replicate_nil, List.flatten_nil]
    rw [readOn_cons _ _ _ _ _ _ room, readOn_cons _ _ _ _ _ _ room]
    simp only [afterTurn, looked]

end Recording

/-- Tokens behind which a script is read as if they were not there, given the groups of diagnostics
for them and the script but for the first, and the groups for the script. -/
structure Separates (signs rest : List Token) (groups later : List (List Diagnostic)) : Prop where
  grouped : List.replicate signs.length [] ++ later = [] :: groups
  terminates : Terminates (signs ++ rest) rest
  resumes : ∀ {between : Recording} (source : List Char) (finish : Position),
    between.collector.hasErrors = false →
      (∀ count, between.readOn source finish (List.replicate count [] ++ groups) (signs ++ rest) =
        between.readOn source finish later rest) ∧
      between.readOn source finish groups rest = between.readOn source finish later rest

namespace Separates

/-- **A semicolon separates scripts.** -/
theorem semicolon {sign : Token} (isSign : sign.kind = .symbol .semicolon) {rest : List Token}
    {later : List (List Diagnostic)} (counted : later.length = rest.length + 1) :
    Separates [sign] rest later later where
  grouped := rfl
  terminates := .semicolon isSign rest
  resumes source finish noErrors := by
    refine ⟨fun count => ?_, rfl⟩
    have noneDue : later.length - (rest.length + 1) = 0 := by omega
    rw [List.singleton_append, Recording.readOn_replicate _ _ _ counted,
      Recording.readOn_cons _ _ _ _ _ _ (Collector.overflowed_of_right noErrors),
      Turn.ofTokens_semicolon isSign]
    simp [Recording.afterTurn, Turn.lookingAt, Turn.events, noneDue]

/-- **A keyword that begins a statement separates scripts like a semicolon.** -/
theorem keyword {token : Token} {word : Keyword} (isWord : token.kind = .keyword word)
    (starts : word.startsStatement = true) {rest : List Token} {groups : List (List Diagnostic)}
    (counted : groups.length = rest.length + 1) :
    Separates [] (token :: rest) groups ([] :: groups) where
  grouped := rfl
  terminates := by
    refine ⟨?_, ?_⟩
    · simp [nextKind, isWord, endsStatement, starts]
    · simp [Turn.pass, isWord, starts]
  resumes := by
    intro between source finish _
    have same (count : Nat) : between.readOn source finish (List.replicate count [] ++ groups)
        (token :: rest) = between.readOn source finish groups (token :: rest) :=
      between.readOn_replicate source finish counted count
    exact ⟨fun count => (same count).trans (same 1).symm, (same 1).symm⟩

end Separates

end DaxScript
