import DaxScript.Proofs.Grammar.StatementDescription
import DaxScript.Proofs.Script.Recording

/-!
# How a turn goes

A turn begins with a look at a token.  If the token is a semicolon this is all.  Otherwise a
statement is read to its end, or recognised and passed over, or refused and passed over
(`Turn.Course`, `Turn.course`).  Everything that is proved about turns is proved from these four
courses.

Measures are defined at the last moment of a turn only, behind everything else that is told in
it (`Turn.Course.events`).
-/

set_option autoImplicit false

namespace DaxScript

open Production

namespace Turn

/-! ## Courses -/

/-- The moment at which a statement is recognised that is passed over. -/
def recognition (first : Token) (rest : List Token) : Statement → Moment
  | .createOther create object => ⟨rest.length, [.passedCreate object create.position]⟩
  | _ => ⟨rest.length + 1, [.passed first.kind first.position]⟩

/-- The moment at which a statement has been read, before the given tokens. -/
def definition (source : List Char) (statement : Statement) (left : List Token) : Moment :=
  ⟨left.length, Event.definitions (statement.measures.map (.ofClause source))⟩

/-- The same turn with a look at a token in front of it. -/
def lookingAt (rest : List Token) (turn : Turn) : Turn :=
  { turn with moments := ⟨rest.length + 1, []⟩ :: turn.moments }

/-- The ways in which a turn goes that begins with a token. -/
inductive Course (source : List Char) (finish : Position) (first : Token) (rest : List Token) :
    Turn → Prop where
  | semicolon (sign : first.kind = .symbol .semicolon) :
      Course source finish first rest (lookingAt rest ⟨[], rest⟩)
  | passed {statement : Statement} (noSign : first.kind ≠ .symbol .semicolon)
      (recognised : recognised? first (nextKind rest) = some statement) :
      Course source finish first rest
        (lookingAt rest (passAfter (recognition first rest statement) rest))
  | read {statement : Statement} {used left : List Token}
      (noSign : first.kind ≠ .symbol .semicolon) (cut : first :: rest = used ++ left)
      (reading : Rule.Statement used statement (nextKind left)) :
      Course source finish first rest
        (lookingAt rest ⟨[definition source statement left], left⟩)
  | refused {refusal : Refusal} (noSign : first.kind ≠ .symbol .semicolon)
      (refused : Production.statement first rest = .error refusal) :
      Course source finish first rest (lookingAt rest (ofRefusal finish refusal rest))

/-- A statement that is recognised has the form of one that is passed over. -/
theorem ofStatement_of_recognised? {source : List Char} {first : Token} {rest : List Token}
    {statement : Statement} (recognised : recognised? first (nextKind rest) = some statement) :
    ofStatement source statement (first :: rest) rest =
      passAfter (recognition first rest statement) rest := by
  unfold recognised? at recognised
  split at recognised
  · cases recognised
  · cases recognised
  · cases recognised
  · split at recognised
    · cases recognised
    · split at recognised
      · cases recognised
      · cases recognised
        rfl
    · cases recognised
      rfl
  · cases recognised
    rfl

/-- A statement that is read to its end defines its measures there. -/
theorem ofStatement_of_rule {source : List Char} {tokens used left : List Token}
    {statement : Statement} {next : TokenKind} (reading : Rule.Statement used statement next) :
    ofStatement source statement tokens left = ⟨[definition source statement left], left⟩ := by
  have defined : (statement.measures.map fun clause => Event.defined (.ofClause source clause)) =
      Event.definitions (statement.measures.map (.ofClause source)) := by
    rw [Event.definitions, List.map_map]
    rfl
  rw [definition, ← defined]
  cases reading <;> rfl

/-- **Every turn goes in one of these ways.** -/
theorem course (source : List Char) (finish : Position) (first : Token) (rest : List Token) :
    Course source finish first rest (ofTokens source finish first rest) := by
  unfold ofTokens
  by_cases sign : first.kind = .symbol .semicolon
  · rw [if_pos sign]
    exact .semicolon sign
  · rw [if_neg sign]
    cases outcome : Production.statement first rest with
    | error refusal => exact .refused sign outcome
    | ok parsed =>
      have reading : Yields (Production.statement first rest) parsed.value parsed.rest :=
        ⟨parsed, outcome, rfl, rfl⟩
      rcases yields_statement reading with ⟨recognised, same⟩ | ⟨used, cut, read⟩
      · simp only [same, ofStatement_of_recognised? recognised]
        exact .passed sign recognised
      · simp only [ofStatement_of_rule read]
        exact .read sign cut read

/-! ## What is told in a turn -/

/-- Passing over tokens is silent. -/
theorem events_pass (depth : Nat) (tokens : List Token) : (pass depth tokens).1.events = [] := by
  induction tokens generalizing depth with
  | nil => rfl
  | cons token rest ih =>
    unfold pass
    simp only
    split
    · split
      · rfl
      · exact ih _
    · split
      · rfl
      · exact ih _
    all_goals exact ih _

/-- Nothing but diagnostics about tokens is told at a moment besides its events. -/
theorem flatMap_measures_events (faults : List (List Diagnostic)) (moments : List Moment) :
    (events faults moments).1.flatMap Event.measures =
      moments.flatMap fun moment => moment.events.flatMap Event.measures := by
  induction moments generalizing faults with
  | nil => rfl
  | cons moment moments ih =>
    simp only [events, List.flatMap_append, Event.measures_diagnosed, List.nil_append, ih,
      List.flatMap_cons]

/-- The groups of diagnostics are those that are told and those that are left for later. -/
theorem exists_told (faults : List (List Diagnostic)) (moments : List Moment) :
    ∃ told, faults = told ++ (events faults moments).2 ∧
      ((events faults moments).1.flatMap Event.diagnostics = [] → told.flatten = []) := by
  induction moments generalizing faults with
  | nil => exact ⟨[], rfl, fun _ => rfl⟩
  | cons moment moments ih =>
    let due := faults.length - moment.unseen
    obtain ⟨told, split, silent⟩ := ih (faults.drop due)
    refine ⟨faults.take due ++ told, ?_, fun quiet => ?_⟩
    · rw [List.append_assoc]
      exact (List.take_append_drop due faults).symm.trans (congrArg (faults.take due ++ ·) split)
    · simp only [events, List.flatMap_append, List.append_eq_nil_iff, Event.diagnostics_diagnosed]
        at quiet
      rw [List.flatten_append, quiet.1.1, silent quiet.2]
      rfl

/-- The groups left for later are the last ones. -/
theorem events_suffix (faults : List (List Diagnostic)) (moments : List Moment) :
    (events faults moments).2 <:+ faults := by
  obtain ⟨told, split, _⟩ := exists_told faults moments
  exact ⟨told, split.symm⟩

/-- After a moment there are no more groups than tokens nobody had looked at. -/
theorem length_events_le {faults : List (List Diagnostic)} {moments : List Moment}
    {moment : Moment} (member : moment ∈ moments) :
    (events faults moments).2.length ≤ moment.unseen := by
  induction moments generalizing faults with
  | nil => cases member
  | cons first moments ih =>
    rcases List.mem_cons.mp member with rfl | later
    · have fewer := (events_suffix (faults.drop (faults.length - moment.unseen)) moments).length_le
      simp only [events, List.length_drop] at fewer ⊢
      omega
    · exact ih later

/-- A diagnostic told in a turn is about a token, or one of the events. -/
theorem mem_diagnostics_events {faults : List (List Diagnostic)} {moments : List Moment}
    {diagnostic : Diagnostic}
    (member : diagnostic ∈ (events faults moments).1.flatMap Event.diagnostics) :
    diagnostic ∈ faults.flatten ∨
      ∃ moment ∈ moments, diagnostic ∈ moment.events.flatMap Event.diagnostics := by
  induction moments generalizing faults with
  | nil => cases member
  | cons moment moments ih =>
    simp only [events, List.flatMap_append, Event.diagnostics_diagnosed, List.mem_append]
      at member
    rcases member with (due | own) | later
    · exact .inl ((List.take_sublist _ _).flatten.subset due)
    · exact .inr ⟨moment, .head _, own⟩
    · rcases ih later with left | ⟨inner, isLater, told⟩
      · exact .inl ((List.drop_sublist _ _).flatten.subset left)
      · exact .inr ⟨inner, .tail _ isLater, told⟩

/-- The diagnostics among the events of a turn are told in it. -/
theorem diagnostics_subset_events {faults : List (List Diagnostic)} {moments : List Moment} :
    (moments.flatMap fun moment => moment.events.flatMap Event.diagnostics) ⊆
      (events faults moments).1.flatMap Event.diagnostics := by
  induction moments generalizing faults with
  | nil => exact List.nil_subset _
  | cons moment moments ih =>
    simp only [events, List.flatMap_append, List.flatMap_cons]
    intro diagnostic member
    rcases List.mem_append.mp member with own | later
    · exact List.mem_append_left _ (List.mem_append_right _ own)
    · exact List.mem_append_right _ (ih later)

/-- Where nothing is wrong with the text nothing is told but the events, up to the groups for the
tokens that nobody has looked at. -/
theorem events_replicate {groups : List (List Diagnostic)} {moments : List Moment}
    (unseen : ∀ moment ∈ moments, groups.length ≤ moment.unseen) (count : Nat) :
    ∃ fewer, events (List.replicate count [] ++ groups) moments =
        (moments.flatMap (·.events), List.replicate fewer [] ++ groups) ∧
      ((∃ moment ∈ moments, moment.unseen = groups.length) → fewer = 0) := by
  induction moments generalizing count with
  | nil => exact ⟨count, rfl, fun ⟨_, member, _⟩ => absurd member List.not_mem_nil⟩
  | cons moment moments ih =>
    rw [List.forall_mem_cons] at unseen
    let due := count + groups.length - moment.unseen
    have split : List.replicate count ([] : List Diagnostic) ++ groups =
        List.replicate due [] ++ (List.replicate (count - due) [] ++ groups) := by
      rw [← List.append_assoc, List.replicate_append_replicate]
      congr 2
      omega
    obtain ⟨fewer, later, none⟩ := ih unseen.2 (count - due)
    have length : (List.replicate count ([] : List Diagnostic) ++ groups).length - moment.unseen =
        (List.replicate due ([] : List Diagnostic)).length := by simp [due]
    have silent : (List.replicate due ([] : List Diagnostic)).flatten = [] := by simp
    refine ⟨fewer, ?_, ?_⟩
    · simp only [events, length]
      rw [split, List.take_left, List.drop_left, later, silent]
      rfl
    · rintro ⟨seen, member, same⟩
      rcases List.mem_cons.mp member with rfl | isLater
      · -- No empty groups are left here, and later there are no more.
        have shrinks :=
          (events_suffix (List.replicate (count - due) [] ++ groups) moments).length_le
        rw [later, List.length_append, List.length_append, List.length_replicate,
          List.length_replicate] at shrinks
        omega
      · exact none ⟨seen, isLater, same⟩

/-- What is told at the last of two moments comes last. -/
theorem events_pair (faults : List (List Diagnostic)) (unseen : Nat) (last : Moment) :
    ∃ told : List Diagnostic,
      (events faults [⟨unseen, []⟩, last]).1 = told.map .diagnosed ++ last.events := by
  let due := faults.length - unseen
  let left := faults.drop due
  refine ⟨(faults.take due).flatten ++ (left.take (left.length - last.unseen)).flatten, ?_⟩
  simp only [events, List.append_nil, List.map_append, List.append_assoc]
  rfl

end Turn

/-! ## The measures of a turn -/

/-- The measures that a statement of a source defines, none if it was refused. -/
def measuresOf (source : List Char) (statement? : Option Statement) : List Measure :=
  (statement?.elim [] Statement.measures).map (.ofClause source)

/-- The statement that begins with a token, unless it is refused. -/
def statementAt? (first : Token) (rest : List Token) : Option Statement :=
  (Production.statement first rest).toOption.map (·.value)

theorem statementAt?_of_yields {first : Token} {rest left : List Token} {statement : Statement}
    (reading : Yields (Production.statement first rest) statement left) :
    statementAt? first rest = some statement := by
  obtain ⟨parsed, outcome, rfl, _⟩ := reading
  rw [statementAt?, outcome]
  rfl

namespace Turn

/-- Whether a statement is passed over once it has been recognised. -/
def isPassed : Statement → Bool
  | .createOther _ _ | .unsupported _ => true
  | _ => false

theorem isPassed_of_recognised? {first : Token} {next : TokenKind} {statement : Statement}
    (recognised : recognised? first next = some statement) : isPassed statement = true := by
  unfold recognised? at recognised
  split at recognised
  · cases recognised
  · cases recognised
  · cases recognised
  · split at recognised
    · cases recognised
    · split at recognised <;> cases recognised
      rfl
    · cases recognised
      rfl
  · cases recognised
    rfl

end Turn

/-- A statement that is read is none that is passed over. -/
theorem Rule.Statement.isPassed_eq_false {used : List Token} {statement : DaxScript.Statement}
    {next : TokenKind} (reading : Rule.Statement used statement next) :
    Turn.isPassed statement = false := by
  cases reading <;> rfl

/-- A statement that is passed over defines nothing. -/
theorem measures_of_recognised? {first : Token} {next : TokenKind} {statement : Statement}
    (recognised : recognised? first next = some statement) : statement.measures = [] := by
  have isPassed := Turn.isPassed_of_recognised? recognised
  cases statement <;> first | rfl | cases isPassed

namespace Turn.Course

variable {source : List Char} {finish : Position} {first : Token} {rest : List Token} {turn : Turn}

/-- The measures that a turn records if nothing is wrong. -/
def measures (source : List Char) (first : Token) (rest : List Token) : List Measure :=
  if first.kind = .symbol .semicolon then [] else measuresOf source (statementAt? first rest)

/-- **The measures of a statement are defined last in its turn.** -/
theorem events_eq (course : Course source finish first rest turn)
    (faults : List (List Diagnostic)) :
    ∃ told : List Event, told.flatMap Event.measures = [] ∧
      (events faults turn.moments).1 = told ++ Event.definitions (measures source first rest) := by
  have silent (quiet : turn.moments.flatMap (·.events.flatMap Event.measures) = [])
      (none : measures source first rest = []) : ∃ told : List Event,
        told.flatMap Event.measures = [] ∧ (events faults turn.moments).1 =
          told ++ Event.definitions (measures source first rest) := by
    rw [none]
    have same := (flatMap_measures_events faults turn.moments).trans quiet
    exact ⟨_, same, (List.append_nil _).symm⟩
  cases course with
  | semicolon sign => exact silent rfl (if_pos sign)
  | @passed statement noSign recognised =>
    refine silent ?_ ?_
    · have quiet : (recognition first rest statement).events.flatMap Event.measures = [] := by
        cases statement <;> rfl
      simp [lookingAt, passAfter, quiet, events_pass]
    · rw [measures, if_neg noSign, statementAt?, statement_of_recognised? recognised]
      simp [measuresOf, Except.toOption, measures_of_recognised? recognised]
  | @read statement used left noSign cut reading =>
    obtain ⟨told, same⟩ := events_pair faults (rest.length + 1) (definition source statement left)
    refine ⟨told.map .diagnosed, Event.measures_diagnosed told, same.trans ?_⟩
    have found := statementAt?_of_yields (yields_statement_of_rule cut reading)
    rw [measures, if_neg noSign, found]
    rfl
  | @refused refusal noSign refused =>
    refine silent ?_ ?_
    · simp [lookingAt, ofRefusal, passAfter, events_pass, Event.measures]
    · rw [measures, if_neg noSign, statementAt?, refused]
      rfl

/-- The measures of a turn are recorded unless something is wrong by its end. -/
theorem measures_afterTurn (course : Course source finish first rest turn)
    (recording : Recording) (faults : List (List Diagnostic)) :
    (recording.afterTurn faults turn).measures = recording.measures ++
      if (recording.afterTurn faults turn).collector.hasErrors then []
      else measures source first rest := by
  obtain ⟨told, quiet, same⟩ := course.events_eq faults
  rw [Recording.afterTurn, same]
  exact recording.measures_foldl_add_append quiet _

/-- A refusal is told in its turn. -/
theorem diagnostics_ne_nil (course : Course source finish first rest turn)
    (noSign : first.kind ≠ .symbol .semicolon) (none : statementAt? first rest = none)
    (faults : List (List Diagnostic)) :
    (events faults turn.moments).1.flatMap Event.diagnostics ≠ [] := by
  cases course with
  | semicolon sign => exact absurd sign noSign
  | passed _ recognised =>
    rw [statementAt?, statement_of_recognised? recognised] at none
    cases none
  | read _ cut reading =>
    rw [statementAt?_of_yields (yields_statement_of_rule cut reading)] at none
    cases none
  | refused => simp [lookingAt, ofRefusal, passAfter, events, Event.diagnostics]

end Turn.Course

end DaxScript
