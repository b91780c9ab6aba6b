import DaxScript.Proofs.ToldOnce

/-!
# What is told of a single statement

A script comes to a statement when one of its turns begins with the tokens of the statement
(`Turn.IsAt`).  What is told in that turn, besides what is wrong with the text, are the events of
the turn and nothing else (`turnEvents_of_isAt`), and where the statement is all of the script and
nothing is wrong with the text this is all that is recorded (`recorded_of_single`).  Both are
properties of the statement and the source of its text only (`StatementTells`).
-/

set_option autoImplicit false

namespace DaxScript

/-- Whether an event tells what is wrong with the text. -/
def Event.isLexical : Event → Bool
  | diagnosed diagnostic => diagnostic.isLexical
  | _ => false

namespace Turn

/-- The events of a turn, in order. -/
def ownEvents (turn : Turn) : List Event :=
  turn.moments.flatMap (·.events)

/-- **The events of some moments are told, and besides them only what is wrong with the text.** -/
theorem filter_isLexical_events {faults : List (List Diagnostic)} {moments : List Moment}
    (lexical : ∀ diagnostic ∈ faults.flatten, diagnostic.isLexical = true)
    (own : ∀ event ∈ moments.flatMap (·.events), event.isLexical = false) :
    (events faults moments).1.filter (!·.isLexical) = moments.flatMap (·.events) := by
  induction moments generalizing faults with
  | nil => rfl
  | cons moment moments ih =>
    let due := faults.length - moment.unseen
    rw [List.flatMap_cons, List.forall_mem_append] at own
    have split : (faults.take due).flatten ++ (faults.drop due).flatten = faults.flatten := by
      rw [← List.flatten_append, List.take_append_drop]
    rw [← split, List.forall_mem_append] at lexical
    have texts : ((faults.take due).flatten.map Event.diagnosed).filter (!·.isLexical) = [] := by
      rw [List.filter_eq_nil_iff, List.forall_mem_map]
      intro diagnostic member
      simp [Event.isLexical, lexical.1 diagnostic member]
    have here : moment.events.filter (!·.isLexical) = moment.events := by
      simpa using own.1
    simp only [events, List.filter_append, List.flatMap_cons]
    rw [texts, here, ih lexical.2 own.2, List.nil_append]

/-- The events of a turn are told in the turn with its number. -/
theorem exists_events_of_drop {faults : List (List Diagnostic)} {turns later : List Turn}
    {turn : Turn} {number : Nat} (isAt : turns.drop number = turn :: later) :
    ∃ left, left <:+ faults ∧
      (allEvents faults turns)[number]? = some (events left turn.moments).1 := by
  induction turns generalizing faults number with
  | nil => simp at isAt
  | cons first turns ih =>
    cases number with
    | zero =>
      obtain ⟨rfl, _⟩ := List.cons.inj isAt
      exact ⟨faults, List.suffix_refl _, rfl⟩
    | succ number =>
      obtain ⟨left, isLeft, told⟩ := @ih (events faults first.moments).2 number isAt
      exact ⟨left, isLeft.trans (events_suffix faults first.moments), told⟩

/-- The turn of a script with a number begins with some tokens. -/
def IsAt (source : String) (number : Nat) (tokens : List Token) : Prop :=
  (all source.toList (Input.ofSource source).finish (Input.ofSource source).tokens).drop number =
    all source.toList (Input.ofSource source).finish tokens

end Turn

/-- What is told in a turn of a script besides what is wrong with the text. -/
def turnEvents (source : String) (number : Nat) : List Event :=
  ((scriptEvents source)[number]?.getD []).filter (!·.isLexical)

/-- **What is told of a statement in its turn are the events of the turn.** -/
theorem turnEvents_of_isAt {source : String} {number : Nat} {tokens : List Token} {turn : Turn}
    {later : List Turn} (isAt : Turn.IsAt source number tokens)
    (same : Turn.all source.toList (Input.ofSource source).finish tokens = turn :: later)
    (own : ∀ event ∈ turn.ownEvents, event.isLexical = false) :
    turnEvents source number = turn.ownEvents := by
  obtain ⟨left, isLeft, told⟩ :=
    @Turn.exists_events_of_drop (Input.ofSource source).faults _ _ _ _ (isAt.trans same)
  have lexical : ∀ diagnostic ∈ left.flatten, diagnostic.isLexical = true := by
    intro diagnostic member
    have whole := mem_flatten_of_suffix isLeft member
    rw [Input.faults_ofSource] at whole
    exact Piece.isLexical_of_mem_faults diagnostic whole
  rw [turnEvents, scriptEvents, told, Option.getD_some]
  exact Turn.filter_isLexical_events lexical own

/-- Where nothing is wrong with the text only the events themselves are told. -/
theorem Turn.events_eq_of_silent {faults : List (List Diagnostic)} {moments : List Moment}
    (silent : faults.flatten = []) :
    (events faults moments).1 = moments.flatMap (·.events) ∧
      (events faults moments).2.flatten = [] := by
  induction moments generalizing faults with
  | nil => exact ⟨rfl, silent⟩
  | cons moment moments ih =>
    let due := faults.length - moment.unseen
    have parts : (faults.take due).flatten ++ (faults.drop due).flatten = [] := by
      rw [← List.flatten_append, List.take_append_drop, silent]
    obtain ⟨now, later⟩ := List.append_eq_nil_iff.mp parts
    obtain ⟨same, rest⟩ := ih later
    refine ⟨?_, rest⟩
    simp only [events, List.flatMap_cons]
    rw [now, same]
    rfl

/-- **What is told of a statement that is all of a script is recorded.** -/
theorem recorded_of_single {source : String} {options : ScriptOptions} {tokens : List Token}
    {turn : Turn} {event : Event} (whole : (Input.ofSource source).tokens = tokens)
    (silent : lexicalDiagnostics source = [])
    (same : Turn.all source.toList (Input.ofSource source).finish tokens =
      turn :: Turn.all source.toList (Input.ofSource source).finish [])
    (own : turn.ownEvents = [event]) :
    (readScript source options).measures = event.measures ∧
      (readScript source options).collector.items = event.diagnostics := by
  have noFaults : (Input.ofSource source).faults.flatten = [] := by
    rwa [lexicalDiagnostics_eq, ← Input.faults_ofSource] at silent
  obtain ⟨now, later⟩ := @Turn.events_eq_of_silent _ turn.moments noFaults
  have atEnd := (@Turn.events_eq_of_silent _ [⟨0, []⟩] later).1
  have told : (scriptEvents source).flatten = [event] := by
    rw [scriptEvents, whole, same, Turn.all]
    simp only [Turn.allEvents, List.flatten_cons, List.flatten_nil, List.append_nil, now, atEnd]
    simpa [Turn.ownEvents] using own
  have few : event.diagnostics.length ≤ max options.maxErrors 1 := by
    cases event <;> simp [Event.diagnostics]
  constructor
  · rw [measures_readScript source options.maxErrors, told]
    simp [Event.measuresBeforeError]
  · rw [collector_readScript source options.maxErrors, toldDiagnostics, told]
    simpa using few

/-- **What is told of a statement**, and where reading goes on. -/
structure StatementTells (source : String) (tokens left : List Token) (event : Event) : Prop where
  /-- It is told in the turn of the statement, besides what is wrong with the text. -/
  inTurn : ∀ number, Turn.IsAt source number tokens →
    turnEvents source number = [event] ∧ Turn.IsAt source (number + 1) left
  /-- It is recorded if the script is this statement and nothing is wrong with its text. -/
  alone : (Input.ofSource source).tokens = tokens → left = [] → lexicalDiagnostics source = [] →
    ∀ options, (readScript source options).measures = event.measures ∧
      (readScript source options).collector.items = event.diagnostics

/-- A statement tells the single event of its turn. -/
theorem StatementTells.of_turn {source : String} {first : Token} {rest : List Token} {turn : Turn}
    {event : Event}
    (isTurn : Turn.ofTokens source.toList (Input.ofSource source).finish first rest = turn)
    (own : turn.ownEvents = [event]) (noFault : event.isLexical = false) :
    StatementTells source (first :: rest) turn.rest event := by
  have same : Turn.all source.toList (Input.ofSource source).finish (first :: rest) =
      turn :: Turn.all source.toList (Input.ofSource source).finish turn.rest := by
    rw [Turn.all, isTurn]
  constructor
  · intro number isAt
    refine ⟨?_, ?_⟩
    · rw [turnEvents_of_isAt isAt same (by simpa [own] using noFault), own]
    · rw [Turn.IsAt, ← List.drop_drop, isAt, same]
      rfl
  · intro whole atEnd silent options
    rw [atEnd] at same
    exact recorded_of_single whole silent same own

end DaxScript
