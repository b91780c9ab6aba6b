import DaxScript.Proofs.ErrorLimit
import DaxScript.Proofs.Grammar.Blame
import DaxScript.Proofs.LosslessTokens
import DaxScript.Proofs.MeasuresBeforeErrors
import DaxScript.Proofs.Script.Resuming

/-!
# Everything is told once

Two kinds of diagnostics are told of a script, each in an order of its own.  What is wrong with the
text is told as the tokens are looked at, however far ahead that is, and no such diagnostic is lost,
told twice or told out of order (`Turn.filter_allEvents`).  A statement that is refused is told in
its turn, and no turn tells anything else (`Turn.told_ofTokens`).

A refusal blames a token behind the first one of its statement, and reading goes on at the blamed
token or behind it (`Production.within_statement`).  The first token of the next statement is not
blamed any more, so the places of what is refused go up strictly (`Turn.pairwise_allTold`), whatever
is looked at and whatever is passed over in between.

A limit on errors cuts all of this off at some point (`toldOnce`).
-/

set_option autoImplicit false

namespace DaxScript

/-- Whether a diagnostic is about the text and not about tokens. -/
def Diagnostic.isLexical (diagnostic : Diagnostic) : Bool :=
  diagnostic.kind == .lexical

/-- A refusal is not about the text. -/
theorem Refusal.isLexical_diagnostic (refusal : Refusal) (finish : Position) :
    (refusal.diagnostic finish).isLexical = false := by
  obtain ⟨issue, _, _, _⟩ := refusal
  cases issue <;> rfl

/-- What is wrong with pieces is about the text. -/
theorem Piece.isLexical_of_mem_faults {position : Position} {pieces : List Piece} :
    ∀ diagnostic ∈ (faults position pieces).flatten, diagnostic.isLexical = true := by
  intro diagnostic member
  obtain ⟨_, _, _, _, told⟩ := mem_flatten_faults_iff.mp member
  obtain ⟨_, _, rfl⟩ := mem_diagnostics_iff.mp told
  rfl

/-- Of diagnostics about the text none is left out, and of others all are. -/
theorem filter_isLexical {diagnostics : List Diagnostic} {lexical : Bool}
    (same : ∀ diagnostic ∈ diagnostics, diagnostic.isLexical = lexical) :
    diagnostics.filter (·.isLexical) = (if lexical then diagnostics else []) ∧
      diagnostics.filter (!·.isLexical) = (if lexical then [] else diagnostics) := by
  cases lexical with
  | true => exact ⟨List.filter_eq_self.mpr same, List.filter_eq_nil_iff.mpr (by simpa using same)⟩
  | false => exact ⟨List.filter_eq_nil_iff.mpr (by simpa using same),
      List.filter_eq_self.mpr (by simpa using same)⟩

namespace Turn

/-! ## What a turn tells -/

/-- **A turn tells of its refusal**, and of nothing else but what is wrong with the text. -/
theorem told_ofTokens (source : List Char) (finish : Position) (first : Token)
    (rest : List Token) : (ofTokens source finish first rest).told =
      ((refusal? first rest).map (·.diagnostic finish)).toList := by
  by_cases sign : first.kind = .symbol .semicolon
  · rw [ofTokens_semicolon sign, refusal?, if_pos sign]
    rfl
  · unfold ofTokens refusal?
    simp only [if_neg sign]
    cases Production.statement first rest with
    | ok parsed =>
      exact (told_lookingAt rest _).trans (ofStatement_cases source parsed.value _ _).1
    | error refusal => exact (told_lookingAt rest _).trans (told_passAfter _ _)

theorem isLexical_of_mem_told {source : List Char} {finish : Position} {first : Token}
    {rest : List Token} :
    ∀ diagnostic ∈ (ofTokens source finish first rest).told, diagnostic.isLexical = false := by
  intro diagnostic member
  rw [told_ofTokens, Option.mem_toList, Option.map_eq_some_iff] at member
  obtain ⟨refusal, _, rfl⟩ := member
  exact refusal.isLexical_diagnostic finish

/-- What is told at some moments is what is wrong with the text and has come up by then, with the
events in between. -/
theorem filter_events {faults : List (List Diagnostic)} {moments : List Moment}
    (lexical : ∀ diagnostic ∈ faults.flatten, diagnostic.isLexical = true)
    (own : ∀ diagnostic ∈ moments.flatMap fun moment => moment.events.flatMap Event.diagnostics,
      diagnostic.isLexical = false) :
    ((events faults moments).1.flatMap Event.diagnostics).filter (·.isLexical) ++
        (events faults moments).2.flatten = faults.flatten ∧
      ((events faults moments).1.flatMap Event.diagnostics).filter (!·.isLexical) =
        moments.flatMap fun moment => moment.events.flatMap Event.diagnostics := by
  induction moments generalizing faults with
  | nil => exact ⟨rfl, rfl⟩
  | cons moment moments ih =>
    let due := faults.length - moment.unseen
    rw [List.flatMap_cons, List.forall_mem_append] at own
    have split : (faults.take due).flatten ++ (faults.drop due).flatten = faults.flatten := by
      rw [← List.flatten_append, List.take_append_drop]
    rw [← split, List.forall_mem_append] at lexical
    obtain ⟨texts, others⟩ := ih lexical.2 own.2
    obtain ⟨dueTexts, dueOthers⟩ := filter_isLexical lexical.1
    obtain ⟨ownTexts, ownOthers⟩ := filter_isLexical own.1
    rw [if_pos rfl] at dueTexts dueOthers
    rw [if_neg Bool.false_ne_true] at ownTexts ownOthers
    simp only [events, List.flatMap_append, Event.diagnostics_diagnosed, List.filter_append,
      List.flatMap_cons]
    change _ ∧ _
    rw [dueTexts, dueOthers, ownTexts, ownOthers, others, ← split, ← texts]
    simp [due]

/-- **Nothing that is wrong with the text is lost, told twice or told out of order**, and all else
that is told are the refusals. -/
theorem filter_allEvents {source : List Char} {finish : Position} {tokens : List Token}
    {faults : List (List Diagnostic)}
    (lexical : ∀ diagnostic ∈ faults.flatten, diagnostic.isLexical = true) :
    let told := (allEvents faults (all source finish tokens)).flatten.flatMap Event.diagnostics
    told.filter (·.isLexical) = faults.flatten ∧
      told.filter (!·.isLexical) = allTold source finish tokens := by
  induction tokens using Turn.byTurns source finish generalizing faults with
  | nil =>
    have atEnd : (allEvents faults (all source finish [])).flatten.flatMap Event.diagnostics =
        faults.flatten := by
      rw [all]
      simp only [allEvents, events, Nat.sub_zero, List.take_length, List.append_nil,
        List.flatten_cons, List.flatten_nil, Event.diagnostics_diagnosed]
    rw [atEnd, allTold_nil]
    exact filter_isLexical lexical
  | turn first rest ih =>
    obtain ⟨texts, others⟩ :=
      filter_events lexical (@isLexical_of_mem_told source finish first rest)
    have left : (events faults (ofTokens source finish first rest).moments).2 <:+ faults :=
      events_suffix _ _
    obtain ⟨textsLater, othersLater⟩ := ih fun diagnostic member =>
      lexical diagnostic (mem_flatten_of_suffix left member)
    rw [all, allTold_cons]
    simp only [allEvents, List.flatten_cons, List.flatMap_append, List.filter_append]
    exact ⟨by rw [textsLater, texts], by rw [othersLater, others]; rfl⟩

/-! ## The places of what is refused -/

/-- Tokens whose places go up strictly, all in front of the end. -/
structure GoesUp (finish : Position) (tokens : List Token) : Prop where
  ordered : tokens.Pairwise fun first second => first.position.offset < second.position.offset
  ends : ∀ token ∈ tokens, token.position.offset < finish.offset

namespace GoesUp

variable {finish : Position} {tokens : List Token}

theorem suffix (goesUp : GoesUp finish tokens) {left : List Token} (part : left <:+ tokens) :
    GoesUp finish left :=
  ⟨goesUp.ordered.sublist part.sublist, fun token member => goesUp.ends token (part.subset member)⟩

/-- What blames tokens is about a place behind anything in front of them, and not behind any token
from the blamed one on. -/
theorem blamed {first : Token} {rest : List Token} (goesUp : GoesUp finish (first :: rest))
    {refusal : Refusal} (blames : refusal.Blames rest) :
    first.position.offset < (refusal.diagnostic finish).position.offset ∧
      ∀ left, left <:+ rest → left.length ≤ refusal.unread →
        ∀ token ∈ left, (refusal.diagnostic finish).position.offset ≤ token.position.offset := by
  obtain ⟨blamed, part, position, unread, _⟩ := blames
  have ahead := (List.pairwise_cons.mp goesUp.ordered).1
  have place : (refusal.diagnostic finish).position = (nextPosition? blamed).getD finish := by
    rw [← position]
    rfl
  rw [place]
  cases blamed with
  | nil =>
    refine ⟨goesUp.ends first (.head _), fun left _ shorter token member => ?_⟩
    have none : left = [] := List.length_eq_zero_iff.mp (Nat.le_zero.mp (shorter.trans unread))
    rw [none] at member
    cases member
  | cons next others =>
    refine ⟨ahead next (part.subset (.head _)), fun left isLeft shorter token member => ?_⟩
    have inner : left <:+ next :: others :=
      List.suffix_of_suffix_length_le isLeft part (shorter.trans unread)
    have ordered := (goesUp.suffix (part.trans (List.suffix_cons first rest))).ordered
    rcases List.mem_cons.mp (inner.subset member) with rfl | isOther
    · exact Nat.le_refl _
    · exact Nat.le_of_lt ((List.pairwise_cons.mp ordered).1 token isOther)

end GoesUp

/-- A turn that is refused leaves no more than its refusal does. -/
theorem rest_of_refused {source : List Char} {finish : Position} {first : Token}
    {rest : List Token} {refusal : Refusal} (refused : refusal? first rest = some refusal) :
    refusal.Blames rest ∧ (ofTokens source finish first rest).rest <:+ rest ∧
      (ofTokens source finish first rest).rest.length ≤ refusal.unread := by
  unfold refusal? at refused
  unfold ofTokens
  split at refused
  · cases refused
  · next noSign =>
    split at refused
    · next found outcome =>
      obtain rfl : found = refusal := Option.some.inj refused
      simp only [if_neg noSign, outcome, ofRefusal, passAfter]
      have passed := pass_suffix 0 (rest.drop (rest.length - found.unread))
      refine ⟨Production.blames_of_refused outcome, passed.trans (List.drop_suffix _ _), ?_⟩
      have shorter := passed.length_le
      rw [List.length_drop] at shorter
      omega
    · cases refused

/-- **What is refused goes up strictly**, and all of it is behind the first token. -/
theorem pairwise_allTold {source : List Char} {finish : Position} {tokens : List Token}
    (goesUp : GoesUp finish tokens) :
    (allTold source finish tokens).Pairwise (fun first second =>
        first.position.offset < second.position.offset) ∧
      ∀ token ∈ tokens.head?, ∀ diagnostic ∈ allTold source finish tokens,
        token.position.offset < diagnostic.position.offset := by
  induction tokens using Turn.byTurns source finish with
  | nil =>
    rw [allTold_nil]
    exact ⟨.nil, fun _ none => by cases none⟩
  | turn first rest ih =>
    have left : (ofTokens source finish first rest).rest <:+ first :: rest :=
      (course source finish first rest).rest_suffix
    obtain ⟨ordered, behind⟩ := ih (goesUp.suffix left)
    rw [allTold_cons, told_ofTokens]
    -- What is told later is told behind the token with which the next turn begins.
    have later : ∀ diagnostic ∈ allTold source finish (ofTokens source finish first rest).rest,
        ∃ token ∈ (ofTokens source finish first rest).rest,
          token.position.offset < diagnostic.position.offset := by
      intro diagnostic told
      cases isLeft : (ofTokens source finish first rest).rest with
      | nil =>
        rw [isLeft, allTold_nil] at told
        cases told
      | cons token others => exact ⟨token, .head _, behind token (by rw [isLeft]; rfl) _ told⟩
    have behindFirst : ∀ diagnostic ∈
        allTold source finish (ofTokens source finish first rest).rest,
        first.position.offset < diagnostic.position.offset := by
      intro diagnostic told
      obtain ⟨token, member, before⟩ := later diagnostic told
      rcases List.mem_cons.mp (left.subset member) with rfl | isLater
      · exact before
      · exact Nat.lt_trans ((List.pairwise_cons.mp goesUp.ordered).1 token isLater) before
    cases refused : refusal? first rest with
    | none =>
      refine ⟨ordered, fun token isFirst => ?_⟩
      obtain rfl : first = token := Option.some.inj isFirst
      exact behindFirst
    | some refusal =>
      obtain ⟨blames, isLeft, shorter⟩ :=
        @rest_of_refused source finish first rest refusal refused
      obtain ⟨ahead, notBehind⟩ := goesUp.blamed blames
      refine ⟨List.pairwise_cons.mpr ⟨fun diagnostic told => ?_, ordered⟩, fun token isFirst => ?_⟩
      · obtain ⟨token, member, before⟩ := later diagnostic told
        exact Nat.lt_of_le_of_lt (notBehind _ isLeft shorter token member) before
      · obtain rfl : first = token := Option.some.inj isFirst
        exact List.forall_mem_cons.mpr ⟨ahead, behindFirst⟩

end Turn

/-- The tokens of a source go up strictly. -/
theorem Input.goesUp (source : String) :
    Turn.GoesUp (ofSource source).finish (ofSource source).tokens := by
  have places : ∀ token ∈ (ofSource source).tokens,
      token ∈ Piece.allTokens .start (Piece.all source.toList) ∧
        token.span.start = token.position.offset := by
    intro token member
    obtain ⟨member, meaning⟩ := List.mem_filter.mp member
    rw [tokenize_eq] at member
    rcases List.mem_append.mp member with own | isLast
    · obtain ⟨_, _, _, _, _, _, rfl, _, _⟩ := Piece.exists_of_mem_source own
      exact ⟨own, rfl⟩
    · rw [List.mem_singleton.mp isLast] at meaning
      cases meaning
  constructor
  · refine ((pairwise_tokenize source).filter _).imp_of_mem fun isFirst isSecond before => ?_
    rw [← (places _ isFirst).2, ← (places _ isSecond).2]
    exact before.1
  · intro token member
    obtain ⟨own, start⟩ := places token member
    have finish : (ofSource source).finish.offset = byteLength source.toList := by
      simp [ofSource, Position.start]
    rw [← start, finish]
    exact Nat.lt_of_lt_of_le (Piece.start_lt_stop own) (Piece.stop_le_byteLength own)

/-! ## What is kept -/

namespace StatementReport

/-- How many diagnostics about tokens a statement brings about: one if it is refused. -/
def refusals (report : StatementReport) : Nat :=
  if report.statement?.isNone then 1 else 0

/-- From what is recorded before some statements to what is recorded in the end: each statement
adds its refusal, if it is refused and there is room, and otherwise nothing but what is wrong with
the text. -/
inductive AddsOnce (complete : Bool) :
    List Diagnostic → List StatementReport → List Diagnostic → Prop where
  | done {before added : List Diagnostic}
      (lexical : ∀ diagnostic ∈ added, diagnostic.isLexical = true) :
      AddsOnce complete before [] (before ++ added)
  | statement {before added after : List Diagnostic} {report : StatementReport}
      {reports : List StatementReport} (recorded : report.recorded = before ++ added)
      (atMost : (added.filter (!·.isLexical)).length ≤ report.refusals)
      (once : complete = true → (added.filter (!·.isLexical)).length = report.refusals)
      (later : AddsOnce complete report.recorded reports after) :
      AddsOnce complete before (report :: reports) after

/-- What is told between two statements is told with the second one. -/
theorem AddsOnce.behind {complete : Bool} {before between after : List Diagnostic}
    {reports : List StatementReport}
    (lexical : ∀ diagnostic ∈ between, diagnostic.isLexical = true)
    (adds : AddsOnce complete (before ++ between) reports after) :
    AddsOnce complete before reports after := by
  have none : between.filter (!·.isLexical) = [] := (filter_isLexical lexical).2
  generalize whole : before ++ between = start at adds
  cases adds with
  | done more =>
    rw [← whole, List.append_assoc]
    exact .done (List.forall_mem_append.mpr ⟨lexical, more⟩)
  | @statement _ added _ report _ recorded atMost once later =>
    rw [← whole, List.append_assoc] at recorded
    refine .statement recorded ?_ ?_ later
    · rwa [List.filter_append, none]
    · rwa [List.filter_append, none]

/-- A statement has a refusal to tell exactly if it is refused. -/
theorem length_refusal? {first : Token} {rest : List Token}
    (noSign : first.kind ≠ .symbol .semicolon) (finish : Position) (recorded : List Diagnostic) :
    ((Turn.refusal? first rest).map (·.diagnostic finish)).toList.length =
      (StatementReport.mk (statementAt? first rest) recorded).refusals := by
  rw [Turn.refusal?, if_neg noSign, refusals, statementAt?]
  cases Production.statement first rest <;> rfl

section All

variable {source : List Char} {finish : Position} {recording : Recording}
  {faults : List (List Diagnostic)} {tokens : List Token}

/-- What a turn adds: no diagnostics about tokens but its refusal, which is kept unless something
has been dropped. -/
theorem exists_added {first : Token} {rest : List Token}
    (lexical : ∀ diagnostic ∈ faults.flatten, diagnostic.isLexical = true) :
    let after := recording.afterTurn faults (Turn.ofTokens source finish first rest)
    let refused := ((Turn.refusal? first rest).map (·.diagnostic finish)).toList
    ∃ added, after.collector.items = recording.collector.items ++ added ∧
      (added.filter (!·.isLexical)).length ≤ refused.length ∧
      (after.collector.overflowed = false →
        (added.filter (!·.isLexical)).length = refused.length) := by
  intro after refused
  have others := (Turn.filter_events lexical
    (@Turn.isLexical_of_mem_told source finish first rest)).2
  have told : _ = refused := others.trans (Turn.told_ofTokens source finish first rest)
  obtain ⟨kept, isPrefix, items, all⟩ := recording.collector.exists_kept
    ((Turn.events faults (Turn.ofTokens source finish first rest).moments).1.flatMap
      Event.diagnostics)
  rw [← Recording.collector_afterTurn] at items all
  rw [← told]
  refine ⟨kept, items, (isPrefix.filter _).length_le, fun room => ?_⟩
  rw [all room]

/-- **Every statement is told once**, from any point between two turns on. -/
theorem addsOnce_all (lexical : ∀ diagnostic ∈ faults.flatten, diagnostic.isLexical = true) :
    AddsOnce (recording.readOn source finish faults tokens).isComplete recording.collector.items
      (all source finish recording faults tokens)
      (recording.readOn source finish faults tokens).collector.items := by
  have nothing (recording : Recording) (complete : Bool) :
      AddsOnce complete recording.collector.items [] recording.collector.items := by
    have stays := @AddsOnce.done complete recording.collector.items [] (by simp)
    rwa [List.append_nil] at stays
  induction tokens using Turn.byTurns source finish generalizing recording faults with
  | nil =>
    rw [all]
    cases room : recording.collector.overflowed with
    | true =>
      rw [recording.readOn_of_overflowed _ _ _ _ room]
      exact nothing _ _
    | false =>
      obtain ⟨kept, isPrefix, items, _⟩ := recording.collector.exists_kept faults.flatten
      rw [recording.readOn_nil _ _ _ room, Recording.collector_foldl_add,
        Event.diagnostics_diagnosed, items]
      exact .done fun diagnostic member => lexical diagnostic (isPrefix.subset member)
  | turn first rest ih =>
    cases room : recording.collector.overflowed with
    | true =>
      rw [all, if_pos room, recording.readOn_of_overflowed _ _ _ _ room]
      exact nothing _ _
    | false =>
      have left := Turn.events_suffix faults (Turn.ofTokens source finish first rest).moments
      have later := @ih (recording.afterTurn faults (Turn.ofTokens source finish first rest)) _
        fun diagnostic member => lexical diagnostic (mem_flatten_of_suffix left member)
      obtain ⟨added, items, atMost, once⟩ :=
        @exists_added source finish recording faults first rest lexical
      rw [recording.readOn_cons _ _ _ _ _ room, all_cons first rest room]
      dsimp only
      split
      · next sign =>
        -- At a semicolon nothing is told but what is wrong with the text.
        rw [Turn.refusal?, if_pos sign] at atMost
        have none : added.filter (!·.isLexical) = [] :=
          List.length_eq_zero_iff.mp (Nat.le_zero.mp atMost)
        rw [items] at later
        exact .behind (by simpa using List.filter_eq_nil_iff.mp none) later
      · next noSign =>
        rw [length_refusal? noSign finish (recording.afterTurn faults
          (Turn.ofTokens source finish first rest)).collector.items] at atMost once
        refine .statement items atMost (fun complete => once ?_) later
        -- A script that is read to its end has dropped nothing on the way.
        refine Bool.eq_false_iff.mpr fun dropped => ?_
        rw [Recording.readOn_of_overflowed _ _ _ _ _ dropped, Recording.isComplete, dropped]
          at complete
        cases complete

end All

end StatementReport

/-! ## Whole scripts -/

theorem isLexical_of_mem_faults (source : String) :
    ∀ diagnostic ∈ (Input.ofSource source).faults.flatten, diagnostic.isLexical = true := by
  rw [Input.faults_ofSource]
  exact Piece.isLexical_of_mem_faults

/-- **What is told of a script is what is wrong with its text and what is refused.** -/
theorem filter_toldDiagnostics (source : String) :
    (toldDiagnostics source).filter (·.isLexical) = lexicalDiagnostics source ∧
      (toldDiagnostics source).filter (!·.isLexical) =
        Turn.allTold source.toList (Input.ofSource source).finish
          (Input.ofSource source).tokens := by
  rw [lexicalDiagnostics_eq, ← Input.faults_ofSource]
  exact Turn.filter_allEvents (isLexical_of_mem_faults source)

/-- What is recorded of a script is told once. -/
structure ToldOnce (source : String) (recording : Recording) (reports : List StatementReport) :
    Prop where
  /-- What is wrong with the text is told in its order, as far as anything is told. -/
  lexical : recording.collector.items.filter (·.isLexical) <+: lexicalDiagnostics source
  complete : recording.isComplete = true →
    recording.collector.items.filter (·.isLexical) = lexicalDiagnostics source
  /-- The places of everything else go up strictly. -/
  ordered : (recording.collector.items.filter (!·.isLexical)).Pairwise fun first second =>
    first.position.offset < second.position.offset
  /-- There is one of these for each statement that is refused. -/
  once : StatementReport.AddsOnce recording.isComplete [] reports recording.collector.items

/-- **Everything is told once**, under every limit: what is wrong with the text is neither lost nor
told twice nor told out of order, and each statement that is refused is told once. -/
theorem toldOnce (source : String) (options : ScriptOptions) :
    ToldOnce source (readScript source options) (StatementReport.ofSource source options) := by
  obtain ⟨texts, others⟩ := filter_toldDiagnostics source
  have items : (readScript source options).collector.items <+: toldDiagnostics source := by
    rw [collector_readScript]
    exact List.take_prefix _ _
  constructor
  case lexical =>
    rw [← texts]
    exact items.filter _
  case complete =>
    intro complete
    rw [Recording.isComplete, collector_readScript, Bool.not_eq_true', decide_eq_false_iff_not,
      Nat.not_lt] at complete
    rw [collector_readScript, List.take_of_length_le complete, texts]
  case ordered =>
    have whole := (@Turn.pairwise_allTold source.toList _ _ (Input.goesUp source)).1
    rw [← others] at whole
    exact whole.sublist (items.filter _).sublist
  case once =>
    rw [readScript_eq_readOn]
    exact StatementReport.addsOnce_all (isLexical_of_mem_faults source)

end DaxScript
