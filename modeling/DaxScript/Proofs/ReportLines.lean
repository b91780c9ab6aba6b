import DaxScript.Proofs.Diagnostic.MessageLines
import DaxScript.Proofs.ToldOnce

/-!
# The lines of a report

A report shows what is kept in its order, line under line, and a line about the limit behind it if
something was dropped.  A reader who looks for the tenth diagnostic in the tenth line finds it there
as long as every message is on one line (`report_splitsIntoLines`).

A message is on several lines exactly if it quotes a token that holds a line break, a name or a text
in quotes or brackets (`breaksLine_message_iff`).  Such a token is shown as it is written.  A
character that belongs to no token is escaped, so nothing else of the source breaks a line.
-/

set_option autoImplicit false

namespace DaxScript

/-! ## What messages quote -/

theorem Expectation.breaksLine_describe (expectation : Expectation) :
    breaksLine expectation.describe = false := by
  cases expectation with
  | symbol sign => cases sign <;> decide
  | keyword word => cases word <;> decide
  | endOfInput => decide
  | _ => simp [describe, breaksLine]

namespace Issue

/-- What an issue quotes of the source. -/
def quoted? : Issue → Option String
  | unexpected found _ => some found.describe
  | unknownColumnType spelling | unknownFormat spelling => some spelling
  | unknownAttribute name | duplicateAttribute name => some name
  | _ => none

/-- An issue quotes a token: it shows it or gives its spelling. -/
def Quotes (issue : Issue) (token : Token) : Prop :=
  issue.quoted? = some token.kind.describe ∨ issue.quoted? = some token.spelling

/-- **A message goes on in another line exactly if what it quotes does.** -/
theorem breaksLine_message (issue : Issue) :
    breaksLine issue.message = issue.quoted?.any breaksLine := by
  unfold message
  cases issue with
  | unexpected found expected =>
    have wording : breaksLine "syntax error, unexpected " = false ∧
        breaksLine ", expecting " = false := by simp [breaksLine]
    simp [quoted?, wording, expected.breaksLine_describe]
  | _ => simp [quoted?, breaksLine, newline_not_mem_toDigits]

/-- What an issue about some tokens quotes is the first of them, the end of the input if there is
none. -/
theorem quoted_of_isAbout {issue : Issue} {blamed : List Token} (about : issue.IsAbout blamed)
    {text : String} (quoted : issue.quoted? = some text) :
    text = (nextKind blamed).describe ∨ text = blamed.head?.elim "" (·.spelling) ∨
      nextKind blamed = .identifier text := by
  cases issue with
  | unexpected found expected =>
    obtain rfl : found = nextKind blamed := about
    exact .inl (Option.some.inj quoted).symm
  | unknownColumnType spelling | unknownFormat spelling =>
    obtain rfl := Option.some.inj quoted
    exact .inr (.inl about)
  | unknownAttribute name =>
    obtain rfl := Option.some.inj quoted
    exact .inr about.symm
  | duplicateAttribute name =>
    obtain rfl := Option.some.inj quoted
    exact .inr (.inr about)
  | _ => cases quoted

/-- **What an issue about tokens of a source quotes is on one line**, unless it quotes the first of
them and that one holds a line break. -/
theorem exists_quotes_of_isAbout {source : String} {issue : Issue} {blamed : List Token}
    (part : blamed ⊆ (Input.ofSource source).tokens) (about : issue.IsAbout blamed)
    (breaks : breaksLine issue.message = true) :
    ∃ token ∈ blamed.head?, token.kind.holdsBreak = true ∧ issue.Quotes token := by
  rw [breaksLine_message, Option.any_eq_true] at breaks
  obtain ⟨text, quoted, breaks⟩ := breaks
  have quotes := quoted_of_isAbout about quoted
  cases blamed with
  | nil =>
    -- The end of the input holds no line break.
    have ending : breaksLine TokenKind.endOfInput.describe = false := by decide
    rcases quotes with rfl | rfl | isName
    · cases ending.symm.trans breaks
    · exact absurd breaks (by decide)
    · cases isName
  | cons token behind =>
    obtain ⟨spelled, shown⟩ := breaksLine_of_mem_tokens (part (.head _))
    rcases quotes with rfl | rfl | isName
    · exact ⟨token, rfl, shown.symm.trans breaks, .inl quoted⟩
    · exact ⟨token, rfl, spelled.symm.trans breaks, .inr quoted⟩
    · have isName : token.kind = .identifier text := isName
      rw [isName, TokenKind.breaksLine_describe_identifier] at shown
      cases shown.symm.trans breaks

end Issue

/-- A refusal that blames some of the last tokens blames some of all. -/
theorem Refusal.Blames.mono {refusal : Refusal} {left tokens : List Token}
    (blames : refusal.Blames left) (part : left <:+ tokens) : refusal.Blames tokens := by
  obtain ⟨blamed, isLeft, rest⟩ := blames
  exact ⟨blamed, isLeft.trans part, rest⟩

/-- **Every refusal blames one of the tokens.** -/
theorem Turn.exists_blames_of_mem_allTold {source : List Char} {finish : Position}
    {tokens : List Token} {diagnostic : Diagnostic}
    (told : diagnostic ∈ allTold source finish tokens) :
    ∃ refusal : Refusal, refusal.Blames tokens ∧ diagnostic = refusal.diagnostic finish := by
  induction tokens using Turn.byTurns source finish with
  | nil =>
    rw [allTold_nil] at told
    cases told
  | turn first rest ih =>
    rw [allTold_cons, told_ofTokens] at told
    rcases List.mem_append.mp told with now | later
    · rw [Option.mem_toList, Option.map_eq_some_iff] at now
      obtain ⟨refusal, refused, rfl⟩ := now
      have blames := (@rest_of_refused source finish first rest refusal refused).1
      exact ⟨refusal, blames.mono (List.suffix_cons first rest), rfl⟩
    · obtain ⟨refusal, blames, rfl⟩ := ih later
      exact ⟨refusal, blames.mono (course source finish first rest).rest_suffix, rfl⟩

/-- What is told of a source is about its text, or a refusal that blames one of its tokens. -/
theorem mem_toldDiagnostics_cases {source : String} {diagnostic : Diagnostic}
    (told : diagnostic ∈ toldDiagnostics source) :
    diagnostic ∈ lexicalDiagnostics source ∨
      ∃ refusal : Refusal, refusal.Blames (Input.ofSource source).tokens ∧
        diagnostic = refusal.diagnostic (Input.ofSource source).finish := by
  obtain ⟨texts, others⟩ := filter_toldDiagnostics source
  cases isLexical : diagnostic.isLexical with
  | true =>
    rw [← texts]
    exact .inl (List.mem_filter.mpr ⟨told, isLexical⟩)
  | false =>
    have isRefused : diagnostic ∈ (toldDiagnostics source).filter (!·.isLexical) :=
      List.mem_filter.mpr ⟨told, by rw [isLexical]; rfl⟩
    rw [others] at isRefused
    exact .inr (Turn.exists_blames_of_mem_allTold isRefused)

/-! ## Diagnostics on several lines -/

/-- What is wrong with the text is told on one line. -/
theorem breaksLine_of_mem_lexicalDiagnostics {source : String} {diagnostic : Diagnostic}
    (told : diagnostic ∈ lexicalDiagnostics source) : breaksLine diagnostic.message = false := by
  rcases ((exactlyTold source).told_iff diagnostic).mp told with
    ⟨_, char, _, _, _, _, rfl⟩ | ⟨_, _, enclosure, _, _, rfl⟩
  · have wording : breaksLine "unexpected character " = false := by decide
    simp [Diagnostic.error, wording, CharLiteral.breaksLine_render]
  · have message : breaksLine enclosure.unclosedMessage = false := by cases enclosure <;> decide
    exact message

/-- A diagnostic tells of a token of a source that holds a line break, and quotes it. -/
structure Diagnostic.QuotesLines (source : String) (diagnostic : Diagnostic) (token : Token) :
    Prop where
  member : token ∈ (Input.ofSource source).tokens
  holdsBreak : token.kind.holdsBreak = true
  position : diagnostic.position = token.position
  quotes : ∃ issue : Issue, issue.Quotes token ∧ diagnostic.message = issue.message

/-- **A message is on several lines exactly if it quotes a token that holds a line break.** -/
theorem breaksLine_message_iff {source : String} {diagnostic : Diagnostic}
    (told : diagnostic ∈ toldDiagnostics source) :
    breaksLine diagnostic.message = true ↔ ∃ token, diagnostic.QuotesLines source token := by
  constructor
  · intro breaks
    rcases mem_toldDiagnostics_cases told with lexical | ⟨refusal, blames, rfl⟩
    · rw [breaksLine_of_mem_lexicalDiagnostics lexical] at breaks
      cases breaks
    · obtain ⟨blamed, part, position, _, about⟩ := blames
      obtain ⟨token, isFirst, holdsBreak, quotes⟩ :=
        Issue.exists_quotes_of_isAbout part.subset about breaks
      refine ⟨token, part.subset (List.mem_of_head? isFirst), holdsBreak, ?_, _, quotes, rfl⟩
      have place : nextPosition? blamed = some token.position := by
        rw [nextPosition?, isFirst]
        rfl
      rw [Refusal.diagnostic, position, place]
      rfl
  · rintro ⟨token, member, holdsBreak, _, issue, quotes, message⟩
    obtain ⟨spelled, shown⟩ := breaksLine_of_mem_tokens member
    rw [message, Issue.breaksLine_message]
    rcases quotes with quoted | quoted
    · rw [quoted]
      exact shown.trans holdsBreak
    · rw [quoted]
      exact spelled.trans holdsBreak

theorem Diagnostic.breaksLine_render (diagnostic : Diagnostic) :
    breaksLine diagnostic.render = breaksLine diagnostic.message := by
  have colon : breaksLine ": " = false := by decide
  rw [render, breaksLine_append, breaksLine_append, breaksLine_renderPosition, colon]
  rfl

theorem Collector.breaksLine_limitNotice (collector : Collector) :
    breaksLine collector.limitNotice = false := by
  unfold limitNotice
  simp [breaksLine, newline_not_mem_toDigits]

/-! ## Reports -/

/-- What a report of a source is split into at its line breaks. -/
structure Collector.SplitsIntoLines (source : String) (collector : Collector) : Prop where
  /-- The lines of the diagnostics in their order, and a last one if something was dropped. -/
  lines : textLines collector.report =
    collector.items.flatMap (textLines ·.render) ++
      if collector.overflowed then [collector.limitNotice] else []
  /-- A diagnostic has one line unless it quotes a token that holds a line break. -/
  single : ∀ diagnostic ∈ collector.items, textLines diagnostic.render = [diagnostic.render] ↔
    ∀ token, ¬diagnostic.QuotesLines source token
  /-- The report has one line for each diagnostic exactly if none quotes such a token. -/
  oneEach : textLines collector.report =
      collector.items.map Diagnostic.render ++
        (if collector.overflowed then [collector.limitNotice] else []) ↔
    ∀ diagnostic ∈ collector.items, ∀ token, ¬diagnostic.QuotesLines source token

theorem mem_toldDiagnostics_of_kept {source : String} {options : ScriptOptions}
    {diagnostic : Diagnostic}
    (kept : diagnostic ∈ (readScript source options).collector.items) :
    diagnostic ∈ toldDiagnostics source := by
  rw [collector_readScript] at kept
  exact List.mem_of_mem_take kept

/-- What is kept is shown on one line unless it quotes a token that holds a line break. -/
theorem breaksLine_render_of_kept {source : String} {options : ScriptOptions}
    {diagnostic : Diagnostic} (kept : diagnostic ∈ (readScript source options).collector.items) :
    breaksLine diagnostic.render = false ↔ ∀ token, ¬diagnostic.QuotesLines source token := by
  rw [diagnostic.breaksLine_render, ← not_exists,
    ← breaksLine_message_iff (mem_toldDiagnostics_of_kept kept), Bool.not_eq_true]

namespace Collector

theorem textLines_report {collector : Collector} (kept : collector.items ≠ []) :
    textLines collector.report = collector.items.flatMap (textLines ·.render) ++
      if collector.overflowed then [collector.limitNotice] else [] := by
  have some : collector.reportLines ≠ [] := by simp [reportLines, kept]
  have notice : (if collector.overflowed then [collector.limitNotice] else []).flatMap textLines =
      if collector.overflowed then [collector.limitNotice] else [] := by
    split
    · rw [List.flatMap_singleton, textLines_of_single collector.breaksLine_limitNotice]
    · rfl
  rw [report, textLines_intercalate some, reportLines, List.flatMap_append, notice,
    List.flatMap_map]

end Collector

/-- **A report has one line for each diagnostic exactly if no diagnostic quotes a token that holds a
line break.**  Such a diagnostic has several lines, all others have one, and the last line is about
the limit if something was dropped. -/
theorem report_splitsIntoLines (source : String) (options : ScriptOptions)
    (kept : (readScript source options).collector.items ≠ []) :
    (readScript source options).collector.SplitsIntoLines source := by
  have lines := Collector.textLines_report kept
  constructor
  case lines => exact lines
  case single =>
    intro diagnostic member
    rw [textLines_eq_singleton_iff]
    exact breaksLine_render_of_kept member
  case oneEach =>
    constructor
    · intro oneEach diagnostic member
      have isLine : diagnostic.render ∈
          textLines (readScript source options).collector.report := by
        rw [oneEach]
        exact List.mem_append_left _ (List.mem_map_of_mem member)
      exact (breaksLine_render_of_kept member).mp (breaksLine_of_mem_textLines isLine)
    · intro single
      have each : ∀ diagnostic ∈ (readScript source options).collector.items,
          textLines diagnostic.render = [diagnostic.render] := fun diagnostic member =>
        textLines_of_single ((breaksLine_render_of_kept member).mpr (single diagnostic member))
      rw [lines, List.flatMap_congr each, List.map_eq_flatMap]

/-- A statement too much and a name on two lines, of which only the first is kept. -/
theorem report_splitsIntoLines_limited :
    let collector := (readScript "= 1 2; = 1 'a\nb'" ⟨1⟩).collector
    collector.items ≠ [] ∧ collector.SplitsIntoLines "= 1 2; = 1 'a\nb'" ∧
      textLines collector.report =
        ["1:5: syntax error, unexpected number 2, expecting ';' or end of statement",
          "too many errors (limit 1); remaining diagnostics suppressed"] := by
  intro collector
  have kept : collector.items ≠ [] := by decide +kernel
  exact ⟨kept, report_splitsIntoLines _ ⟨1⟩ kept, by decide +kernel⟩

/-- **Not every report has one line for each diagnostic**: a name on two lines is quoted on two
lines. -/
theorem report_of_name_on_two_lines :
    let collector := (readScript "= 1 'a\nb'" {}).collector
    collector.items.map Diagnostic.render =
        ["1:5: syntax error, unexpected table name 'a\nb', expecting ';' or end of statement"] ∧
      collector.overflowed = false ∧
      textLines collector.report =
        ["1:5: syntax error, unexpected table name 'a",
          "b', expecting ';' or end of statement"] := by
  intro collector
  exact ⟨by decide +kernel, by decide +kernel, by decide +kernel⟩

end DaxScript
