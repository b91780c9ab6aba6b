import DaxScript.Proofs.Script.Course
import DaxScript.Proofs.Grammar.StatementRelocation

/-!
# What is left of a script lies ahead

The tokens of a script stand one behind the other, and what is wrong with the text behind a token
stands behind it (`Layout`, `Input.layout`).  In the middle of a script an offset that everything
left is ahead of (`Ahead`) stays behind for good, and all that is told from there on is told about
places ahead of it (`Turn.Course.diagnostics_ahead`).
-/

set_option autoImplicit false

namespace DaxScript

/-- How the tokens that are left and the diagnostics about them, in groups, lie in a source that
ends at a position. -/
structure Layout (finish : Position) (faults : List (List Diagnostic)) (tokens : List Token) :
    Prop where
  ordered : InOrder tokens
  placed : ∀ token ∈ tokens, token.position.offset = token.span.start
  finished : ∀ token ∈ tokens, token.span.stop ≤ finish.offset
  errors : ∀ diagnostic ∈ faults.flatten, diagnostic.isError = true
  /-- The groups for the tokens behind a token are about the text behind it. -/
  behind : ∀ {front rest : List Token} {token : Token} {later : List (List Diagnostic)},
    tokens = front ++ token :: rest → later <:+ faults → later.length ≤ rest.length + 1 →
      ∀ diagnostic ∈ later.flatten, token.span.stop ≤ diagnostic.position.offset

/-- Nothing that is left of a script stands before an offset. -/
structure Ahead (offset : Nat) (finish : Position) (faults : List (List Diagnostic))
    (tokens : List Token) : Prop where
  tokens : ∀ token ∈ tokens, offset ≤ token.span.start
  faults : ∀ diagnostic ∈ faults.flatten, offset ≤ diagnostic.position.offset
  finish : offset ≤ finish.offset

section Suffixes

variable {finish : Position} {faults later : List (List Diagnostic)} {tokens left : List Token}

theorem mem_flatten_of_suffix (suffix : later <:+ faults) {diagnostic : Diagnostic}
    (member : diagnostic ∈ later.flatten) : diagnostic ∈ faults.flatten :=
  suffix.sublist.flatten.subset member

theorem Layout.suffix (layout : Layout finish faults tokens) (laterFaults : later <:+ faults)
    (laterTokens : left <:+ tokens) : Layout finish later left where
  ordered := by
    obtain ⟨front, rfl⟩ := laterTokens
    exact layout.ordered.right
  placed token member := layout.placed token (laterTokens.subset member)
  finished token member := layout.finished token (laterTokens.subset member)
  errors diagnostic member := layout.errors diagnostic (mem_flatten_of_suffix laterFaults member)
  behind := by
    intro front rest token last cut isLast fewer
    obtain ⟨before, rfl⟩ := laterTokens
    rw [cut, ← List.append_assoc] at layout
    exact layout.behind rfl (isLast.trans laterFaults) fewer

theorem Ahead.suffix {offset : Nat} (ahead : Ahead offset finish faults tokens)
    (laterFaults : later <:+ faults) (laterTokens : left <:+ tokens) :
    Ahead offset finish later left where
  tokens token member := ahead.tokens token (laterTokens.subset member)
  faults diagnostic member := ahead.faults diagnostic (mem_flatten_of_suffix laterFaults member)
  finish := ahead.finish

/-- **The end of a token that has been read is behind all that is left.** -/
theorem Layout.ahead_of_mem (layout : Layout finish faults tokens) {used : List Token}
    {token : Token} (cut : tokens = used ++ left) (member : token ∈ used)
    (laterFaults : later <:+ faults) (fewer : later.length ≤ left.length + 1) :
    Ahead token.span.stop finish later left where
  tokens other isLeft := by
    have ordered := layout.ordered
    rw [cut] at ordered
    exact ordered.stop_le member isLeft
  faults := by
    obtain ⟨front, rest, rfl⟩ := List.append_of_mem member
    rw [List.append_assoc, List.cons_append] at cut
    refine layout.behind cut laterFaults ?_
    rw [List.length_append]
    omega
  finish := by
    apply layout.finished
    rw [cut]
    exact List.mem_append_left _ member

end Suffixes

/-! ## Sources -/

namespace Piece

theorem length_faults (position : Position) (pieces : List Piece) :
    (faults position pieces).length = (tokens position pieces).length + 1 := by
  induction pieces generalizing position with
  | nil => rfl
  | cons piece pieces ih =>
    have later := ih (position.advanceAll piece.spelling)
    rw [faults, tokens]
    rcases ownTokens_cases piece position with none | ⟨token, single⟩
    · rw [none, if_pos List.isEmpty_nil, List.nil_append, ← later]
      cases faults (position.advanceAll piece.spelling) pieces <;> rfl
    · rw [single]
      simp [later]

/-- What is wrong with pieces is wrong behind their start. -/
theorem offset_le_of_mem_faults {position : Position} {pieces : List Piece}
    {diagnostic : Diagnostic} (member : diagnostic ∈ (faults position pieces).flatten) :
    position.offset ≤ diagnostic.position.offset := by
  induction pieces generalizing position with
  | nil => simp [faults] at member
  | cons piece pieces ih =>
    rw [flatten_faults_cons] at member
    rcases List.mem_append.mp member with own | later
    · simp only [diagnostics, Option.mem_toList, Option.map_eq_some_iff] at own
      obtain ⟨fault, _, rfl⟩ := own
      exact Nat.le_refl _
    · have bound := ih later
      rw [Position.offset_advanceAll] at bound
      omega

/-- Fewer groups than there are belong to the pieces behind the first. -/
theorem suffix_faults_of_length_lt {position : Position} {piece : Piece} {pieces : List Piece}
    {later : List (List Diagnostic)} (suffix : later <:+ faults position (piece :: pieces))
    (fewer : later.length ≤ (tokens (position.advanceAll piece.spelling) pieces).length) :
    later <:+ faults (position.advanceAll piece.spelling) pieces := by
  have counted := length_faults (position.advanceAll piece.spelling) pieces
  rw [faults] at suffix
  generalize faults (position.advanceAll piece.spelling) pieces = groups at suffix counted ⊢
  cases groups with
  | nil => simp at counted
  | cons group groups =>
    have isTail : later <:+ groups := by
      simp only [addToFirst] at suffix
      split at suffix
      · rcases List.suffix_cons_iff.mp suffix with rfl | isTail
        · simp only [List.length_cons] at fewer counted
          omega
        · exact isTail
      · rcases List.suffix_cons_iff.mp suffix with rfl | isTail
        · simp only [List.length_cons] at fewer counted
          omega
        · rcases List.suffix_cons_iff.mp isTail with rfl | isTail
          · simp only [List.length_cons] at fewer counted
            omega
          · exact isTail
    exact isTail.trans (List.suffix_cons _ _)

theorem stop_le_of_mem_faults {position : Position} {pieces : List Piece}
    {front rest : List Token} {token : Token} {later : List (List Diagnostic)}
    (cut : tokens position pieces = front ++ token :: rest)
    (suffix : later <:+ faults position pieces) (fewer : later.length ≤ rest.length + 1) :
    ∀ diagnostic ∈ later.flatten, token.span.stop ≤ diagnostic.position.offset := by
  induction pieces generalizing position front with
  | nil => cases front <;> cases cut
  | cons piece pieces ih =>
    have counted := congrArg List.length cut
    rw [tokens] at cut counted
    rcases ownTokens_cases piece position with none | ⟨own, single⟩
    · rw [none, List.nil_append] at cut counted
      simp only [List.length_append, List.length_cons] at counted
      exact ih cut (suffix_faults_of_length_lt suffix (by omega))
    · rw [single, List.singleton_append] at cut counted
      simp only [List.length_append, List.length_cons] at counted
      cases front with
      | nil =>
        obtain ⟨rfl, rfl⟩ := List.cons.inj cut
        have inner : later <:+ faults (position.advanceAll piece.spelling) pieces := by
          rw [faults, single] at suffix
          rcases List.suffix_cons_iff.mp suffix with rfl | inner
          · have := length_faults (position.advanceAll piece.spelling) pieces
            simp only [List.length_cons] at fewer
            omega
          · exact inner
        intro diagnostic member
        have bound := offset_le_of_mem_faults (inner.sublist.flatten.subset member)
        have isOwn : own ∈ piece.ownTokens position := by simp [single]
        rw [eq_place_of_token? (mem_ownTokens_iff.mp isOwn).1]
        simpa [Token.place] using bound
      | cons first front =>
        obtain ⟨rfl, others⟩ := List.cons.inj cut
        simp only [List.length_cons] at counted
        exact ih others (suffix_faults_of_length_lt suffix (by omega))

/-- A token stands where its position says. -/
theorem offset_of_mem_tokens {position : Position} {pieces : List Piece} {token : Token}
    (member : token ∈ tokens position pieces) : token.position.offset = token.span.start := by
  induction pieces generalizing position with
  | nil => cases member
  | cons piece pieces ih =>
    rcases List.mem_append.mp member with own | later
    · rw [eq_place_of_token? (mem_ownTokens_iff.mp own).1]
      rfl
    · exact ih later

end Piece

theorem Input.length_faults (source : String) :
    (ofSource source).faults.length = (ofSource source).tokens.length + 1 := by
  rw [tokens_ofSource, faults_ofSource]
  exact Piece.length_faults _ _

/-- **The tokens of a source and what is wrong with it lie in order.** -/
theorem Input.layout (source : String) :
    Layout (ofSource source).finish (ofSource source).faults (ofSource source).tokens := by
  rw [tokens_ofSource, faults_ofSource]
  refine ⟨Piece.inOrder_tokens _ _, fun token member => Piece.offset_of_mem_tokens member, ?_,
    fun diagnostic member => Piece.isError_of_mem_faults member, Piece.stop_le_of_mem_faults⟩
  intro token member
  have bound := (Piece.within_of_mem_tokens member).2.2
  have whole : Piece.text (Piece.all source.toList) = source.toList := Piece.spellings _
  rw [whole] at bound
  simpa [ofSource] using bound

/-! ## Turns -/

namespace Turn

theorem pass_suffix (depth : Nat) (tokens : List Token) : (pass depth tokens).2 <:+ tokens := by
  induction tokens generalizing depth with
  | nil => exact List.suffix_refl _
  | cons token rest ih =>
    have later (depth : Nat) : (pass depth rest).2 <:+ token :: rest :=
      (ih depth).trans (List.suffix_cons _ _)
    unfold pass
    simp only
    split
    · split
      · exact List.suffix_cons _ _
      · exact later _
    · split
      · exact List.suffix_refl _
      · exact later _
    all_goals exact later _

namespace Course

variable {source : List Char} {finish : Position} {first : Token} {rest : List Token}
  {turn : Turn} {faults : List (List Diagnostic)}

/-- A turn leaves the last tokens. -/
theorem rest_suffix (course : Course source finish first rest turn) :
    turn.rest <:+ first :: rest := by
  cases course with
  | semicolon => exact List.suffix_cons _ _
  | passed => exact (pass_suffix 0 rest).trans (List.suffix_cons _ _)
  | read _ cut => exact ⟨_, cut.symm⟩
  | @refused refusal =>
    have inner := (pass_suffix 0 (rest.drop (rest.length - refusal.unread))).trans
      (List.drop_suffix _ _)
    exact inner.trans (List.suffix_cons _ _)

/-- **What is told in a turn is about the text**, or it refuses the statement: then it is about one
of the tokens or about the end of the input. -/
theorem told_cases (course : Course source finish first rest turn) {diagnostic : Diagnostic}
    (told : diagnostic ∈ (events faults turn.moments).1.flatMap Event.diagnostics) :
    diagnostic ∈ faults.flatten ∨ diagnostic.isError = true ∧
      (diagnostic.position = finish ∨
        ∃ token ∈ first :: rest, diagnostic.position = token.position) := by
  refine (mem_diagnostics_events told).imp_right ?_
  rintro ⟨moment, member, own⟩
  cases course with
  | semicolon =>
    obtain rfl := List.mem_singleton.mp member
    cases own
  | @passed statement =>
    have silent : (recognition first rest statement).events.flatMap Event.diagnostics = [] := by
      cases statement <;> rfl
    simp only [lookingAt, passAfter, List.mem_cons, List.not_mem_nil, or_false] at member
    rcases member with rfl | rfl | rfl
    · cases own
    · rw [silent] at own
      cases own
    · rw [events_pass] at own
      cases own
  | read =>
    simp only [lookingAt, List.mem_cons, List.not_mem_nil, or_false] at member
    rcases member with rfl | rfl
    · cases own
    · rw [definition, Event.diagnostics_definitions] at own
      cases own
  | @refused refusal _ refused =>
    simp only [lookingAt, ofRefusal, passAfter, List.mem_cons, List.not_mem_nil, or_false] at member
    rcases member with rfl | rfl | rfl
    · cases own
    · obtain rfl := List.mem_singleton.mp own
      refine ⟨rfl, ?_⟩
      cases about : refusal.position with
      | none => exact .inl (by simp [Refusal.diagnostic, Diagnostic.error, about])
      | some position =>
        have isToken := Production.position_of_refused refused about
        obtain ⟨token, isLeft, rfl⟩ := List.mem_map.mp isToken
        exact .inr ⟨token, isLeft, by simp [Refusal.diagnostic, Diagnostic.error, about]⟩
    · rw [events_pass] at own
      cases own

/-- **What is told in a turn is wrong, and about a place ahead.** -/
theorem diagnostics_ahead (course : Course source finish first rest turn)
    (layout : Layout finish faults (first :: rest)) {diagnostic : Diagnostic}
    (told : diagnostic ∈ (events faults turn.moments).1.flatMap Event.diagnostics) :
    diagnostic.isError = true ∧ ∀ {offset : Nat}, Ahead offset finish faults (first :: rest) →
      offset ≤ diagnostic.position.offset := by
  rcases course.told_cases told with due | ⟨isError, same | ⟨token, isLeft, same⟩⟩
  · exact ⟨layout.errors diagnostic due, fun ahead => ahead.faults diagnostic due⟩
  · refine ⟨isError, fun ahead => ?_⟩
    rw [same]
    exact ahead.finish
  · refine ⟨isError, fun ahead => ?_⟩
    rw [same, layout.placed token isLeft]
    exact ahead.tokens token isLeft

end Course

end Turn

end DaxScript
