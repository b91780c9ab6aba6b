import DaxScript.Proofs.Outline.TokenOutline
import DaxScript.Proofs.Text.Span
import DaxScript.Proofs.Token.Lookahead

/-!
# Every outline is well-formed

The outline of a source is there while the source is being typed, so nothing can be asked of the
source: quotes, brackets and comments may be open and signs may close what was never opened.  All
the same its statements stand one behind the other, each of them is a part of the source that begins
with one of the opening words, and the text that is shown for a measure is that part without what
stands behind it: white space, comments and the semicolon (`outline_wellFormed`).

At every segment the text in front of it is cut in three: what stands in front of the statement that
is going on, its text so far, and white space and comments behind that (`Drafted`).  A comment is a
segment without the line feed that ends it, so a gap may have to wait for the next character
(`GapBefore`).
-/

set_option autoImplicit false

namespace DaxScript

open Outline TokenOutline

/-! ## White space and comments -/

namespace Outline

/-- White space and comments, each of which is ended by a line feed. -/
inductive Gap : List Char → Prop where
  | nothing : Gap []
  | white {char : Char} {chars : List Char} (isWhite : Unicode.isWhiteSpace char = true)
      (later : Gap chars) : Gap (char :: chars)
  | comment {sign : Char} {line chars : List Char} (opens : sign = '-' ∨ sign = '/')
      (inLine : '\n' ∉ line) (later : Gap chars) : Gap (sign :: sign :: (line ++ '\n' :: chars))

theorem Gap.append {first second : List Char} (front : Gap first) (behind : Gap second) :
    Gap (first ++ second) := by
  induction front with
  | nothing => exact behind
  | white isWhite _ ih => exact .white isWhite ih
  | comment opens inLine _ ih =>
    simp only [List.cons_append, List.append_assoc]
    exact .comment opens inLine ih

/-- White space and comments in front of a text.  The line feed of the last comment may be the
first character of the text. -/
def GapBefore (gap after : List Char) : Prop :=
  Gap gap ∨ Gap (gap ++ ['\n']) ∧ ∀ char ∈ after.head?, char = '\n'

namespace GapBefore

variable {gap chars : List Char} {char : Char} (before : GapBefore gap (char :: chars))
include before

/-- In front of anything but a line feed no comment is left open. -/
theorem gap_of_ne (noLineFeed : char ≠ '\n') : Gap gap := by
  rcases before with closed | ⟨_, isFeed⟩
  · exact closed
  · exact absurd (isFeed char rfl) noLineFeed

theorem blank (white : Unicode.isWhiteSpace char = true) : Gap (gap ++ [char]) := by
  rcases before with closed | ⟨closed, isFeed⟩
  · exact closed.append (.white white .nothing)
  · rwa [isFeed char rfl]

theorem comment (opens : chars.head?.any (opensComment char) = true)
    (noLineFeed : char ≠ '\n') :
    GapBefore (gap ++ char :: chars.takeWhile (· != '\n')) (chars.dropWhile (· != '\n')) := by
  have closed := before.gap_of_ne noLineFeed
  have stops := head?_dropWhile_any (· != '\n') chars
  refine .inr ⟨?_, fun next isNext => ?_⟩
  · cases chars with
    | nil => cases opens
    | cons second chars =>
      have opens : opensComment char second = true := opens
      obtain rfl := eq_of_opensComment opens
      have opens : second = '-' ∨ second = '/' := by simpa [opensComment] using opens
      have inLine : '\n' ∉ chars.takeWhile (· != '\n') := fun member => by
        simpa using belongs_of_mem_takeWhile (· != '\n') chars _ member
      rw [List.takeWhile_cons_of_pos (by simpa using noLineFeed), List.append_assoc]
      exact closed.append (.comment opens inLine .nothing)
  · rw [Option.mem_def.mp isNext] at stops
    simpa using stops

end GapBefore

/-- At an offset of a source a word begins that is the given one in some letter case. -/
def OpensAt (source : List Char) (offset : Nat) (word : String) : Prop :=
  ∃ before spelled rest, source = before ++ (spelled ++ rest) ∧ byteLength before = offset ∧
    sameIgnoringCase word (String.ofList spelled) = true ∧ rest.head?.any isWordPart = false

/-- The words that open statements. -/
theorem OpeningWord.name_mem (word : OpeningWord) :
    word.name ∈ ["CREATE", "DEFINE", "EVALUATE", "ALTER"] := by
  cases word <;> decide

end Outline

/-! ## Well-formed statements -/

/-- What holds of every statement of an outline, whatever the source is. -/
structure StatementSpan.WellFormed (source : String) (statement : StatementSpan) : Prop where
  start_lt_stop : statement.start < statement.stop
  stop_le : statement.stop ≤ byteLength source.toList
  /-- Both ends are ends of characters. -/
  fits : (statement.span.slice? source.toList).isSome = true
  opens : ∃ word ∈ ["CREATE", "DEFINE", "EVALUATE", "ALTER"],
    OpensAt source.toList statement.start word
  /-- There is a label where there is a text to show, and nowhere else. -/
  labelled : statement.label.isSome = statement.hint.isSome
  /-- The text begins with the statement.  Behind it stand white space and comments, and at most one
  semicolon. -/
  text : ∀ text ∈ statement.hint,
    (Span.mk statement.start (statement.start + byteLength text.toList)).slice? source.toList =
        some text.toList ∧
      ∃ gap terminator, Gap gap ∧ (terminator = [] ∨ terminator = [';']) ∧
        (Span.mk (statement.start + byteLength text.toList) statement.stop).slice? source.toList =
          some (gap ++ terminator)

/-- A span that ends where a middle part ends covers it. -/
theorem Span.slice?_eq_some {source covered : List Char} {start stop : Nat}
    (before after : List Char) (split : source = before ++ (covered ++ after))
    (starts : start = byteLength before)
    (stops : stop = byteLength before + byteLength covered) :
    (Span.mk start stop).slice? source = some covered := by
  rw [split, starts, stops]
  exact slice?_append before covered after

/-! ## Statements that are going on -/

/-- A statement that is going on in front of a character: where it begins, what it says so far, and
what stands behind that. -/
structure Drafted (source before after : List Char) (draft : Draft) : Prop where
  located : ∃ front text gap, before = front ++ (text ++ gap) ∧ text ≠ [] ∧
    draft.start = byteLength front ∧ draft.stop = byteLength (front ++ text) ∧ GapBefore gap after
  opens : ∀ word ∈ draft.opening, OpensAt source draft.start word.name

namespace Drafted

variable {source before after : List Char} {draft : Draft}

theorem stop_le (drafted : Drafted source before after draft) :
    draft.start ≤ draft.stop ∧ draft.stop ≤ byteLength before := by
  obtain ⟨front, text, gap, rfl, _, starts, stops, _⟩ := drafted.located
  simp only [byteLength_append] at stops ⊢
  omega

/-- Nothing happens to a statement at white space and at comments. -/
theorem wait (drafted : Drafted source before after draft) {more rest : List Char}
    (gap : ∀ gap, GapBefore gap after → GapBefore (gap ++ more) rest) :
    Drafted source (before ++ more) rest draft where
  located := by
    obtain ⟨front, text, found, rfl, some, starts, stops, open_⟩ := drafted.located
    exact ⟨front, text, found ++ more, by simp, some, starts, stops, gap found open_⟩
  opens := drafted.opens

/-- Behind its text a statement covers nothing, or a gap and the semicolon that ends it. -/
theorem exists_tail {gap : List Char} {stop : Nat} {terminator : Option Nat}
    (gapBefore : GapBefore gap after) (reached : byteLength before = stop + byteLength gap)
    (ends : terminator = none ∨
      terminator = some (byteLength (before ++ [';'])) ∧ ∃ rest, after = ';' :: rest) :
    ∃ tail rest, gap ++ after = tail ++ rest ∧
      (∃ gap terminator, Gap gap ∧ (terminator = [] ∨ terminator = [';']) ∧
        tail = gap ++ terminator) ∧
      terminator.getD stop = stop + byteLength tail := by
  rcases ends with rfl | ⟨rfl, rest, rfl⟩
  · exact ⟨[], gap ++ after, rfl, ⟨[], [], .nothing, .inl rfl, rfl⟩, rfl⟩
  · refine ⟨gap ++ [';'], rest, by simp,
      ⟨gap, [';'], gapBefore.gap_of_ne (by decide), .inr rfl, rfl⟩, ?_⟩
    rw [Option.getD_some, byteLength_append, byteLength_append, reached, Nat.add_assoc]

/-- **A statement that is finished is well-formed**, whether a semicolon ends it or what comes
next. -/
theorem wellFormed {source : String} (drafted : Drafted source.toList before after draft)
    (whole : source.toList = before ++ after) {terminator : Option Nat}
    (ends : terminator = none ∨
      terminator = some (byteLength (before ++ [';'])) ∧ ∃ rest, after = ';' :: rest)
    {statement : StatementSpan}
    (finished : draft.finish source.toList terminator = some statement) :
    statement.WellFormed source ∧ statement.start = draft.start ∧
      statement.stop = terminator.getD draft.stop := by
  obtain ⟨front, text, gap, rfl, nonempty, starts, stops, open_⟩ := drafted.located
  obtain ⟨word, opening, same⟩ := Option.map_eq_some_iff.mp finished
  have bytes := byteLength_pos nonempty
  have content : (Span.mk draft.start draft.stop).slice? source.toList = some text := by
    refine Span.slice?_eq_some front (gap ++ after) ?_ starts ?_
    · rw [whole]
      simp
    · rw [stops, byteLength_append]
  rw [Span.slice, content, Option.getD_some] at same
  have reached : byteLength (front ++ (text ++ gap)) = draft.stop + byteLength gap := by
    rw [stops, ← byteLength_append, List.append_assoc]
  obtain ⟨tail, rest, behind, inTail, reaches⟩ := exists_tail open_ reached ends
  have split : source.toList = front ++ ((text ++ tail) ++ rest) := by
    rw [whole, List.append_assoc front, List.append_assoc text, behind]
    simp
  have covered : (Span.mk draft.start (terminator.getD draft.stop)).slice? source.toList =
      some (text ++ tail) := by
    refine Span.slice?_eq_some front rest split starts ?_
    rw [reaches, stops, byteLength_append, byteLength_append, Nat.add_assoc]
  subst same
  have opens := drafted.opens word opening
  refine ⟨⟨?_, ?_, ?_, ⟨_, word.name_mem, opens⟩, by simp, fun shown isShown => ?_⟩, rfl, rfl⟩
  · rw [byteLength_append] at stops
    dsimp only
    omega
  · dsimp only
    rw [reaches, stops, split]
    simp only [byteLength_append]
    omega
  · exact Option.isSome_iff_exists.mpr ⟨_, covered⟩
  · obtain ⟨_, _, rfl⟩ := Option.map_eq_some_iff.mp isShown
    dsimp only
    rw [String.toList_ofList]
    have reach : draft.start + byteLength text = draft.stop := by
      rw [starts, stops, byteLength_append]
    rw [reach]
    obtain ⟨inner, terminator, isGap, isTerminator, rfl⟩ := inTail
    refine ⟨content, inner, terminator, isGap, isTerminator, ?_⟩
    refine Span.slice?_eq_some (front ++ text) rest ?_ stops ?_
    · rw [split]
      simp
    · rw [reaches, stops]

end Drafted

/-- Where the statement that is going on begins, or the given offset if there is none. -/
def draftStart (draft? : Option Draft) (bound : Nat) : Nat :=
  draft?.elim bound (·.start)

section Step

variable {source : String} {before after : List Char} {draft? : Option Draft}
  (drafted : ∀ draft ∈ draft?, Drafted source.toList before after draft)

include drafted in
/-- A statement goes on with a segment, or begins with it.  What stood behind its text so far now
belongs to the text. -/
theorem Drafted.extend {next : Draft} {spelling rest : List Char} (some : spelling ≠ [])
    (opening : Option OpeningWord)
    (opens : ∀ word ∈ opening, OpensAt source.toList (byteLength before) word.name)
    (starts : next.start = draftStart draft? (byteLength before))
    (sameOpening : next.opening = draft?.elim opening (·.opening))
    (stops : next.stop = byteLength (before ++ spelling)) :
    Drafted source.toList (before ++ spelling) rest next := by
  cases draft? with
  | none =>
    refine ⟨⟨before, spelling, [], by simp, some, starts, stops, .inl .nothing⟩, ?_⟩
    rw [sameOpening, starts]
    exact opens
  | some draft =>
    obtain ⟨front, text, gap, rfl, nonempty, start, _, _⟩ := (drafted draft rfl).located
    refine ⟨⟨front, text ++ gap ++ spelling, [], by simp, ?_, starts.trans start, ?_,
      .inl .nothing⟩, ?_⟩
    · exact fun none => nonempty (List.append_eq_nil_iff.mp (List.append_eq_nil_iff.mp none).1).1
    · simpa [Nat.add_assoc] using stops
    · rw [sameOpening, starts]
      exact (drafted draft rfl).opens

/-- What a segment leaves: statements that end in front of the one that is going on. -/
structure Stepped (source : String) (before rest : List Char) (start : Nat)
    (stepped : List StatementSpan × Option Draft) : Prop where
  drafted : ∀ draft ∈ stepped.2, Drafted source.toList before rest draft
  finished : ∀ statement ∈ stepped.1, statement.WellFormed source
  stand : ∀ {spans : List Span}, StandFrom (draftStart stepped.2 (byteLength before)) spans →
    StandFrom start (stepped.1.map StatementSpan.span ++ spans)

namespace Stepped

/-- Nothing is finished. -/
theorem silent {start : Nat} {rest : List Char} {next? : Option Draft}
    (drafted : ∀ draft ∈ next?, Drafted source.toList before rest draft)
    (forward : start ≤ draftStart next? (byteLength before)) :
    Stepped source before rest start ([], next?) where
  drafted := drafted
  finished _ member := absurd member List.not_mem_nil
  stand stand := stand.mono forward

include drafted in
theorem wait {more rest : List Char}
    (gap : ∀ gap, GapBefore gap after → GapBefore (gap ++ more) rest) :
    Stepped source (before ++ more) rest (draftStart draft? (byteLength before)) ([], draft?) := by
  refine silent (fun draft isDraft => (drafted draft isDraft).wait gap) ?_
  cases draft? with
  | none => simp [draftStart]
  | some => exact Nat.le_refl _

/-- A statement is finished, unless it is one that is not listed. -/
theorem finish {draft : Draft} (drafted : Drafted source.toList before after draft)
    (whole : source.toList = before ++ after) {terminator : Option Nat}
    (ends : terminator = none ∨
      terminator = some (byteLength (before ++ [';'])) ∧ ∃ rest, after = ';' :: rest)
    {reached rest : List Char} {next? : Option Draft}
    (nextDrafted : ∀ draft ∈ next?, Drafted source.toList reached rest draft)
    (forward : terminator.getD draft.stop ≤ draftStart next? (byteLength reached)) :
    Stepped source reached rest draft.start
      ((draft.finish source.toList terminator).toList, next?) where
  drafted := nextDrafted
  finished statement member :=
    (drafted.wellFormed whole ends (Option.mem_toList.mp member)).1
  stand {spans} stand := by
    have ahead : draft.start ≤ terminator.getD draft.stop := by
      have bounds := drafted.stop_le
      rcases ends with rfl | ⟨rfl, _⟩
      · exact bounds.1
      · rw [Option.getD_some, byteLength_append]
        omega
    cases finished : draft.finish source.toList terminator with
    | none => exact stand.mono (Nat.le_trans ahead forward)
    | some statement =>
      obtain ⟨_, starts, stops⟩ := drafted.wellFormed whole ends finished
      have single : statement.span = ⟨draft.start, terminator.getD draft.stop⟩ := by
        rw [StatementSpan.span, starts, stops]
      rw [Option.toList_some, List.map_singleton, single]
      exact .cons ahead (stand.mono forward)

end Stepped

end Step

/-! ## Segments -/

theorem Outline.Draft.addSign_fields (draft : Draft) (stop : Nat) (char : Char) :
    (draft.addSign stop char).start = draft.start ∧
      (draft.addSign stop char).opening = draft.opening ∧
      (draft.addSign stop char).stop = stop := by
  unfold addSign
  dsimp only
  split <;> exact ⟨rfl, rfl, rfl⟩

section Segment

variable {source : String} {before chars : List Char} {char : Char} {draft? : Option Draft}
  (whole : source.toList = before ++ char :: chars)
  (drafted : ∀ draft ∈ draft?, Drafted source.toList before (char :: chars) draft)
include whole drafted

/-- A word begins statements, ends them or goes on with them. -/
theorem stepped_word :
    Stepped source (before ++ char :: chars.takeWhile isWordPart) (chars.dropWhile isWordPart)
      (draftStart draft? (byteLength before))
      (step source.toList draft? (byteLength before)
        (.word (char :: chars.takeWhile isWordPart))) := by
  have opens : ∀ word ∈ OpeningWord.ofWord? (String.ofList (char :: chars.takeWhile isWordPart)),
      OpensAt source.toList (byteLength before) word.name := fun word isWord => by
    have same := List.find?_some isWord
    refine ⟨before, _, chars.dropWhile isWordPart, ?_, rfl, same, head?_dropWhile_any _ chars⟩
    rw [whole, List.cons_append, List.takeWhile_append_dropWhile]
  have begins {next : Draft}
      (isNext : next = .begin (byteLength before)
        (byteLength (before ++ char :: chars.takeWhile isWordPart))
        (OpeningWord.ofWord? (String.ofList (char :: chars.takeWhile isWordPart)))) :
      Drafted source.toList (before ++ char :: chars.takeWhile isWordPart)
        (chars.dropWhile isWordPart) next := by
    subst isNext
    exact @Drafted.extend source before [] none (fun _ none => by cases none) _ _ _
      (List.cons_ne_nil _ _) _ opens rfl rfl rfl
  simp only [step, Segment.spelling, ← byteLength_append]
  cases draft? with
  | none =>
    refine .silent (fun draft isDraft => begins (Option.mem_some.mp isDraft).symm) ?_
    exact Nat.le_refl _
  | some draft =>
    dsimp only
    split
    · refine .finish (drafted draft rfl) whole (.inl rfl)
        (fun next isNext => begins (Option.mem_some.mp isNext).symm) ?_
      exact (drafted draft rfl).stop_le.2
    · refine .silent (fun next isNext => ?_) (Nat.le_refl _)
      obtain rfl := Option.mem_some.mp isNext
      exact Drafted.extend drafted (List.cons_ne_nil _ _) _ opens rfl rfl rfl

/-- A sign may be the semicolon that ends a statement. -/
theorem stepped_sign :
    Stepped source (before ++ [char]) chars (draftStart draft? (byteLength before))
      (step source.toList draft? (byteLength before) (.sign char)) := by
  simp only [step, Segment.spelling, ← byteLength_append]
  split
  · next ends =>
    obtain ⟨rfl, _⟩ := ends
    cases draft? with
    | none =>
      refine .silent (fun draft isDraft => by cases isDraft) ?_
      simp [draftStart]
    | some draft =>
      refine .finish (drafted draft rfl) whole (.inr ⟨rfl, chars, rfl⟩)
        (fun next isNext => by cases isNext) (Nat.le_refl _)
  · obtain ⟨starts, opening, stops⟩ := (draft?.getD (.begin (byteLength before)
      (byteLength (before ++ [char])) none)).addSign_fields (byteLength (before ++ [char])) char
    have starts : _ = draftStart draft? (byteLength before) :=
      starts.trans (by cases draft? <;> rfl)
    refine .silent (fun next isNext => ?_) (Nat.le_of_eq starts.symm)
    obtain rfl := Option.mem_some.mp isNext
    refine Drafted.extend drafted (List.cons_ne_nil _ _) none (fun _ none => by cases none) starts
      ?_ stops
    exact opening.trans (by cases draft? <;> rfl)

omit whole in
/-- An enclosed text begins statements or goes on with them. -/
theorem stepped_enclosed {spelling rest : List Char} (some : spelling ≠ []) :
    Stepped source (before ++ spelling) rest (draftStart draft? (byteLength before))
      (step source.toList draft? (byteLength before) (.enclosed spelling)) := by
  simp only [step, Segment.spelling, ← byteLength_append]
  cases draft? with
  | none =>
    refine .silent (fun next isNext => ?_) (Nat.le_refl _)
    obtain rfl := Option.mem_some.mp isNext
    exact Drafted.extend drafted some none (fun _ none => by cases none) rfl rfl rfl
  | some draft =>
    refine .silent (fun next isNext => ?_) (Nat.le_refl _)
    obtain rfl := Option.mem_some.mp isNext
    exact Drafted.extend drafted some none (fun _ none => by cases none) rfl rfl rfl

/-- **Every segment** leaves a well-formed statement or none, and one that is going on. -/
theorem stepped_first :
    Stepped source (before ++ (Segment.first char chars).1.spelling) (Segment.first char chars).2
      (draftStart draft? (byteLength before))
      (step source.toList draft? (byteLength before) (Segment.first char chars).1) := by
  unfold Segment.first
  split
  · next white => exact .wait drafted fun gap before => .inl (before.blank white)
  next notWhite =>
  have noLineFeed : char ≠ '\n' := by
    rintro rfl
    exact notWhite (by decide)
  split
  · next opens => exact .wait drafted fun gap before => before.comment opens noLineFeed
  split
  · exact stepped_word whole drafted
  split
  · unfold Segment.firstEnclosed
    split <;> exact stepped_enclosed drafted (List.cons_ne_nil _ _)
  · exact stepped_sign whole drafted

end Segment

/-- From the statement that is going on, all that follow are well-formed and stand one behind the
other. -/
theorem entries_wellFormed {source : String} {before chars : List Char} {draft? : Option Draft}
    (whole : source.toList = before ++ chars)
    (drafted : ∀ draft ∈ draft?, Drafted source.toList before chars draft) :
    (∀ statement ∈ entries source.toList draft? (byteLength before) (Segment.all chars),
        statement.WellFormed source) ∧
      StandFrom (draftStart draft? (byteLength before))
        ((entries source.toList draft? (byteLength before) (Segment.all chars)).map
          StatementSpan.span) := by
  fun_induction Segment.all chars generalizing before draft? with
  | case1 =>
    rw [entries]
    cases draft? with
    | none => exact ⟨fun _ none => absurd none List.not_mem_nil, .nil, fun _ none => by cases none⟩
    | some draft =>
      have last : Stepped source before [] draft.start
          ((draft.finish source.toList none).toList, none) :=
        .finish (drafted draft rfl) whole (.inl rfl) (fun _ none => by cases none)
          (drafted draft rfl).stop_le.2
      refine ⟨last.finished, ?_⟩
      have stand := last.stand ⟨.nil, fun _ none => absurd none List.not_mem_nil⟩
      rwa [List.append_nil] at stand
  | case2 char chars ih =>
    have now := stepped_first whole drafted
    have split : source.toList =
        before ++ (Segment.first char chars).1.spelling ++ (Segment.first char chars).2 := by
      rw [whole, List.append_assoc, Segment.spelling_first]
    obtain ⟨finished, stand⟩ := ih split now.drafted
    rw [entries, List.map_append, ← byteLength_append]
    exact ⟨fun statement member => (List.mem_append.mp member).elim (now.finished statement)
      (finished statement), now.stand stand⟩

/-- **Every outline is well-formed**, however malformed the source is: its statements stand one
behind the other, and each of them is a part of the source that begins with an opening word, and
shows its own text without what stands behind it. -/
theorem outline_wellFormed (source : String) :
    ((outline source).Pairwise fun first second => first.stop ≤ second.start) ∧
      ∀ statement ∈ outline source, statement.WellFormed source := by
  obtain ⟨wellFormed, stand⟩ :=
    @entries_wellFormed source [] source.toList none rfl fun _ none => by cases none
  exact ⟨List.pairwise_map.mp stand.apart, wellFormed⟩

end DaxScript
