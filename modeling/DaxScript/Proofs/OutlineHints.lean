import DaxScript.Proofs.Text.Trim
import DaxScript.Proofs.Token.Faults
import DaxScript.Proofs.WellFormedOutline

/-!
# The texts that an outline shows are trimmed

The outline shows the text of a statement that defines a measure.  It begins with a word, and ends
with the last segment of the statement that is neither white space nor a comment, so as a rule there
is no white space at either end (`hint_trimmed_iff`).  If no semicolon ends the statement then it
ends with the text that is shown.

The exception is a source that ends within quotes or brackets.  What has been opened there reaches
to the end of the source (`LeftOpen`), and if that is white space, then so is the end of the text
(`hint_of_open_text`).
-/

set_option autoImplicit false

namespace DaxScript

open Outline

namespace Outline

/-- Something is opened in a source and never closed. -/
def LeftOpen (source : List Char) : Prop :=
  ∃ front enclosure inner, Segment.all source =
    front ++ [.enclosed (Enclosure.opener enclosure :: inner)] ∧ enclosure.NeverCloses inner

/-! ## How segments end -/

namespace Segment

/-- Whether a segment is white space or a comment. -/
def isSilent : Segment → Bool
  | blank _ | comment _ => true
  | _ => false

theorem getLast?_enclosed {enclosure : Enclosure} {chars : List Char} {closed : Enclosure.Closed}
    (found : enclosure.close? chars = some closed) (char : Char) :
    (char :: closed.spelling).getLast?.any Unicode.isWhiteSpace = false := by
  rw [(Enclosure.spelling_of_close? found).2, ← List.cons_append, List.getLast?_concat]
  cases enclosure <;> rfl

/-- **A segment that says something does not end in white space**, unless it is never closed, and
then it is the last one. -/
theorem getLast?_first {char : Char} {chars : List Char}
    (loud : (first char chars).1.isSilent = false) :
    (first char chars).1.spelling.getLast?.any Unicode.isWhiteSpace = false ∨
      (first char chars).2 = [] ∧ ∃ enclosure : Enclosure,
        (first char chars).1 = .enclosed (enclosure.opener :: chars) ∧
          enclosure.NeverCloses chars := by
  unfold first at loud ⊢
  split at loud
  · cases loud
  next notWhite =>
  rw [if_neg notWhite]
  split at loud
  · cases loud
  next noComment =>
  rw [if_neg noComment]
  split at loud
  · next starts =>
    rw [if_pos starts]
    refine .inl ?_
    have parts : ∀ part ∈ char :: chars.takeWhile isWordPart, isWordPart part = true :=
      List.forall_mem_cons.mpr
        ⟨isWordPart_of_isWordStart starts, belongs_of_mem_takeWhile isWordPart chars⟩
    exact (Tight.of_forall fun part member => isWhiteSpace_of_isWordPart (parts part member)).last
  next noWord =>
  rw [if_neg noWord]
  split at loud
  · next enclosure opens =>
    obtain rfl := Piece.opener_of_ofOpener? opens
    simp only [firstEnclosed]
    split
    · next closed found => exact .inl (getLast?_enclosed found _)
    · next never =>
      exact .inr ⟨rfl, enclosure, rfl, Enclosure.close?_eq_none_iff.mp never⟩
  · exact .inl (Bool.eq_false_iff.mpr notWhite)

end Segment

/-! ## What a segment does -/

section Step

variable {source : List Char} {draft? : Option Draft} {start : Nat} {segment : Segment}

/-- A statement that is listed at a segment is the one that was going on.  It ends in front of the
segment, or the segment is the semicolon that ends it. -/
theorem exists_finish_of_mem_step {statement : StatementSpan}
    (member : statement ∈ (step source draft? start segment).1) :
    ∃ draft ∈ draft?, ∃ terminator, draft.finish source terminator = some statement ∧
      (terminator = none ∨
        segment = .sign ';' ∧ terminator = some (start + byteLength segment.spelling)) := by
  cases segment with
  | blank => cases member
  | comment => cases member
  | word spelling =>
    cases draft? with
    | none => cases member
    | some draft =>
      simp only [step] at member
      split at member
      · exact ⟨draft, rfl, none, Option.mem_toList.mp member, .inl rfl⟩
      · cases member
  | enclosed spelling => cases draft? <;> cases member
  | sign char =>
    simp only [step] at member
    split at member
    · next ends =>
      obtain ⟨rfl, _⟩ := ends
      obtain ⟨draft, isDraft, finished⟩ := Option.bind_eq_some_iff.mp (Option.mem_toList.mp member)
      exact ⟨draft, isDraft, _, finished, .inr ⟨rfl, rfl⟩⟩
    · cases member

/-- A statement that is going on behind a segment ends with the segment, unless that is silent. -/
theorem stop_of_mem_step {next : Draft} (isNext : next ∈ (step source draft? start segment).2) :
    next ∈ draft? ∧ segment.isSilent = true ∨
      next.stop = start + byteLength segment.spelling ∧ segment.isSilent = false := by
  cases segment with
  | blank => exact .inl ⟨isNext, rfl⟩
  | comment => exact .inl ⟨isNext, rfl⟩
  | word spelling =>
    refine .inr ⟨?_, rfl⟩
    cases draft? with
    | none =>
      cases isNext
      rfl
    | some draft =>
      simp only [step] at isNext
      split at isNext <;> cases isNext <;> rfl
  | enclosed spelling =>
    refine .inr ⟨?_, rfl⟩
    cases draft? <;> cases isNext <;> rfl
  | sign char =>
    refine .inr ⟨?_, rfl⟩
    simp only [step] at isNext
    split at isNext
    · cases isNext
    · cases isNext
      exact (Draft.addSign_fields _ _ char).2.2

end Step

end Outline

/-! ## Texts that are shown -/

namespace StatementSpan

/-- A semicolon ends a statement behind the text that is shown, with white space and comments in
between. -/
def Terminated (source : String) (statement : StatementSpan) (text : String) : Prop :=
  ∃ gap, Gap gap ∧
    (Span.mk (statement.start + byteLength text.toList) statement.stop).slice? source.toList =
      some (gap ++ [';'])

/-- A statement reaches to the end of a source that is left open and ends in white space. -/
def IsCutOff (source : String) (statement : StatementSpan) : Prop :=
  LeftOpen source.toList ∧ source.toList.getLast?.any Unicode.isWhiteSpace = true ∧
    statement.stop = byteLength source.toList

end StatementSpan

/-- What holds of the text that is shown for a statement. -/
structure StatementSpan.Shows (source : String) (statement : StatementSpan) (text : String) :
    Prop where
  first : text.toList.head?.any Unicode.isWhiteSpace = false
  last : text.toList.getLast?.any Unicode.isWhiteSpace = true ↔ statement.IsCutOff source
  reach : statement.Terminated source text ∨
    statement.stop = statement.start + byteLength text.toList

/-! ### The first character -/

theorem Outline.OpeningWord.name_letters (word : OpeningWord) :
    word.name.toList.all (·.toUpper.isUpper) = true := by
  cases word <;> rfl

/-- A text that begins with a word that opens statements begins with a letter. -/
theorem Outline.OpensAt.head?_isWhiteSpace {source front text rest : List Char}
    {word : OpeningWord} (opens : OpensAt source (byteLength front) word.name)
    (split : source = front ++ (text ++ rest)) (nonempty : text ≠ []) :
    text.head?.any Unicode.isWhiteSpace = false := by
  obtain ⟨before, spelled, later, whole, starts, same, _⟩ := opens
  obtain ⟨_, begins⟩ := append_inj_of_byteLength (whole.symm.trans split) starts
  have letters := isUpper_toUpper_of_same word.name_letters same
  obtain ⟨char, chars, rfl⟩ := List.exists_cons_of_ne_nil nonempty
  cases spelled with
  | nil => cases word <;> exact absurd same (by decide)
  | cons letter tail =>
    obtain ⟨rfl, _⟩ := List.cons.inj begins
    exact isWhiteSpace_of_isWordPart
      (isWordPart_of_isWordStart (isWordStart_of_toUpper (letters _ (.head _))))

/-! ### The last character -/

/-- The end of the text of a statement that is going on is no white space, or the source is left
open and ends there. -/
def Outline.Draft.EndsTight (source : List Char) (draft : Draft) : Prop :=
  ∃ reached rest, source = reached ++ rest ∧ draft.stop = byteLength reached ∧
    (reached.getLast?.any Unicode.isWhiteSpace = false ∨ rest = [] ∧ LeftOpen source)

section Cut

variable {source said rest : List Char} (split : source = said ++ rest)
include split

/-- Where the text of a statement ends in white space, the source ends as well. -/
theorem Outline.Draft.EndsTight.eq_nil {draft : Draft} (tight : draft.EndsTight source)
    (stops : draft.stop = byteLength said)
    (white : said.getLast?.any Unicode.isWhiteSpace = true) : rest = [] ∧ LeftOpen source := by
  obtain ⟨reached, later, whole, reaches, tight⟩ := tight
  obtain ⟨rfl, rfl⟩ :=
    append_inj_of_byteLength (whole.symm.trans split) (reaches.symm.trans stops)
  refine tight.resolve_left fun notWhite => ?_
  rw [notWhite] at white
  cases white

theorem eq_nil_of_byteLength_eq (all : byteLength said = byteLength source) : rest = [] := by
  refine Decidable.byContradiction fun some => ?_
  have bytes := byteLength_pos some
  rw [split, byteLength_append] at all
  omega

end Cut

namespace Drafted

variable {source : String} {before after : List Char} {draft : Draft}
  (drafted : Drafted source.toList before after draft) (whole : source.toList = before ++ after)
  {terminator : Option Nat} {statement : StatementSpan}
  (finished : draft.finish source.toList terminator = some statement) {text : String}
  (shown : statement.hint = some text)
include drafted whole finished shown

/-- The text that is shown for a statement is what stands in front of its end. -/
theorem exists_front :
    ∃ front gap, before = front ++ (text.toList ++ gap) ∧ text.toList ≠ [] ∧
      statement.start = byteLength front ∧ draft.stop = byteLength (front ++ text.toList) ∧
      statement.stop = terminator.getD draft.stop ∧ GapBefore gap after ∧
      ∃ word : OpeningWord, OpensAt source.toList statement.start word.name := by
  obtain ⟨front, chars, gap, rfl, nonempty, starts, stops, open_⟩ := drafted.located
  obtain ⟨word, opening, same⟩ := Option.map_eq_some_iff.mp finished
  have content : (Span.mk draft.start draft.stop).slice? source.toList = some chars := by
    refine Span.slice?_eq_some front (gap ++ after) ?_ starts ?_
    · rw [whole]
      simp
    · rw [stops, byteLength_append]
  rw [Span.slice, content, Option.getD_some] at same
  subst same
  obtain ⟨_, _, rfl⟩ := Option.map_eq_some_iff.mp shown
  rw [String.toList_ofList]
  exact ⟨front, gap, rfl, nonempty, starts, stops, rfl, open_, word, drafted.opens word opening⟩

/-- **The text of a statement that is finished is shown without white space at its ends**, unless
the statement is cut off by the end of the source. -/
theorem shows (tight : draft.EndsTight source.toList)
    (ends : terminator = none ∨
      terminator = some (byteLength (before ++ [';'])) ∧ ∃ rest, after = ';' :: rest) :
    statement.Shows source text := by
  obtain ⟨front, gap, rfl, nonempty, starts, stops, reaches, open_, word, opens⟩ :=
    drafted.exists_front whole finished shown
  have split : source.toList = (front ++ text.toList) ++ (gap ++ after) := by
    rw [whole]
    simp
  have sameLast : (front ++ text.toList).getLast? = text.toList.getLast? := by
    rw [List.getLast?_append, List.getLast?_eq_some_getLast nonempty]
    rfl
  rw [starts] at opens
  refine ⟨opens.head?_isWhiteSpace (split.trans (List.append_assoc ..)) nonempty, ?_, ?_⟩
  · rw [← sameLast]
    constructor
    · intro white
      obtain ⟨nothing, isOpen⟩ := tight.eq_nil split stops white
      obtain ⟨-, rfl⟩ := List.append_eq_nil_iff.mp nothing
      rcases ends with rfl | ⟨_, _, ends⟩
      · rw [nothing, List.append_nil] at split
        refine ⟨isOpen, by rwa [split], ?_⟩
        rw [split, reaches, ← stops]
        rfl
      · cases ends
    · rintro ⟨_, white, isEnd⟩
      rw [reaches] at isEnd
      rcases ends with rfl | ⟨rfl, others, rfl⟩
      · have nothing := eq_nil_of_byteLength_eq split (stops.symm.trans isEnd)
        rw [nothing, List.append_nil] at split
        rwa [← split]
      · -- The source would end with the semicolon.
        have behind : source.toList =
            ((front ++ (text.toList ++ gap)) ++ [';']) ++ others := by
          rw [whole]
          simp
        have nothing := eq_nil_of_byteLength_eq behind isEnd
        rw [behind, nothing, List.append_nil, List.getLast?_concat] at white
        cases white
  · rcases ends with rfl | ⟨rfl, others, rfl⟩
    · refine .inr ?_
      rw [reaches, starts, ← byteLength_append, ← stops]
      rfl
    · refine .inl ⟨gap, open_.gap_of_ne (by decide), ?_⟩
      refine Span.slice?_eq_some (front ++ text.toList) others (by rw [split]; simp) ?_ ?_
      · rw [starts, byteLength_append]
      · rw [reaches]
        simp [Nat.add_assoc]

end Drafted

/-- From the statement that is going on, all that follow are shown without white space. -/
theorem entries_show {source : String} {before chars : List Char} {draft? : Option Draft}
    (whole : source.toList = before ++ chars)
    (drafted : ∀ draft ∈ draft?, Drafted source.toList before chars draft)
    (tight : ∀ draft ∈ draft?, draft.EndsTight source.toList) :
    ∀ front, Segment.all source.toList = front ++ Segment.all chars →
      ∀ statement ∈ entries source.toList draft? (byteLength before) (Segment.all chars),
        ∀ text ∈ statement.hint, statement.Shows source text := by
  fun_induction Segment.all chars generalizing before draft? with
  | case1 =>
    intro front _ statement member text shown
    obtain ⟨draft, isDraft, finished⟩ := Option.bind_eq_some_iff.mp (Option.mem_toList.mp member)
    exact (drafted draft isDraft).shows whole finished shown (tight draft isDraft) (.inl rfl)
  | case2 char chars ih =>
    intro front cut statement member text shown
    have now := stepped_first whole drafted
    have spelled := Segment.spelling_first char chars
    have split : source.toList =
        before ++ (Segment.first char chars).1.spelling ++ (Segment.first char chars).2 := by
      rw [whole, List.append_assoc, spelled]
    rw [entries, ← byteLength_append] at member
    rcases List.mem_append.mp member with finishedHere | later
    · obtain ⟨draft, isDraft, terminator, finished, ends⟩ := exists_finish_of_mem_step finishedHere
      refine (drafted draft isDraft).shows whole finished shown (tight draft isDraft) ?_
      rcases ends with unterminated | ⟨isSign, stops⟩
      · exact .inl unterminated
      · rw [isSign] at spelled
        rw [stops, isSign, byteLength_append]
        exact .inr ⟨rfl, _, spelled.symm⟩
    · refine ih split now.drafted (fun next isNext => ?_) (front ++ [(Segment.first char chars).1])
        (by rw [cut, List.append_assoc]; rfl) statement later text shown
      rcases stop_of_mem_step isNext with ⟨isDraft, _⟩ | ⟨stops, loud⟩
      · exact tight next isDraft
      · refine ⟨_, _, split, by rw [stops, byteLength_append], ?_⟩
        have sameLast : (before ++ (Segment.first char chars).1.spelling).getLast? =
            (Segment.first char chars).1.spelling.getLast? := by
          rw [List.getLast?_append,
            List.getLast?_eq_some_getLast (Segment.spelling_first_ne_nil char chars)]
          rfl
        rw [sameLast]
        refine (Segment.getLast?_first loud).imp_right ?_
        rintro ⟨nothing, enclosure, isEnclosed, never⟩
        refine ⟨nothing, front, enclosure, chars, ?_, never⟩
        rw [cut, isEnclosed, nothing, Segment.all]

/-- **A text that is shown is trimmed, unless it is cut off** within quotes or brackets by the end
of a source that ends in white space.  There is no white space in front of it in any case, and if no
semicolon ends the statement, then this ends with the text. -/
theorem hint_trimmed_iff {source : String} {statement : StatementSpan}
    (member : statement ∈ outline source) {text : String} (shown : statement.hint = some text) :
    trimStart text.toList = text.toList ∧
      (trim text.toList = text.toList ↔ ¬statement.IsCutOff source) ∧
      (¬statement.Terminated source text →
        statement.stop = statement.start + byteLength text.toList) := by
  have shows : statement.Shows source text :=
    @entries_show source [] source.toList none rfl (fun _ none => by cases none)
      (fun _ none => by cases none) [] rfl statement member text shown
  refine ⟨trimStart_eq_self shows.first, ?_, shows.reach.resolve_left⟩
  rw [trim_eq_iff shows.first, ← shows.last, Bool.not_eq_true]

/-- A statement with a comment in front of its semicolon, and one that is cut off within quotes. -/
theorem hint_trimmed_iff_quotes :
    let source := "CREATE MEASURE t[a] = 1 -- c\n; CREATE MEASURE t[b] = 'x \n"
    (∃ statement ∈ outline source, statement.hint = some "CREATE MEASURE t[a] = 1" ∧
        ¬statement.IsCutOff source) ∧
      ∃ statement ∈ outline source, statement.hint = some "CREATE MEASURE t[b] = 'x \n" ∧
        statement.IsCutOff source := by
  intro source
  have listed : outline source =
      [⟨0, 30, some "t[a]", some "CREATE MEASURE t[a] = 1"⟩,
        ⟨31, 57, some "t[b]", some "CREATE MEASURE t[b] = 'x \n"⟩] := by
    decide +kernel
  refine ⟨⟨_, by rw [listed]; exact .head _, rfl, ?_⟩,
    ⟨_, by rw [listed]; exact .tail _ (.head _), rfl, ?_⟩⟩
  · exact (hint_trimmed_iff (by rw [listed]; exact .head _) rfl).2.1.mp (by decide +kernel)
  · refine Classical.byContradiction fun whole => ?_
    have trimmed := (hint_trimmed_iff (by rw [listed]; exact .tail _ (.head _)) rfl).2.1.mpr whole
    exact absurd trimmed (by decide +kernel)

/-- The white space within quotes that are left open is shown. -/
theorem hint_of_open_text :
    ∃ statement ∈ outline "CREATE MEASURE t[a] = \"b ", ∃ text ∈ statement.hint,
      trim text.toList ≠ text.toList := by
  decide +kernel

end DaxScript
