import DaxScript.Proofs.Outline.TokenOutline
import DaxScript.Proofs.Token.Separation
import DaxScript.Proofs.Token.Spelling

/-!
# Opening words and keywords

The outline knows statements by the words that they begin with, and the grammar by keywords.  In the
tokens of a source both are the same, but for one word: `ALTER` begins a statement of the outline
and is a name to the grammar (`Token.IsSpelled.openingWord?_cases`).
-/

set_option autoImplicit false

namespace DaxScript

open Outline

/-- The opening word that a keyword is. -/
def Keyword.openingWord? : Keyword → Option OpeningWord
  | create => some .create
  | define => some .define
  | evaluate => some .evaluate
  | _ => none

theorem Keyword.startsStatement_iff (word : Keyword) :
    word.startsStatement = true ↔ ∃ opening, word.openingWord? = some opening := by
  cases word <;> simp [startsStatement, openingWord?]

namespace Outline.OpeningWord

theorem ofWord?_of_keyword {word : String} {keyword : Keyword}
    (found : Keyword.ofWord? word = some keyword) : ofWord? word = keyword.openingWord? := by
  have same := sameIgnoringCase_iff.mp (Keyword.same_of_ofWord? found)
  have byName : ofWord? word = ofWord? keyword.name := by
    rw [ofWord?, ofWord?]
    congr 1
    funext known
    rw [sameIgnoringCase, sameIgnoringCase, same]
  rw [byName]
  cases keyword <;> decide +kernel

/-- The one opening word that is no keyword. -/
theorem eq_alter_of_ofWord? {word : String} {opening : OpeningWord}
    (noKeyword : Keyword.ofWord? word = none) (found : ofWord? word = some opening) :
    opening = .alter := by
  have same : sameIgnoringCase opening.name word = true :=
    List.find?_some (p := fun known : OpeningWord => sameIgnoringCase known.name word) found
  have noOther (keyword : Keyword) (named : keyword.name = opening.name) : False := by
    rw [← named] at same
    rw [Keyword.ofWord?_of_same same] at noKeyword
    cases noKeyword
  cases opening with
  | create => exact (noOther .create rfl).elim
  | define => exact (noOther .define rfl).elim
  | evaluate => exact (noOther .evaluate rfl).elim
  | alter => rfl

end Outline.OpeningWord

namespace Token

/-- A token of a source: its words are told apart by how they are spelled. -/
structure IsSpelled (token : Token) : Prop where
  keyword : ∀ word, token.kind = .keyword word → Keyword.ofWord? token.spelling = some word
  identifier : ∀ name, token.kind = .identifier name → Keyword.ofWord? token.spelling = none
  inside : token.kind ≠ .endOfInput

namespace IsSpelled

variable {token : Token} (spelled : token.IsSpelled)
include spelled

theorem openingWord?_of_keyword {word : Keyword} (isWord : token.kind = .keyword word) :
    token.openingWord? = word.openingWord? := by
  rw [openingWord?, isWord]
  dsimp only
  rw [← OpeningWord.ofWord?_eq_spelledBy?]
  exact OpeningWord.ofWord?_of_keyword (spelled.keyword word isWord)

/-- An opening word is a keyword, or it is a name, and then it is `ALTER`. -/
theorem openingWord?_cases {opening : OpeningWord} (opens : token.openingWord? = some opening) :
    (∃ word, token.kind = .keyword word ∧ word.openingWord? = some opening) ∨
      opening = .alter ∧ ∃ name, token.kind = .identifier name := by
  cases kind : token.kind with
  | keyword word =>
    rw [spelled.openingWord?_of_keyword kind] at opens
    exact .inl ⟨word, rfl, opens⟩
  | identifier name =>
    rw [openingWord?, kind] at opens
    dsimp only at opens
    rw [← OpeningWord.ofWord?_eq_spelledBy?] at opens
    exact .inr ⟨OpeningWord.eq_alter_of_ofWord? (spelled.identifier name kind) opens, name, rfl⟩
  | _ =>
    rw [openingWord?, kind] at opens
    cases opens

theorem openingWord?_eq_define_iff :
    token.openingWord? = some .define ↔ token.kind = .keyword .define := by
  constructor
  · intro opens
    rcases spelled.openingWord?_cases opens with ⟨word, isWord, same⟩ | ⟨other, _⟩
    · cases word <;> first | exact isWord | cases same
    · cases other
  · exact spelled.openingWord?_of_keyword

end IsSpelled

end Token

namespace Piece

theorem isSpelled_of_first {position : Position} {char : Char} {chars : List Char} {token : Token}
    (placed : (first char chars).1.token? position = some token) : token.IsSpelled := by
  have inside : token.kind ≠ .endOfInput := by
    cases read : (first char chars).1 with
    | token kind spelling fault =>
      rw [read] at placed
      cases placed
      exact kind_ne_endOfInput read
    | _ =>
      rw [read] at placed
      cases placed
  -- Only words are keywords or names.
  have ofOther (noKeyword : ∀ word, token.kind = .keyword word → False)
      (noName : ∀ name, token.kind = .identifier name → False) : token.IsSpelled :=
    ⟨fun word isWord => (noKeyword word isWord).elim, fun name isName => (noName name isName).elim,
      inside⟩
  unfold first at placed
  split at placed
  · cases placed
  split at placed
  · cases placed
    exact ofOther (fun _ same => by cases same) (fun _ same => by cases same)
  split at placed
  · simp only [ofNumeral] at placed
    split at placed <;> cases placed <;>
      exact ofOther (fun _ same => by cases same) (fun _ same => by cases same)
  split at placed
  · simp only [ofWord] at placed
    split at placed
    · next keyword found =>
      cases placed
      exact ⟨fun _ isWord => (by cases isWord; exact found), fun _ same => (by cases same), inside⟩
    · next none =>
      cases placed
      exact ⟨fun _ same => (by cases same), fun _ _ => none, inside⟩
  split at placed
  · next enclosure _ =>
    simp only [firstEnclosed] at placed
    split at placed <;> cases placed <;> cases enclosure <;>
      exact ofOther (fun _ same => by cases same) (fun _ same => by cases same)
  · simp only [firstSymbol] at placed
    split at placed
    · cases placed
      exact ofOther (fun _ same => by cases same) (fun _ same => by cases same)
    · split at placed <;> cases placed
      exact ofOther (fun _ same => by cases same) (fun _ same => by cases same)

/-- **The tokens of a text are spelled.** -/
theorem isSpelled_of_mem_tokens {position : Position} {chars : List Char} {token : Token}
    (member : token ∈ tokens position (all chars)) : token.IsSpelled := by
  fun_induction all chars generalizing position with
  | case1 => cases member
  | case2 char chars ih =>
    rcases List.mem_append.mp member with own | later
    · exact isSpelled_of_first (mem_ownTokens_iff.mp own).1
    · exact ih later

end Piece

end DaxScript
