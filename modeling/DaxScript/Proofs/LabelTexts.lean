import DaxScript.Proofs.Outline.ByteCuts
import DaxScript.Proofs.Text.Trim

/-!
# The texts that have a label

A text has a label exactly if it begins with `CREATE` or `DEFINE`, `MEASURE`, a table, and a name in
brackets, with nothing but white space in between, and then the label is the table and the name in
brackets (`label?_iff_definition`).  There is only one way of cutting a text into these parts
(`DefinitionText`): each of them ends where the next character cannot belong to it.

Each part is found by a function of its own, and for each there is one lemma that says which texts
begin with such a part.  What stands behind a part of a text that is cut is then what the function
finds, and two ways of cutting a text agree part by part.
-/

set_option autoImplicit false

namespace DaxScript.Outline

/-! ## Parts of a definition -/

/-- A text spells a word in some letter case, and the word does not go on behind it. -/
def IsWord (word : String) (spelling behind : List Char) : Prop :=
  sameIgnoringCase word (String.ofList spelling) = true ∧ behind.head?.any isWordPart = false

/-- A text is a table: a name between quotes, the quotes in it written twice, or characters of words
as far as they go. -/
inductive IsTable : List Char → List Char → Prop where
  | quoted {content behind : List Char} (single : behind.head?.any (· == '\'') = false) :
      IsTable ('\'' :: (Quoted.double '\'' content ++ ['\''])) behind
  | run {chars behind : List Char} (nonempty : chars ≠ [])
      (parts : ∀ char ∈ chars, isWordPart char = true)
      (stops : behind.head?.any isWordPart = false) : IsTable chars behind

/-- A text that begins like the definition of a measure, cut into its parts. -/
@[ext]
structure DefinitionText where
  opening : List Char
  openingGap : List Char
  noun : List Char
  nounGap : List Char
  table : List Char
  tableGap : List Char
  /-- What stands in the brackets. -/
  name : List Char
  rest : List Char

namespace DefinitionText

variable (parts : DefinitionText)

def bracketed : List Char :=
  '[' :: (parts.name ++ ']' :: parts.rest)

def behindTable : List Char :=
  parts.tableGap ++ parts.bracketed

def behindNoun : List Char :=
  parts.nounGap ++ (parts.table ++ parts.behindTable)

def behindOpening : List Char :=
  parts.openingGap ++ (parts.noun ++ parts.behindNoun)

def text : List Char :=
  parts.opening ++ parts.behindOpening

def label : List Char :=
  parts.table ++ '[' :: (parts.name ++ [']'])

/-- Each part is what it stands for. -/
structure WellFormed : Prop where
  opening : IsWord "CREATE" parts.opening parts.behindOpening ∨
    IsWord "DEFINE" parts.opening parts.behindOpening
  openingGap : ∀ char ∈ parts.openingGap, Unicode.isWhiteSpace char = true
  noun : IsWord "MEASURE" parts.noun parts.behindNoun
  nounGap : ∀ char ∈ parts.nounGap, Unicode.isWhiteSpace char = true
  table : IsTable parts.table parts.behindTable
  tableGap : ∀ char ∈ parts.tableGap, Unicode.isWhiteSpace char = true
  nameSome : parts.name ≠ []
  nameOpen : ']' ∉ parts.name

end DefinitionText

/-! ## What each part is found by -/

/-- The text behind the first word of a definition. -/
def stripOpening? (text : List Char) : Option (List Char) :=
  (stripWord? "CREATE" text).or (stripWord? "DEFINE" text)

/-- A text begins with one of the two words, for no word is both. -/
theorem stripOpening?_eq_some_iff {text behind : List Char} :
    stripOpening? text = some behind ↔ ∃ spelling, text = spelling ++ behind ∧
      (IsWord "CREATE" spelling behind ∨ IsWord "DEFINE" spelling behind) := by
  rw [stripOpening?, Option.or_eq_some_iff]
  constructor
  · rintro (found | ⟨_, found⟩)
    · obtain ⟨spelling, split, isWord⟩ := stripWord?_eq_some_iff.mp found
      exact ⟨spelling, split, .inl isWord⟩
    · obtain ⟨spelling, split, isWord⟩ := stripWord?_eq_some_iff.mp found
      exact ⟨spelling, split, .inr isWord⟩
  · rintro ⟨spelling, split, isWord | isWord⟩
    · exact .inl (stripWord?_eq_some_iff.mpr ⟨spelling, split, isWord⟩)
    · refine .inr ⟨?_, stripWord?_eq_some_iff.mpr ⟨spelling, split, isWord⟩⟩
      refine Option.eq_none_iff_forall_ne_some.mpr fun other found => ?_
      obtain ⟨spelling', split', same, _⟩ := stripWord?_eq_some_iff.mp found
      -- Both words have six letters, so they are the same part of the text.
      have upper := sameIgnoringCase_iff.mp same
      have upper' := sameIgnoringCase_iff.mp isWord.1
      have size : spelling'.length = spelling.length := by
        have first := congrArg List.length upper
        have second := congrArg List.length upper'
        simp only [String.toList_ofList, List.length_map] at first second
        exact first.symm.trans second
      obtain ⟨rfl, _⟩ := List.append_inj (split'.symm.trans split) size
      exact absurd (upper.trans upper'.symm) (by decide)

theorem IsTable.head?_isWhiteSpace {table behind : List Char} (isTable : IsTable table behind)
    (more : List Char) : (table ++ more).head?.any Unicode.isWhiteSpace = false := by
  cases isTable with
  | quoted => rfl
  | run nonempty parts =>
    obtain ⟨char, chars, rfl⟩ := List.exists_cons_of_ne_nil nonempty
    exact isWhiteSpace_of_isWordPart (parts char (.head _))

/-- **A text is cut behind a table exactly if it begins with one.** -/
theorem splitTable?_eq_some_iff {text table behind : List Char} :
    splitTable? text = some (table, behind) ↔ text = table ++ behind ∧ IsTable table behind := by
  constructor
  · intro found
    unfold splitTable? at found
    split at found
    · obtain ⟨closed, isClosed, same⟩ := Option.map_eq_some_iff.mp found
      obtain ⟨rfl, rfl⟩ := Prod.mk.inj same
      refine ⟨congrArg _ (Enclosure.spelling_append_rest isClosed).symm, ?_⟩
      rw [(Enclosure.spelling_of_close? isClosed).2]
      exact .quoted (Enclosure.head?_rest_of_doubles isClosed rfl)
    · dsimp only at found
      split at found
      · cases found
      · next nonempty =>
        obtain ⟨rfl, rfl⟩ := Prod.mk.inj (Option.some.inj found)
        exact ⟨List.takeWhile_append_dropWhile.symm,
          .run (fun none => nonempty (List.isEmpty_iff.mpr none))
            (belongs_of_mem_takeWhile isWordPart text) (head?_dropWhile_any isWordPart text)⟩
  · rintro ⟨rfl, isTable⟩
    cases isTable with
    | @quoted content _ single =>
      have alone := @Enclosure.close?_write .quotedName content [] (.inl rfl)
        fun _ none => nomatch none
      have found := Enclosure.close?_exchange alone fun _ => single
      exact congrArg (Option.map _) found
    | run nonempty parts stops =>
      obtain ⟨char, chars, rfl⟩ := List.exists_cons_of_ne_nil nonempty
      have noQuote : char ≠ '\'' := by
        rintro rfl
        exact absurd (parts _ (.head _)) (by decide)
      rw [splitTable?, takeWhile_run parts stops, dropWhile_run parts stops]
      · rfl
      · exact fun _ same => noQuote (List.cons.inj same).1

/-- **A text begins with a name in brackets** if it is not empty and ends at the first closing
bracket. -/
theorem bracketedName?_eq_some_iff {text name : List Char} :
    bracketedName? text = some name ↔
      ∃ rest, text = '[' :: (name ++ ']' :: rest) ∧ name ≠ [] ∧ ']' ∉ name := by
  constructor
  · intro found
    unfold bracketedName? at found
    split at found
    · next chars =>
      dsimp only at found
      split at found
      · cases found
      · next some =>
        obtain rfl := Option.some.inj found
        rw [not_or] at some
        have cut : chars.takeWhile (· != ']') ++ chars.dropWhile (· != ']') = chars :=
          List.takeWhile_append_dropWhile
        rcases dropWhile_closer chars with nothing | ⟨rest, closed⟩
        · rw [nothing, List.append_nil] at cut
          exact absurd (congrArg List.length cut) some.2
        · rw [closed] at cut
          refine ⟨rest, congrArg _ cut.symm, fun none => some.1 (List.isEmpty_iff.mpr none), ?_⟩
          intro member
          exact absurd (belongs_of_mem_takeWhile (· != ']') chars _ member) (by decide)
    · cases found
  · rintro ⟨rest, rfl, nonempty, isOpen⟩
    have inside : ∀ char ∈ name, (char != ']') = true := fun char member =>
      bne_iff_ne.mpr fun same => isOpen (same ▸ member)
    have run : (name ++ ']' :: rest).takeWhile (· != ']') = name := takeWhile_run inside rfl
    have shorter : name.length ≠ (name ++ ']' :: rest).length := by simp
    simp only [bracketedName?, run, List.isEmpty_iff, nonempty, shorter, or_self, if_false]

/-! ## Cutting a text into its parts -/

namespace DefinitionText.WellFormed

variable {parts : DefinitionText} (wellFormed : parts.WellFormed)
include wellFormed

theorem stripOpening?_text : stripOpening? parts.text = some parts.behindOpening :=
  stripOpening?_eq_some_iff.mpr ⟨_, rfl, wellFormed.opening⟩

theorem trimStart_behindOpening :
    trimStart parts.behindOpening = parts.noun ++ parts.behindNoun := by
  refine trimStart_append wellFormed.openingGap ?_
  have letters := @Keyword.isWordStart_of_same .measure _ wellFormed.noun.1
  have nonempty := @Keyword.ne_nil_of_same .measure _ wellFormed.noun.1
  obtain ⟨char, chars, same⟩ := List.exists_cons_of_ne_nil nonempty
  rw [same] at letters ⊢
  exact isWhiteSpace_of_isWordPart (isWordPart_of_isWordStart (letters char (.head _)))

theorem stripWord?_noun :
    stripWord? "MEASURE" (parts.noun ++ parts.behindNoun) = some parts.behindNoun :=
  stripWord?_eq_some_iff.mpr ⟨_, rfl, wellFormed.noun⟩

theorem trimStart_behindNoun : trimStart parts.behindNoun = parts.table ++ parts.behindTable :=
  trimStart_append wellFormed.nounGap (wellFormed.table.head?_isWhiteSpace _)

theorem splitTable?_table :
    splitTable? (parts.table ++ parts.behindTable) = some (parts.table, parts.behindTable) :=
  splitTable?_eq_some_iff.mpr ⟨rfl, wellFormed.table⟩

theorem trimStart_behindTable : trimStart parts.behindTable = parts.bracketed :=
  trimStart_append wellFormed.tableGap rfl

theorem bracketedName?_bracketed : bracketedName? parts.bracketed = some parts.name :=
  bracketedName?_eq_some_iff.mpr ⟨_, rfl, wellFormed.nameSome, wellFormed.nameOpen⟩

/-- **The label of a text is that of its parts.** -/
theorem label?_text : label? parts.text = some parts.label := by
  have opening : (stripWord? "CREATE" parts.text).or (stripWord? "DEFINE" parts.text) =
      some parts.behindOpening := wellFormed.stripOpening?_text
  rw [Piece.label?_eq, opening, Option.bind_some, wellFormed.trimStart_behindOpening,
    wellFormed.stripWord?_noun, Option.bind_some, Piece.labelBehind?,
    wellFormed.trimStart_behindNoun, wellFormed.splitTable?_table, Option.bind_eq_bind,
    Option.bind_some]
  dsimp only
  rw [wellFormed.trimStart_behindTable, wellFormed.bracketedName?_bracketed]
  rfl

/-- **There is one way of cutting a text into its parts.** -/
theorem eq_of_text_eq {other : DefinitionText} (otherWellFormed : other.WellFormed)
    (same : parts.text = other.text) : parts = other := by
  have behindOpening : parts.behindOpening = other.behindOpening :=
    Option.some.inj (by
      rw [← wellFormed.stripOpening?_text, same, otherWellFormed.stripOpening?_text])
  have fromNoun : parts.noun ++ parts.behindNoun = other.noun ++ other.behindNoun := by
    rw [← wellFormed.trimStart_behindOpening, behindOpening,
      otherWellFormed.trimStart_behindOpening]
  have behindNoun : parts.behindNoun = other.behindNoun :=
    Option.some.inj (by
      rw [← wellFormed.stripWord?_noun, fromNoun, otherWellFormed.stripWord?_noun])
  have fromTable : parts.table ++ parts.behindTable = other.table ++ other.behindTable := by
    rw [← wellFormed.trimStart_behindNoun, behindNoun, otherWellFormed.trimStart_behindNoun]
  have tables : (parts.table, parts.behindTable) = (other.table, other.behindTable) :=
    Option.some.inj (by
      rw [← wellFormed.splitTable?_table, fromTable, otherWellFormed.splitTable?_table])
  obtain ⟨table, behindTable⟩ := Prod.mk.inj tables
  have bracketed : parts.bracketed = other.bracketed := by
    rw [← wellFormed.trimStart_behindTable, behindTable, otherWellFormed.trimStart_behindTable]
  have name : parts.name = other.name :=
    Option.some.inj (by
      rw [← wellFormed.bracketedName?_bracketed, bracketed,
        otherWellFormed.bracketedName?_bracketed])
  -- What is left of each text in front of a part is the part before it.
  have opening : parts.opening = other.opening :=
    List.append_cancel_right (same.trans (congrArg (other.opening ++ ·) behindOpening.symm))
  have openingGap : parts.openingGap = other.openingGap :=
    List.append_cancel_right
      (behindOpening.trans (congrArg (other.openingGap ++ ·) fromNoun.symm))
  have noun : parts.noun = other.noun :=
    List.append_cancel_right (fromNoun.trans (congrArg (other.noun ++ ·) behindNoun.symm))
  have nounGap : parts.nounGap = other.nounGap :=
    List.append_cancel_right (behindNoun.trans (congrArg (other.nounGap ++ ·) fromTable.symm))
  have tableGap : parts.tableGap = other.tableGap :=
    List.append_cancel_right (behindTable.trans (congrArg (other.tableGap ++ ·) bracketed.symm))
  have rest : parts.rest = other.rest := by
    have inside := (List.cons.inj bracketed).2
    rw [name] at inside
    exact (List.cons.inj (List.append_cancel_left inside)).2
  exact DefinitionText.ext opening openingGap noun nounGap table tableGap name rest

end DefinitionText.WellFormed

/-- A text that has a label is cut into parts. -/
theorem exists_parts {text label : List Char} (found : label? text = some label) :
    ∃ parts : DefinitionText, parts.WellFormed ∧ parts.text = text ∧ parts.label = label := by
  rw [Piece.label?_eq] at found
  obtain ⟨behindNoun, foundWords, found⟩ := Option.bind_eq_some_iff.mp found
  obtain ⟨behindOpening, foundOpening, foundNoun⟩ := Option.bind_eq_some_iff.mp foundWords
  obtain ⟨⟨table, behindTable⟩, foundTable, found⟩ := Option.bind_eq_some_iff.mp found
  obtain ⟨name, foundName, same⟩ := Option.bind_eq_some_iff.mp found
  obtain ⟨opening, rfl, isOpening⟩ := stripOpening?_eq_some_iff.mp foundOpening
  obtain ⟨openingGap, cutOpening, isOpeningGap⟩ := exists_gap_trimStart behindOpening
  obtain ⟨noun, cutNoun, isNoun⟩ := stripWord?_eq_some_iff.mp foundNoun
  obtain ⟨nounGap, cutNounGap, isNounGap⟩ := exists_gap_trimStart behindNoun
  obtain ⟨cutTable, isTable⟩ := splitTable?_eq_some_iff.mp foundTable
  obtain ⟨tableGap, cutTableGap, isTableGap⟩ := exists_gap_trimStart behindTable
  obtain ⟨rest, cutName, nameSome, nameOpen⟩ := bracketedName?_eq_some_iff.mp foundName
  obtain rfl := cutTableGap.trans (congrArg (tableGap ++ ·) cutName)
  obtain rfl := cutNounGap.trans (congrArg (nounGap ++ ·) cutTable)
  obtain rfl := cutOpening.trans (congrArg (openingGap ++ ·) cutNoun)
  exact ⟨⟨opening, openingGap, noun, nounGap, table, tableGap, name, rest⟩,
    ⟨isOpening, isOpeningGap, isNoun, isNounGap, isTable, isTableGap, nameSome, nameOpen⟩, rfl,
    Option.some.inj same⟩

/-- **A text has a label exactly if it begins like the definition of a measure**, in one way only,
and no cut goes wrong where the label is read. -/
theorem label?_iff_definition (text label : List Char) :
    (label? text = some label ↔ ∃! parts : DefinitionText,
      parts.WellFormed ∧ parts.text = text ∧ parts.label = label) ∧
      labelAt text = .ok (label? text) := by
  refine ⟨⟨fun found => ?_, fun ⟨parts, ⟨wellFormed, isText, isLabel⟩, _⟩ => ?_⟩, labelAt_eq text⟩
  · obtain ⟨parts, wellFormed, isText, isLabel⟩ := exists_parts found
    refine ⟨parts, ⟨wellFormed, isText, isLabel⟩, fun other ⟨otherWellFormed, otherText, _⟩ => ?_⟩
    exact otherWellFormed.eq_of_text_eq wellFormed (otherText.trans isText.symm)
  · rw [← isText, ← isLabel]
    exact wellFormed.label?_text

/-- Characters of several bytes stand in every part, and the cuts are at bytes. -/
example : labelAt "define\u2003Measure 'Größe''s' [€] = 1".toList =
    .ok (some "'Größe''s'[€]".toList) := by
  decide +kernel

end DaxScript.Outline
