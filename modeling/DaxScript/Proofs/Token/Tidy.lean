import DaxScript.Proofs.Token.Separation

/-!
# Pieces that are written one by one

Some pieces can be put in front of any text: white space, parentheses, braces and commas.  All
others need a separator behind them.  A list of pieces is tidy when, in front of a separator, it is
cut into these pieces again and nothing is wrong with any of them (`Piece.Tidy`); tidy lists may be
put one behind the other as long as the one behind begins with a separator (`Piece.Tidy.append`).

The pieces for names, texts and words are here too, made from what they are to say.
-/

set_option autoImplicit false

namespace DaxScript

/-! ## Enclosed texts -/

namespace Enclosure

/-- How a text is written between the opening and the closing character. -/
def write (enclosure : Enclosure) (content : List Char) : List Char :=
  if enclosure.doubles then Quoted.double enclosure.closer content else content

/-- Whether a text can be enclosed. -/
def CanHold (enclosure : Enclosure) (content : List Char) : Prop :=
  enclosure.doubles = true ∨ enclosure.closer ∉ content

theorem write_cons (enclosure : Enclosure) (char : Char) (content : List Char) :
    enclosure.write (char :: content) =
      if enclosure.doubles ∧ char = enclosure.closer then char :: char :: enclosure.write content
      else char :: enclosure.write content := by
  by_cases doubles : enclosure.doubles = true
  · by_cases same : char = enclosure.closer <;> simp [write, Quoted.double, doubles, same]
  · simp [write, doubles]

/-- **What is written is read again**, up to the closing character. -/
theorem close?_write {enclosure : Enclosure} {content rest : List Char}
    (possible : enclosure.CanHold content) (separated : Separated rest) :
    enclosure.close? (enclosure.write content ++ enclosure.closer :: rest) =
      some ⟨content, enclosure.write content ++ [enclosure.closer], rest⟩ := by
  induction content with
  | nil =>
    have nothing : enclosure.write [] = [] := by simp [write, Quoted.double]
    rw [nothing]
    refine close?_closer fun doubles => ?_
    cases enclosure with
    | bracketName => cases doubles
    | _ => exact separated.head?_beq _ (by decide)
  | cons char content ih =>
    have later : enclosure.CanHold content :=
      possible.imp_right fun noCloser isLater => noCloser (List.mem_cons_of_mem _ isLater)
    rw [write_cons]
    by_cases same : char = enclosure.closer
    · have doubles : enclosure.doubles = true :=
        possible.resolve_right fun noCloser => noCloser (same ▸ List.mem_cons_self ..)
      simp [doubles, same, close?, ih later, Closed.prepend]
    · simp [same, close?_cons same, ih later, Closed.prepend]

end Enclosure

namespace Piece

/-! ## Pieces for what is to be said -/

/-- A blank between two pieces. -/
def space : Piece := blank ' '

/-- An enclosed text. -/
def enclosed (enclosure : Enclosure) (content : String) : Piece :=
  token (enclosure.kind content)
    (enclosure.opener :: (enclosure.write content.toList ++ [enclosure.closer])) none

/-- A keyword as it is shown. -/
def ofKeyword (word : Keyword) : Piece :=
  token (.keyword word) word.name.toList none

theorem fits_enclosed {enclosure : Enclosure} {content : String} {rest : List Char}
    (possible : enclosure.CanHold content.toList) (separated : Separated rest) :
    (enclosed enclosure content).Fits rest := by
  refine ⟨enclosure.opener, enclosure.write content.toList ++ [enclosure.closer], rfl, ?_⟩
  rw [first_opener, List.append_assoc, List.singleton_append, firstEnclosed,
    Enclosure.close?_write possible separated]
  simp [enclosed]

end Piece

/-! ## Pieces that fit in front of anything -/

/-- Whether a sign is one token by itself, whatever stands behind it. -/
def Symbol.isLone : Symbol → Bool
  | leftParen | rightParen | leftBrace | rightBrace | comma => true
  | _ => false

namespace Piece

theorem fits_lone {sign : Symbol} (lone : sign.isLone = true) (rest : List Char) :
    (ofSymbol sign).Fits rest := by
  -- No second character makes a comment or another sign of it.
  have alone (char : Char) (written : sign.spelling.toList = [char])
      (begins : beginsSign char = true) (single : singleSymbol? char = some sign)
      (noOther : char ∉ ['-', '/', '.']) (noDouble : ∀ next, doubleSymbol? char next = none) :
      (ofSymbol sign).Fits rest := by
    simp only [List.mem_cons, List.not_mem_nil, or_false, not_or] at noOther
    obtain ⟨noHyphen, noSlash, noPoint⟩ := noOther
    refine fits_single begins written single (head?_opensComment_of_ne ⟨noHyphen, noSlash⟩ rest)
      (fun isPoint => absurd isPoint noPoint) ?_
    cases rest with
    | nil => rfl
    | cons next rest => exact noDouble next
  cases sign with
  | leftParen => exact alone '(' rfl (by decide) rfl (by decide) fun _ => rfl
  | rightParen => exact alone ')' rfl (by decide) rfl (by decide) fun _ => rfl
  | leftBrace => exact alone '{' rfl (by decide) rfl (by decide) fun _ => rfl
  | rightBrace => exact alone '}' rfl (by decide) rfl (by decide) fun _ => rfl
  | comma => exact alone ',' rfl (by decide) rfl (by decide) fun _ => rfl
  | _ => cases lone

/-! ## Tidy pieces -/

/-- Pieces without faults that are cut again in front of a separator. -/
structure Tidy (pieces : List Piece) : Prop where
  sound : ∀ piece ∈ pieces, piece.fault? = none
  fitting : ∀ {rest : List Char}, Separated rest → FitTogether rest pieces

theorem separated_append {first second : List Char} (inFront : Separated first)
    (behind : Separated second) : Separated (first ++ second) := by
  cases first with
  | nil => exact behind
  | cons char first => exact inFront

theorem Tidy.nil : Tidy [] where
  sound _ member := absurd member List.not_mem_nil
  fitting _ := trivial

/-- Tidy pieces fit together by themselves. -/
theorem Tidy.together {pieces : List Piece} (tidy : Tidy pieces) : FitTogether [] pieces :=
  tidy.fitting fun _ isFirst => by cases isFirst

/-- A piece that fits in front of separators. -/
theorem Tidy.single {piece : Piece} (sound : piece.fault? = none)
    (fits : ∀ {rest : List Char}, Separated rest → piece.Fits rest) : Tidy [piece] where
  sound := List.forall_mem_singleton.mpr sound
  fitting separated := ⟨fits separated, trivial⟩

/-- A piece that fits in front of anything. -/
theorem Tidy.lone {piece : Piece} {pieces : List Piece} (sound : piece.fault? = none)
    (fits : ∀ rest : List Char, piece.Fits rest) (others : Tidy pieces) :
    Tidy (piece :: pieces) where
  sound := List.forall_mem_cons.mpr ⟨sound, others.sound⟩
  fitting separated := ⟨fits _, others.fitting separated⟩

/-- **Tidy pieces may be followed by tidy pieces that begin with a separator.** -/
theorem Tidy.append {first second : List Piece} (inFront : Tidy first) (behind : Tidy second)
    (apart : Separated (text second)) : Tidy (first ++ second) where
  sound := List.forall_mem_append.mpr ⟨inFront.sound, behind.sound⟩
  fitting separated :=
    .append (inFront.fitting (separated_append apart separated)) (behind.fitting separated)

/-! ## Tidy pieces for what is to be said -/

theorem tidy_ofSymbol (sign : Symbol) : Tidy [ofSymbol sign] :=
  .single rfl (fits_symbol sign)

theorem tidy_ofKeyword (word : Keyword) : Tidy [ofKeyword word] :=
  .single rfl (fits_keyword (by simp [sameIgnoringCase]))

theorem tidy_enclosed {enclosure : Enclosure} {content : String}
    (possible : enclosure.CanHold content.toList) : Tidy [enclosed enclosure content] :=
  .single rfl (fits_enclosed possible)

theorem tidy_number {spelling : List Char} {value : Binary64}
    (known : Numeral.value? spelling = some value) :
    Tidy [token (.number value) spelling none] :=
  .single rfl (fits_numeral known)

/-- Whether characters are a word: a name or a keyword. -/
def isWord : List Char → Bool
  | [] => false
  | char :: chars => isWordStart char && chars.all isWordPart

theorem tidy_ofWord {chars : List Char} (word : isWord chars = true) : Tidy [ofWord chars] := by
  cases chars with
  | nil => cases word
  | cons char chars =>
    obtain ⟨starts, goesOn⟩ := Bool.and_eq_true_iff.mp word
    refine .single ?_ (fits_word starts (List.all_eq_true.mp goesOn))
    simp only [ofWord]
    split <;> rfl

theorem Tidy.behindSpace {pieces : List Piece} (tidy : Tidy pieces) : Tidy (space :: pieces) :=
  .lone rfl (fits_blank (by decide)) tidy

/-! ## Enclosing and listing -/

/-- Pieces in parentheses. -/
def parenthesized (pieces : List Piece) : List Piece :=
  ofSymbol .leftParen :: (pieces ++ [ofSymbol .rightParen])

/-- Pieces in braces. -/
def braced (pieces : List Piece) : List Piece :=
  ofSymbol .leftBrace :: (pieces ++ [ofSymbol .rightBrace])

/-- A comma, a blank and an item. -/
def behindComma (item : List Piece) : List Piece :=
  ofSymbol .comma :: space :: item

/-- Items with commas between them. -/
def listed : List (List Piece) → List Piece
  | [] => []
  | first :: others => first ++ others.flatMap behindComma

/-- Text that begins with a separator is separated. -/
theorem separated_cons {char : Char} (isSeparator : separates char = true) (chars : List Char) :
    Separated (char :: chars) := by
  intro first isFirst
  obtain rfl := Option.mem_some_iff.mp isFirst
  exact isSeparator

theorem separated_parenthesized (pieces : List Piece) : Separated (text (parenthesized pieces)) :=
  separated_cons (by decide) _

theorem separated_space (pieces : List Piece) : Separated (text (space :: pieces)) :=
  separated_cons (by decide) _

theorem separated_flatMap_behindComma (items : List (List Piece)) :
    Separated (text (items.flatMap behindComma)) := by
  cases items with
  | nil => exact fun _ none => by cases none
  | cons => exact separated_cons (by decide) _

theorem Tidy.parenthesized {pieces : List Piece} (tidy : Tidy pieces) :
    Tidy (parenthesized pieces) :=
  .lone rfl (fits_lone rfl) (.append tidy (tidy_ofSymbol _) (separated_cons (by decide) _))

theorem Tidy.braced {pieces : List Piece} (tidy : Tidy pieces) : Tidy (braced pieces) :=
  .lone rfl (fits_lone rfl) (.append tidy (tidy_ofSymbol _) (separated_cons (by decide) _))

theorem Tidy.behindComma {item : List Piece} (tidy : Tidy item) : Tidy (behindComma item) :=
  .lone rfl (fits_lone rfl) tidy.behindSpace

theorem Tidy.listed {items : List (List Piece)} (each : ∀ item ∈ items, Tidy item) :
    Tidy (listed items) := by
  have others {items : List (List Piece)} (each : ∀ item ∈ items, Tidy item) :
      Tidy (items.flatMap Piece.behindComma) := by
    induction items with
    | nil => exact .nil
    | cons item items ih =>
      rw [List.forall_mem_cons] at each
      exact .append each.1.behindComma (ih each.2) (separated_flatMap_behindComma items)
  cases items with
  | nil => exact .nil
  | cons item items =>
    rw [List.forall_mem_cons] at each
    exact .append each.1 (others each.2) (separated_flatMap_behindComma items)

/-- Items with a blank behind each, and further pieces behind them. -/
theorem Tidy.flatMap_space {α : Type} {write : α → List Piece} {items : List α}
    {behind : List Piece} (each : ∀ item ∈ items, Tidy (write item)) (others : Tidy behind) :
    Tidy (items.flatMap (fun item => write item ++ [space]) ++ behind) := by
  induction items with
  | nil => exact others
  | cons item items ih =>
    rw [List.forall_mem_cons] at each
    rw [List.flatMap_cons, List.append_assoc, List.append_assoc]
    exact .append each.1 (ih each.2).behindSpace (separated_space _)

end Piece

end DaxScript
