import DaxScript.Measure
import DaxScript.Proofs.Outline.Headers
import DaxScript.Proofs.Text.Span

/-!
# Labels read with cuts at bytes

A label can be read by looking for the byte at which each of its parts ends, and cutting the text
there.  Such a cut may go wrong: there is none past the end of a text or inside a character
(`cutAt`).  Whatever characters a text is made of, none of the cuts goes wrong, and the label is the
one that is read by characters (`labelAt_eq`).

A word is cut off after as many bytes as it has, and only if these are the same letters.  A table
and a name in brackets are cut off at a byte that is counted from their beginning.
-/

set_option autoImplicit false

namespace DaxScript.Outline

/-! ## Cuts -/

/-- A cut that cannot be made after a number of bytes. -/
structure BadCut where
  bytes : Nat
  deriving DecidableEq

/-- Cuts a text after a number of bytes. -/
def cutAt (bytes : Nat) (text : List Char) : Except BadCut (List Char × List Char) :=
  match splitAtByte? bytes text with
  | some parts => .ok parts
  | none => .error ⟨bytes⟩

/-- **A cut behind a part of a text does not go wrong.** -/
theorem cutAt_append (front behind : List Char) :
    cutAt (byteLength front) (front ++ behind) = .ok (front, behind) := by
  rw [cutAt, splitAtByte?_append]

/-! ## Counting bytes -/

/-- Where the characters that belong to a run end, if another character follows them. -/
def runEnd? (belongs : Char → Bool) : List Char → Option Nat
  | [] => none
  | char :: chars =>
    if belongs char then (runEnd? belongs chars).map (char.utf8Size + ·) else some 0

/-- **Counting up to the end of a run is reading up to it.** -/
theorem runEnd?_eq (belongs : Char → Bool) (chars : List Char) :
    runEnd? belongs chars =
      if chars.dropWhile belongs = [] then none
      else some (byteLength (chars.takeWhile belongs)) := by
  induction chars with
  | nil => rfl
  | cons char chars ih =>
    cases inside : belongs char with
    | true =>
      rw [runEnd?, if_pos inside, ih, List.dropWhile_cons_of_pos inside,
        List.takeWhile_cons_of_pos inside]
      split
      · rfl
      · rw [Option.map_some, byteLength_cons]
    | false => simp [runEnd?, inside]

/-- The number of bytes up to the first quote that is not written twice, that quote included. -/
def bytesToQuote? : List Char → Option Nat
  | [] => none
  | [char] => if char = '\'' then some 1 else none
  | char :: next :: later =>
    if char = '\'' then
      if next = '\'' then (bytesToQuote? later).map (2 + ·) else some 1
    else (bytesToQuote? (next :: later)).map (char.utf8Size + ·)

/-- **Counting up to the closing quote is reading up to it.** -/
theorem bytesToQuote?_eq (chars : List Char) :
    bytesToQuote? chars =
      (Enclosure.quotedName.close? chars).map fun closed => byteLength closed.spelling := by
  fun_induction bytesToQuote? chars with
  | case1 => rfl
  | case2 => rfl
  | case3 char other => simp [Enclosure.close?, Enclosure.closer, other]
  | case4 later ih =>
    have read : Enclosure.quotedName.close? ('\'' :: '\'' :: later) =
        (Enclosure.quotedName.close? later).map (.prepend ['\''] ['\'', '\'']) := by
      rw [Enclosure.close?]
      rfl
    rw [ih, read, Option.map_map, Option.map_map]
    congr 1
    funext closed
    exact (byteLength_append ['\'', '\''] closed.spelling).symm
  | case5 next later single =>
    have read : Enclosure.quotedName.close? ('\'' :: next :: later) = _ :=
      @Enclosure.close?_closer .quotedName (next :: later) fun _ =>
        beq_eq_false_iff_ne.mpr single
    rw [read]
    rfl
  | case6 char next later other ih =>
    rw [@Enclosure.close?_cons .quotedName _ other, ih, Option.map_map, Option.map_map]
    rfl

/-! ## Parts of a label -/

/-- The text behind a word, if it begins with the whole word. -/
def stripWordAt (word : String) (text : List Char) : Except BadCut (Option (List Char)) :=
  match splitAtByte? (byteLength word.toList) text with
  | none => .ok none
  | some (head, _) =>
    if sameIgnoringCase (String.ofList head) word then do
      let (_, rest) ← cutAt (byteLength word.toList) text
      .ok (if rest.head?.any isWordPart then none else some rest)
    else .ok none

/-- Where a table ends at the start of a text. -/
def tableEnd? (text : List Char) : Option Nat :=
  match text with
  | '\'' :: chars => (bytesToQuote? chars).map (1 + ·)
  | _ => some ((runEnd? isWordPart text).getD (byteLength text))

/-- A table, unless it is empty, and the text behind it. -/
def splitTableAt (text : List Char) : Except BadCut (Option (List Char × List Char)) :=
  match tableEnd? text with
  | none => .ok none
  | some bytes => if bytes = 0 then .ok none else (cutAt bytes text).map some

/-- A name in brackets, unless it is empty. -/
def bracketedNameAt (text : List Char) : Except BadCut (Option (List Char)) :=
  match text with
  | '[' :: _ =>
    match runEnd? (· != ']') text with
    | none => .ok none
    | some closer => do
      let (bracketed, _) ← cutAt (closer + 1) text
      let name := Measure.stripBrackets bracketed
      .ok (if name.isEmpty then none else some name)
  | _ => .ok none

/-- The label of a statement, read with cuts at bytes. -/
def labelAt (text : List Char) : Except BadCut (Option (List Char)) :=
  OptionT.run do
    let behindOpening ← OptionT.mk (stripWordAt "CREATE" text) <|>
      OptionT.mk (stripWordAt "DEFINE" text)
    let behindNoun ← OptionT.mk (stripWordAt "MEASURE" (trimStart behindOpening))
    let (table, behindTable) ← OptionT.mk (splitTableAt (trimStart behindNoun))
    let name ← OptionT.mk (bracketedNameAt (trimStart behindTable))
    return table ++ '[' :: (name ++ [']'])

/-! ## No cut goes wrong -/

/-- A letter is a single byte. -/
theorem utf8Size_of_toUpper {char : Char} (letter : char.toUpper.isUpper = true) :
    char.utf8Size = 1 := by
  have range : char.toNat ≤ 127 := by
    rcases toUpper_eq_or char with same | small
    · rw [same] at letter
      have upper := isUpper_iff_toNat.mp letter
      omega
    · omega
  exact Char.utf8Size_eq_one_iff.mpr (UInt32.le_iff_toNat_le.mpr range)

/-- A text of letters has as many bytes as letters. -/
theorem byteLength_of_letters {chars : List Char}
    (letters : ∀ char ∈ chars, char.toUpper.isUpper = true) :
    byteLength chars = chars.length := by
  induction chars with
  | nil => rfl
  | cons char chars ih =>
    rw [List.forall_mem_cons] at letters
    rw [byteLength_cons, utf8Size_of_toUpper letters.1, ih letters.2, List.length_cons, Nat.add_comm]

/-- A keyword has the same number of bytes in any letter case. -/
theorem byteLength_of_same {keyword : Keyword} {spelling : List Char}
    (same : sameIgnoringCase keyword.name (String.ofList spelling) = true) :
    byteLength spelling = byteLength keyword.name.toList := by
  have size := congrArg List.length (sameIgnoringCase_iff.mp same)
  rw [List.length_map, List.length_map, String.toList_ofList] at size
  rw [byteLength_of_letters (isUpper_toUpper_of_same keyword.name_letters same),
    byteLength_of_letters (List.all_eq_true.mp keyword.name_letters), size]

/-- A text is looked at up to as many bytes as the keyword has. -/
theorem stripWord?_append {keyword : Keyword} {head behind : List Char}
    (bytes : byteLength head = byteLength keyword.name.toList) :
    stripWord? keyword.name (head ++ behind) =
      if sameIgnoringCase (String.ofList head) keyword.name = true ∧
          behind.head?.any isWordPart = false then some behind
      else none := by
  rw [sameIgnoringCase_comm]
  split
  · next isWord => exact stripWord?_eq_some_iff.mpr ⟨head, rfl, isWord⟩
  · next noWord =>
    refine Option.eq_none_iff_forall_ne_some.mpr fun other found => noWord ?_
    obtain ⟨spelling, split, isWord⟩ := stripWord?_eq_some_iff.mp found
    obtain ⟨rfl, rfl⟩ :=
      append_inj_of_byteLength split (bytes.trans (byteLength_of_same isWord.1).symm)
    exact isWord

/-- **The cut behind a word does not go wrong.** -/
theorem stripWordAt_eq (keyword : Keyword) (text : List Char) :
    stripWordAt keyword.name text = .ok (stripWord? keyword.name text) := by
  rw [stripWordAt]
  cases cut : splitAtByte? (byteLength keyword.name.toList) text with
  | none =>
    -- A text that begins with the word can be cut behind it.
    have noWord : stripWord? keyword.name text = none := by
      refine Option.eq_none_iff_forall_ne_some.mpr fun other found => ?_
      obtain ⟨spelling, rfl, isWord⟩ := stripWord?_eq_some_iff.mp found
      rw [← byteLength_of_same isWord.1, splitAtByte?_append] at cut
      cases cut
    rw [noWord]
  | some parts =>
    obtain ⟨head, behind⟩ := parts
    obtain ⟨rfl, bytes⟩ := eq_append_of_splitAtByte? cut
    rw [stripWord?_append bytes, ← bytes, cutAt_append]
    dsimp only [Except.bind, bind]
    by_cases same : sameIgnoringCase (String.ofList head) keyword.name = true
    · rw [if_pos same]
      cases behind.head?.any isWordPart <;> simp [same]
    · rw [if_neg same, if_neg fun both => same both.1]

/-- A run of characters of words is counted to its end. -/
theorem tableEnd?_run {text : List Char} (noQuote : ∀ chars, text ≠ '\'' :: chars) :
    tableEnd? text = some (byteLength (text.takeWhile isWordPart)) := by
  rw [tableEnd?, runEnd?_eq]
  · split
    · next toEnd =>
      have cut : text.takeWhile isWordPart ++ text.dropWhile isWordPart = text :=
        List.takeWhile_append_dropWhile
      rw [toEnd, List.append_nil] at cut
      rw [cut]
      rfl
    · rfl
  · exact noQuote

/-- **The cut behind a table does not go wrong.** -/
theorem splitTableAt_eq (text : List Char) : splitTableAt text = .ok (splitTable? text) := by
  unfold splitTable?
  split
  · next chars =>
    rw [splitTableAt, tableEnd?, bytesToQuote?_eq]
    cases found : Enclosure.quotedName.close? chars with
    | none => rfl
    | some closed =>
      have cut := cutAt_append ('\'' :: closed.spelling) closed.rest
      rw [List.cons_append, Enclosure.spelling_append_rest found, byteLength_cons] at cut
      have quote : '\''.utf8Size = 1 := rfl
      rw [quote] at cut
      simp [cut]
      rfl
  · next noQuote =>
    rw [splitTableAt, tableEnd?_run noQuote]
    have cut := cutAt_append (text.takeWhile isWordPart) (text.dropWhile isWordPart)
    rw [List.takeWhile_append_dropWhile] at cut
    cases run : text.takeWhile isWordPart with
    | nil => rfl
    | cons char chars =>
      rw [run] at cut
      have nonempty := byteLength_pos (List.cons_ne_nil char chars)
      simp only [cut, Nat.ne_of_gt nonempty, if_false]
      rfl

/-- What stands behind a run without closing brackets begins with one. -/
theorem dropWhile_closer (chars : List Char) :
    chars.dropWhile (· != ']') = [] ∨ ∃ rest, chars.dropWhile (· != ']') = ']' :: rest := by
  have stops := head?_dropWhile_any (· != ']') chars
  cases behind : chars.dropWhile (· != ']') with
  | nil => exact .inl rfl
  | cons char rest =>
    rw [behind] at stops
    obtain rfl : char = ']' := by simpa using stops
    exact .inr ⟨rest, rfl⟩

/-- **The cut behind a name in brackets does not go wrong.** -/
theorem bracketedNameAt_eq (text : List Char) :
    bracketedNameAt text = .ok (bracketedName? text) := by
  unfold bracketedNameAt
  split
  · next chars =>
    rw [runEnd?_eq, List.dropWhile_cons_of_pos (by decide), List.takeWhile_cons_of_pos (by decide),
      bracketedName?]
    dsimp only
    have whole : chars.takeWhile (· != ']') ++ chars.dropWhile (· != ']') = chars :=
      List.takeWhile_append_dropWhile
    generalize chars.takeWhile (· != ']') = name at whole ⊢
    rcases dropWhile_closer chars with nothing | ⟨rest, closed⟩
    · rw [nothing, List.append_nil] at whole
      rw [nothing, whole, if_pos rfl, if_pos (.inr rfl)]
    · have size : byteLength ('[' :: name) + 1 = byteLength ('[' :: (name ++ [']'])) := by
        rw [byteLength_cons, byteLength_cons, byteLength_append, Nat.add_assoc]
        rfl
      have cut := cutAt_append ('[' :: (name ++ [']'])) rest
      have split : '[' :: (name ++ [']']) ++ rest = '[' :: chars := by
        rw [← whole, closed]
        simp
      rw [← size, split] at cut
      have stripped : Measure.stripBrackets ('[' :: (name ++ [']'])) = name := by
        simp [Measure.stripBrackets]
      have longer : name.length ≠ chars.length := by
        rw [← whole, closed]
        simp
      rw [closed, if_neg (List.cons_ne_nil _ _)]
      dsimp only
      rw [cut]
      dsimp only [Except.bind, bind]
      simp only [stripped, longer, or_false]
  · next noBracket =>
    rw [bracketedName?]
    exact noBracket

/-- What is looked for without a bad cut. -/
def looked {α : Type} (found : Option α) : OptionT (Except BadCut) α :=
  OptionT.mk (.ok found)

theorem looked_orElse {α : Type} (first second : Option α) :
    (looked first <|> looked second) = looked (first.or second) := by
  cases first <;> rfl

theorem looked_bind {α β : Type} (found : Option α) (next : α → Option β) :
    (looked found >>= fun part => looked (next part)) = looked (found.bind next) := by
  cases found <;> rfl

/-- **No cut goes wrong**, whatever the text is, and the label is the one that is read by
characters. -/
theorem labelAt_eq (text : List Char) : labelAt text = .ok (label? text) := by
  have word (keyword : Keyword) (behind : List Char) :
      OptionT.mk (stripWordAt keyword.name behind) = looked (stripWord? keyword.name behind) :=
    congrArg OptionT.mk (stripWordAt_eq keyword behind)
  have table (behind : List Char) : OptionT.mk (splitTableAt behind) = looked (splitTable? behind) :=
    congrArg OptionT.mk (splitTableAt_eq behind)
  have name (behind : List Char) :
      OptionT.mk (bracketedNameAt behind) = looked (bracketedName? behind) :=
    congrArg OptionT.mk (bracketedNameAt_eq behind)
  have done (label : List Char) :
      (pure label : OptionT (Except BadCut) (List Char)) = looked (some label) := rfl
  have create : OptionT.mk (stripWordAt "CREATE" text) = _ := word .create text
  have define : OptionT.mk (stripWordAt "DEFINE" text) = _ := word .define text
  have measure (behind : List Char) : OptionT.mk (stripWordAt "MEASURE" behind) = _ :=
    word .measure behind
  simp only [labelAt, create, define, measure, table, name, done, looked_orElse, looked_bind]
  rfl

end DaxScript.Outline
