import DaxScript.Text.LetterCase
import DaxScript.Text.Trim
import DaxScript.Token.Enclosure
import DaxScript.Token.Word

/-!
# Labels of measure statements

A statement that defines a measure is shown in the outline by the table and the measure that it
names.  The label is read off the text of the statement: `CREATE` or `DEFINE`, then `MEASURE`, a
table, and a name in brackets, with white space in between but no comments.  The table keeps its
spelling.
-/

set_option autoImplicit false

namespace DaxScript.Outline

/-- The text after a word, in any letter case, if the text begins with the whole word. -/
def stripWord? (word : String) (text : List Char) : Option (List Char) :=
  let head := text.take word.length
  let rest := text.drop word.length
  if sameIgnoringCase (String.ofList head) word ∧ ¬rest.head?.any isWordPart then some rest
  else none

/-- Cuts a table name off a text: a quoted name, or a run of characters of words. -/
def splitTable? (text : List Char) : Option (List Char × List Char) :=
  match text with
  | '\'' :: rest =>
    (Enclosure.quotedName.close? rest).map fun closed => ('\'' :: closed.spelling, closed.rest)
  | _ =>
    let name := text.takeWhile isWordPart
    if name.isEmpty then none else some (name, text.dropWhile isWordPart)

/-- The name in brackets at the start of a text, unless it is empty or not closed. -/
def bracketedName? (text : List Char) : Option (List Char) :=
  match text with
  | '[' :: rest =>
    let name := rest.takeWhile (· != ']')
    if name.isEmpty ∨ name.length = rest.length then none else some name
  | _ => none

/-- The label of a statement, if its text begins like the definition of a measure. -/
def label? (text : List Char) : Option (List Char) := do
  let afterFirst ← (stripWord? "CREATE" text).or (stripWord? "DEFINE" text)
  let afterSecond ← stripWord? "MEASURE" (trimStart afterFirst)
  let (table, rest) ← splitTable? (trimStart afterSecond)
  let name ← bracketedName? (trimStart rest)
  some (table ++ '[' :: (name ++ [']']))

end DaxScript.Outline
