import DaxScript.Token

/-!
# Enclosed texts

A text literal, a quoted name and a bracketed name stand between an opening and a closing
character.  Between quotes the closing character is written twice; between brackets it cannot be
written.  Line breaks are characters like any other, so an enclosed text may span lines.
-/

set_option autoImplicit false

namespace DaxScript

/-- The ways of enclosing a text. -/
inductive Enclosure where
  /-- `"text"` -/
  | text
  /-- `'Table Name'` -/
  | quotedName
  /-- `[Name]` -/
  | bracketName
  deriving DecidableEq

namespace Enclosure

/-- The character that opens the text. -/
def opener : Enclosure → Char
  | text => '"'
  | quotedName => '\''
  | bracketName => '['

/-- The character that closes the text. -/
def closer : Enclosure → Char
  | text => '"'
  | quotedName => '\''
  | bracketName => ']'

/-- Whether the closing character may stand in the text, written twice. -/
def doubles : Enclosure → Bool
  | bracketName => false
  | _ => true

/-- What messages call the enclosed text. -/
def noun : Enclosure → String
  | text => "string literal"
  | quotedName => "quoted identifier"
  | bracketName => "bracketed reference"

/-- The token that an enclosed text makes. -/
def kind (enclosure : Enclosure) (content : String) : TokenKind :=
  match enclosure with
  | text => .text content
  | quotedName => .quotedName content
  | bracketName => .bracketName content

/-- The enclosure that a character opens. -/
def ofOpener? (char : Char) : Option Enclosure :=
  if char = '"' then some text
  else if char = '\'' then some quotedName
  else if char = '[' then some bracketName
  else none

/-- What follows an opening character, when it is closed: the content as it is read, the
spelling with the closing character, and the rest of the input. -/
structure Closed where
  content : List Char
  spelling : List Char
  rest : List Char
  deriving DecidableEq

/-- The same with more in front. -/
def Closed.prepend (content spelling : List Char) (closed : Closed) : Closed :=
  ⟨content ++ closed.content, spelling ++ closed.spelling, closed.rest⟩

/-- Reads up to the closing character; `none` when the input ends before it. -/
def close? (enclosure : Enclosure) : List Char → Option Closed
  | [] => none
  | [char] => if char = enclosure.closer then some ⟨[], [char], []⟩ else none
  | char :: next :: later =>
    if char = enclosure.closer then
      if enclosure.doubles && next == enclosure.closer then
        (enclosure.close? later).map (Closed.prepend [char] [char, next])
      else some ⟨[], [char], next :: later⟩
    else (enclosure.close? (next :: later)).map (Closed.prepend [char] [char])

/-- Nothing is lost: the spelling and the rest make up the input. -/
theorem spelling_append_rest {enclosure : Enclosure} {chars : List Char} {closed : Closed}
    (found : enclosure.close? chars = some closed) : closed.spelling ++ closed.rest = chars := by
  fun_induction close? enclosure chars generalizing closed with
  | case1 => simp at found
  | case2 => simp at found; simp [← found]
  | case3 => simp at found
  | case4 next later doubled ih =>
    obtain ⟨inner, innerFound, rfl⟩ := Option.map_eq_some_iff.mp found
    simp [Closed.prepend, ih innerFound]
  | case5 => simp at found; simp [← found]
  | case6 char next later notCloser ih =>
    obtain ⟨inner, innerFound, rfl⟩ := Option.map_eq_some_iff.mp found
    simp [Closed.prepend, ih innerFound]

end Enclosure

end DaxScript
