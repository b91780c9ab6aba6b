import DaxScript.Keyword
import DaxScript.Number.ShortestDecimal
import DaxScript.Text.Quoted
import DaxScript.Text.Span

/-!
# Tokens

A token is a piece of the source with a meaning of its own: a name, a literal, a keyword, a symbol
or a comment.  It carries what it stands for, where it is and how it was written.  One further
token stands at the end of the input and covers nothing.
-/

set_option autoImplicit false

namespace DaxScript

/-- The punctuation and operator signs. -/
inductive Symbol where
  | leftParen | rightParen | leftBrace | rightBrace
  | comma | semicolon | dot
  | plus | minus | star | slash | ampersand
  | equal | notEqual | less | greater | lessEqual | greaterEqual
  | doubleAmpersand | doubleBar
  deriving DecidableEq

/-- How a sign is written. -/
def Symbol.spelling : Symbol → String
  | leftParen => "("
  | rightParen => ")"
  | leftBrace => "\x7b" -- `{`
  | rightBrace => "\x7d" -- `}`
  | comma => ","
  | semicolon => ";"
  | dot => "."
  | plus => "+"
  | minus => "-"
  | star => "*"
  | slash => "/"
  | ampersand => "&"
  | equal => "="
  | notEqual => "<>"
  | less => "<"
  | greater => ">"
  | lessEqual => "<="
  | greaterEqual => ">="
  | doubleAmpersand => "&&"
  | doubleBar => "||"

/-- What a token stands for.  Names and texts are held without their quotes and brackets. -/
inductive TokenKind where
  | identifier (name : String)
  /-- `'Table Name'`, the doubled quotes read as single ones. -/
  | quotedName (name : String)
  /-- `[Name]`. -/
  | bracketName (name : String)
  /-- `"text"`, the doubled quotes read as single ones. -/
  | text (content : String)
  | number (value : Binary64)
  | keyword (word : Keyword)
  /-- `-- text` or `// text` up to the end of the line. -/
  | comment (content : String)
  | symbol (sign : Symbol)
  | endOfInput
  deriving DecidableEq

namespace TokenKind

/-- Whether a token says nothing to the grammar. -/
def isTrivia : TokenKind → Bool
  | comment _ => true
  | _ => false

/-- How a token is shown in messages.  A quoted name and a text are shown with their quotes
doubled again, as they are written. -/
def describe : TokenKind → String
  | identifier name => "identifier '" ++ name ++ "'"
  | quotedName name => "table name '" ++ String.ofList (Quoted.double '\'' name.toList) ++ "'"
  | bracketName name => "reference [" ++ name ++ "]"
  | text content => "string \"" ++ String.ofList (Quoted.double '"' content.toList) ++ "\""
  | number value => "number " ++ value.render
  | keyword word => "keyword " ++ word.name
  | comment _ => "comment"
  | symbol sign => "'" ++ sign.spelling ++ "'"
  | endOfInput => "end of input"

end TokenKind

/-- A token with its place in the source. -/
structure Token where
  kind : TokenKind
  /-- The bytes that the token covers. -/
  span : Span
  /-- Where the token starts. -/
  position : Position
  /-- How the token is written. -/
  spelling : String
  deriving DecidableEq

namespace Token

/-- A token written with the given characters from a position on. -/
def place (kind : TokenKind) (position : Position) (spelling : List Char) : Token where
  kind := kind
  span := ⟨position.offset, position.offset + byteLength spelling⟩
  position := position
  spelling := String.ofList spelling

/-- The token after everything else. -/
def atEnd (position : Position) : Token :=
  place .endOfInput position []

end Token

end DaxScript
