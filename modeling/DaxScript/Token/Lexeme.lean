import DaxScript.Diagnostic
import DaxScript.Token.Piece

/-!
# Tokens in their places

The pieces of a source follow each other without gaps, so the place of each is the place after
all before it.  What is wrong with the source is told when the next token is read: a lexeme is a
token together with the diagnostics about the text since the token before it.

The last lexeme is the end of the input, with what is wrong after the last token.
-/

set_option autoImplicit false

namespace DaxScript

/-- What is wrong with a piece, if anything, when it starts at a position. -/
def Piece.diagnostics (piece : Piece) (position : Position) : List Diagnostic :=
  (piece.fault?.map fun fault => Diagnostic.error .lexical fault.message position).toList

/-- The token of a piece that starts at a position. -/
def Piece.token? (piece : Piece) (position : Position) : Option Token :=
  match piece with
  | token kind spelling _ => some (Token.place kind position spelling)
  | _ => none

/-- A token and what is wrong with the text from the token before it to its own end. -/
structure Lexeme where
  faults : List Diagnostic
  token : Token
  deriving DecidableEq

namespace Lexeme

/-- Puts diagnostics in front of those of the first lexeme. -/
def addFaults (faults : List Diagnostic) : List Lexeme → List Lexeme
  | [] => []
  | lexeme :: lexemes => ⟨faults ++ lexeme.faults, lexeme.token⟩ :: lexemes

/-- The lexemes of a sequence of pieces that starts at a position.  What is wrong with a piece
that is no token belongs to the next token. -/
def ofPieces (position : Position) : List Piece → List Lexeme
  | [] => [⟨[], Token.atEnd position⟩]
  | piece :: pieces =>
    let faults := piece.diagnostics position
    let later := ofPieces (position.advanceAll piece.spelling) pieces
    match piece.token? position with
    | some token => ⟨faults, token⟩ :: later
    | none => addFaults faults later

/-- The lexemes of a source. -/
def ofSource (source : String) : List Lexeme :=
  ofPieces .start (Piece.all source.toList)

/-- The lexemes that the grammar reads.  Comments are left out, and what is wrong around them is
told with the next token. -/
def significant : List Lexeme → List Lexeme
  | [] => []
  | lexeme :: lexemes =>
    if lexeme.token.kind.isTrivia then addFaults lexeme.faults (significant lexemes)
    else lexeme :: significant lexemes

end Lexeme

/-- The tokens of a source, comments included.  The last one is the end of the input. -/
def tokenize (source : String) : List Token :=
  (Lexeme.ofSource source).map (·.token)

/-! ## Reading one token at a time -/

/-- A reader in the middle of a source: the lexemes to come and the diagnostics that nobody has
taken yet. -/
structure TokenReader where
  lexemes : List Lexeme
  faults : List Diagnostic
  deriving DecidableEq

namespace TokenReader

/-- A reader at the start of a source. -/
def ofSource (source : String) : TokenReader :=
  ⟨Lexeme.ofSource source, []⟩

/-- Reads the next token; after the end of the input there is none. -/
def next (reader : TokenReader) : Option Token × TokenReader :=
  match reader.lexemes with
  | [] => (none, reader)
  | lexeme :: lexemes => (some lexeme.token, ⟨lexemes, reader.faults ++ lexeme.faults⟩)

/-- Takes the diagnostics of all tokens read since they were last taken. -/
def takeFaults (reader : TokenReader) : List Diagnostic × TokenReader :=
  (reader.faults, { reader with faults := [] })

end TokenReader

end DaxScript
