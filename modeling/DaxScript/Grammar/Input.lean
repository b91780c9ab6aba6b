import DaxScript.Token.Lexeme

/-!
# What the grammar reads of a source

The grammar reads the tokens that are no comments.  The diagnostics about the text in front of a
token and about the token itself are told once the token has been looked at, so they are kept in
groups, one for each token and one for the end of the input.
-/

set_option autoImplicit false

namespace DaxScript

/-- Whether a token means something to the grammar. -/
def TokenKind.isSignificant : TokenKind → Bool
  | comment _ => false
  | endOfInput => false
  | _ => true

/-- A source as the grammar reads it. -/
structure Input where
  /-- The tokens, without comments and without the end. -/
  tokens : List Token
  /-- What is wrong with the text up to each token, and up to the end. -/
  faults : List (List Diagnostic)
  /-- The position of the end. -/
  finish : Position
  deriving DecidableEq

namespace Input

/-- The input that a source makes. -/
def ofSource (source : String) : Input where
  tokens := (tokenize source).filter (·.kind.isSignificant)
  faults := (Lexeme.significant (Lexeme.ofSource source)).map (·.faults)
  finish := Position.start.advanceAll source.toList

/-- The diagnostics told by the time that all but the given number of tokens, the end counted as
one, have been looked at. -/
def faultsBefore (input : Input) (unseen : Nat) : List Diagnostic :=
  (input.faults.take (input.faults.length - unseen)).flatten

end Input

end DaxScript
