import DaxScript.Outline.Label
import DaxScript.Outline.Segment
import DaxScript.Text.Span

/-!
# The outline of a script

The outline lists the statements of a script by their places, so that an editor can fold them.  It
is read off the segments of the source and builds no tree, so it is there for half-typed scripts
as well.

A statement begins with one of four words.  It ends behind a semicolon or in front of the next of
these words, outside of parentheses and braces.  A block of definitions and its query are one
statement.
-/

set_option autoImplicit false

namespace DaxScript

/-- The place of a statement in a source. -/
structure StatementSpan where
  start : Nat
  /-- Behind the semicolon when there is one. -/
  stop : Nat
  /-- What a measure statement is called when it is folded. -/
  label : Option String
  /-- The text of a measure statement, without the semicolon. -/
  hint : Option String
  deriving DecidableEq

namespace Outline

/-- The words that begin a statement. -/
inductive OpeningWord where
  | create
  | define
  | evaluate
  | alter
  deriving DecidableEq

namespace OpeningWord

def name : OpeningWord → String
  | create => "CREATE"
  | define => "DEFINE"
  | evaluate => "EVALUATE"
  | alter => "ALTER"

def all : List OpeningWord :=
  [create, define, evaluate, alter]

/-- The opening word that a word is, in any letter case. -/
def ofWord? (word : String) : Option OpeningWord :=
  all.find? fun known => sameIgnoringCase known.name word

end OpeningWord

/-- A statement whose end has not been found yet. -/
structure Draft where
  start : Nat
  /-- The end of the last segment that is neither blank nor a comment. -/
  stop : Nat
  /-- The first word, if it can begin a statement. -/
  opening : Option OpeningWord
  /-- Whether the word `EVALUATE` has followed the first word. -/
  hasQuery : Bool
  parentheses : Nat
  braces : Nat
  deriving DecidableEq

namespace Draft

/-- A statement that begins with a segment. -/
def begin (start stop : Nat) (opening : Option OpeningWord) : Draft :=
  ⟨start, stop, opening, false, 0, 0⟩

/-- Whether all parentheses and braces have been closed. -/
def isTopLevel (draft : Draft) : Bool :=
  draft.parentheses == 0 && draft.braces == 0

/-- Whether a word ends the statement and begins the next one.  The first query behind a block of
definitions belongs to the block. -/
def splitsBefore (draft : Draft) (word : OpeningWord) : Bool :=
  draft.isTopLevel &&
    match word with
    | .evaluate => draft.opening != some .define || draft.hasQuery
    | _ => true

/-- The statement with one more word. -/
def addWord (draft : Draft) (stop : Nat) (word? : Option OpeningWord) : Draft :=
  { draft with stop := stop, hasQuery := draft.hasQuery || word? == some .evaluate }

/-- The statement with one more sign.  Closing signs that nobody opened are ignored. -/
def addSign (draft : Draft) (stop : Nat) (char : Char) : Draft :=
  let draft := { draft with stop := stop }
  match char with
  | '(' => { draft with parentheses := draft.parentheses + 1 }
  | ')' => { draft with parentheses := draft.parentheses - 1 }
  | '{' => { draft with braces := draft.braces + 1 }
  | '}' => { draft with braces := draft.braces - 1 }
  | _ => draft

/-- The outline entry of a finished statement, if its first word can begin one.  The semicolon, if
there is one, ends at `terminator`. -/
def finish (source : List Char) (terminator : Option Nat) (draft : Draft) :
    Option StatementSpan :=
  draft.opening.map fun _ =>
    let text := (Span.mk draft.start draft.stop).slice source
    let label := label? text
    { start := draft.start
      stop := terminator.getD draft.stop
      label := label.map String.ofList
      hint := label.map fun _ => String.ofList text }

end Draft

/-- The entries for the statements that are finished by a segment at an offset, and the statement
that is going on behind it. -/
def step (source : List Char) (draft? : Option Draft) (start : Nat) (segment : Segment) :
    List StatementSpan × Option Draft :=
  let stop := start + byteLength segment.spelling
  match segment with
  | .blank _ => ([], draft?)
  | .comment _ => ([], draft?)
  | .word spelling =>
    let word? := OpeningWord.ofWord? (String.ofList spelling)
    match draft? with
    | none => ([], some (.begin start stop word?))
    | some draft =>
      if word?.any draft.splitsBefore then
        ((draft.finish source none).toList, some (.begin start stop word?))
      else ([], some (draft.addWord stop word?))
  | .enclosed _ =>
    match draft? with
    | none => ([], some (.begin start stop none))
    | some draft => ([], some { draft with stop := stop })
  | .sign char =>
    if char = ';' ∧ draft?.all Draft.isTopLevel then
      ((draft?.bind (Draft.finish source (some stop))).toList, none)
    else ([], some ((draft?.getD (.begin start stop none)).addSign stop char))

/-- The entries for the segments from an offset on. -/
def entries (source : List Char) (draft? : Option Draft) (start : Nat) :
    List Segment → List StatementSpan
  | [] => (draft?.bind (Draft.finish source none)).toList
  | segment :: segments =>
    let stepped := step source draft? start segment
    stepped.1 ++ entries source stepped.2 (start + byteLength segment.spelling) segments

end Outline

/-- The outline of a source: its statements in order. -/
def outline (source : String) : List StatementSpan :=
  Outline.entries source.toList none 0 (Outline.Segment.all source.toList)

end DaxScript
