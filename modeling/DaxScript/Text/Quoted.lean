/-!
# Doubled quotes

Inside a quoted text the quote itself is written twice.  `double` writes a text that way and
`undouble` reads it again.
-/

set_option autoImplicit false

namespace DaxScript.Quoted

/-- Writes every quote twice. -/
def double (quote : Char) (text : List Char) : List Char :=
  text.flatMap fun char => if char = quote then [quote, quote] else [char]

/-- Reads two neighbouring quotes as one.  A quote that stands alone is kept. -/
def undouble (quote : Char) : List Char → List Char
  | [] => []
  | [char] => [char]
  | first :: second :: rest =>
    if first = quote ∧ second = quote then quote :: undouble quote rest
    else first :: undouble quote (second :: rest)

/-- Reading what was written gives the text back. -/
theorem undouble_double (quote : Char) (text : List Char) :
    undouble quote (double quote text) = text := by
  induction text with
  | nil => rfl
  | cons char text ih =>
    by_cases same : char = quote
    · subst same
      simpa [double, undouble] using ih
    · cases text with
      | nil => simp [double, same, undouble]
      | cons next text =>
        have head : ∃ char' text', double quote (next :: text) = char' :: text' := by
          by_cases quoted : next = quote <;> simp [double, quoted]
        obtain ⟨char', text', split⟩ := head
        have step : double quote (char :: next :: text) = char :: char' :: text' := by
          rw [← split]
          simp [double, same]
        rw [step, undouble, if_neg (by simp [same]), ← split, ih]

end DaxScript.Quoted
