import DaxScript.Proofs.Token.Spelling

/-!
# Trimmed texts

Trimming takes off the longest run of white space, so what is left is known from where it stops, and
a text without white space at its ends is left as it is.
-/

set_option autoImplicit false

namespace DaxScript

/-- A text is white space and what is left of it. -/
theorem exists_gap_trimStart (text : List Char) :
    ∃ gap, text = gap ++ trimStart text ∧ ∀ char ∈ gap, Unicode.isWhiteSpace char = true :=
  ⟨_, List.takeWhile_append_dropWhile.symm, belongs_of_mem_takeWhile Unicode.isWhiteSpace text⟩

/-- **White space is trimmed up to what is none.** -/
theorem trimStart_append {gap text : List Char}
    (white : ∀ char ∈ gap, Unicode.isWhiteSpace char = true)
    (stops : text.head?.any Unicode.isWhiteSpace = false) : trimStart (gap ++ text) = text :=
  dropWhile_run white stops

theorem trimStart_eq_self {text : List Char}
    (stops : text.head?.any Unicode.isWhiteSpace = false) : trimStart text = text :=
  @trimStart_append [] text (fun _ none => by cases none) stops

/-- **A text without white space in front has none behind exactly if trimming changes nothing.** -/
theorem trim_eq_iff {text : List Char} (first : text.head?.any Unicode.isWhiteSpace = false) :
    trim text = text ↔ text.getLast?.any Unicode.isWhiteSpace = false := by
  refine ⟨fun trimmed => ?_, fun last => Tight.trim_eq ⟨first, last⟩⟩
  have stops := head?_dropWhile_any Unicode.isWhiteSpace text.reverse
  rw [trim, trimStart_eq_self first, trimEnd] at trimmed
  rwa [← List.head?_reverse, ← trimmed, List.reverse_reverse]

end DaxScript
