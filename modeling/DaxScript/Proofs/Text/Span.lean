import DaxScript.Text.Span

/-!
# Texts under spans

A span covers the same text when the source goes on behind it, and when the source stands behind
another text and the span is moved along.
-/

set_option autoImplicit false

namespace DaxScript

/-- A text that is not empty has bytes. -/
theorem byteLength_pos {chars : List Char} (some : chars ≠ []) : 0 < byteLength chars := by
  cases chars with
  | nil => exact absurd rfl some
  | cons char chars =>
    have positive : 0 < char.utf8Size := char.utf8Size_pos
    rw [byteLength_cons]
    omega

/-- Texts that begin with the same number of bytes of one text begin with the same characters. -/
theorem append_inj_of_byteLength {first second before after : List Char}
    (same : first ++ second = before ++ after) (bytes : byteLength first = byteLength before) :
    first = before ∧ second = after := by
  have cut := splitAtByte?_append first second
  rw [same, bytes, splitAtByte?_append before after] at cut
  obtain ⟨sameFirst, sameSecond⟩ := Prod.mk.inj (Option.some.inj cut)
  exact ⟨sameFirst.symm, sameSecond.symm⟩

/-- Of two beginnings of one text the longer one goes on from the shorter one. -/
theorem exists_append_of_byteLength_le {first second before after : List Char}
    (same : first ++ second = before ++ after) (bytes : byteLength first ≤ byteLength before) :
    ∃ between, before = first ++ between ∧ second = between ++ after := by
  rcases List.append_eq_append_iff.mp same with ⟨between, rfl, rfl⟩ | ⟨between, rfl, rfl⟩
  · exact ⟨between, rfl, rfl⟩
  · cases between with
    | nil => exact ⟨[], by simp, rfl⟩
    | cons char between =>
      have positive := byteLength_pos (List.cons_ne_nil char between)
      rw [byteLength_append] at bytes
      omega

/-- The parts of a text that is cut make up the text, and the first is as long as was asked for. -/
theorem eq_append_of_splitAtByte? {bytes : Nat} {chars before after : List Char}
    (cut : splitAtByte? bytes chars = some (before, after)) :
    chars = before ++ after ∧ byteLength before = bytes := by
  induction chars generalizing bytes before with
  | nil =>
    cases bytes with
    | zero =>
      cases cut
      exact ⟨rfl, rfl⟩
    | succ bytes => cases cut
  | cons char chars ih =>
    cases bytes with
    | zero =>
      cases cut
      exact ⟨rfl, rfl⟩
    | succ bytes =>
      rw [splitAtByte?] at cut
      split at cut
      · next fits =>
        obtain ⟨⟨inner, rest⟩, found, same⟩ := Option.map_eq_some_iff.mp cut
        cases same
        obtain ⟨rfl, length⟩ := ih found
        refine ⟨rfl, ?_⟩
        rw [byteLength_cons, length]
        omega
      · cases cut

/-- A text is cut in the same place when it goes on. -/
theorem splitAtByte?_append_of_le {bytes : Nat} {chars : List Char}
    (fits : bytes ≤ byteLength chars) (more : List Char) :
    splitAtByte? bytes (chars ++ more) =
      (splitAtByte? bytes chars).map fun parts => (parts.1, parts.2 ++ more) := by
  induction chars generalizing bytes with
  | nil =>
    obtain rfl : bytes = 0 := Nat.le_zero.mp fits
    rw [List.nil_append, splitAtByte?, splitAtByte?]
    rfl
  | cons char chars ih =>
    cases bytes with
    | zero => rfl
    | succ bytes =>
      have shorter : bytes + 1 - char.utf8Size ≤ byteLength chars := by
        rw [byteLength_cons] at fits
        omega
      rw [List.cons_append, splitAtByte?, splitAtByte?, ih shorter]
      split
      · cases splitAtByte? (bytes + 1 - char.utf8Size) chars <;> rfl
      · rfl

/-- A text that stands behind another is cut in the place moved along. -/
theorem splitAtByte?_behind (before chars : List Char) (bytes : Nat) :
    splitAtByte? (bytes + byteLength before) (before ++ chars) =
      (splitAtByte? bytes chars).map fun parts => (before ++ parts.1, parts.2) := by
  induction before with
  | nil =>
    rw [byteLength_nil, Nat.add_zero, List.nil_append]
    cases splitAtByte? bytes chars <;> rfl
  | cons char before ih =>
    have positive : 0 < char.utf8Size := char.utf8Size_pos
    obtain ⟨total, size⟩ : ∃ total, bytes + byteLength (char :: before) = total + 1 :=
      ⟨bytes + byteLength (char :: before) - 1, by simp only [byteLength_cons]; omega⟩
    have rest : total + 1 - char.utf8Size = bytes + byteLength before := by
      simp only [byteLength_cons] at size
      omega
    have fits : char.utf8Size ≤ total + 1 := by
      simp only [byteLength_cons] at size
      omega
    rw [size, List.cons_append, splitAtByte?, if_pos fits, rest, ih]
    cases splitAtByte? bytes chars <;> rfl

namespace Span

/-- What a span covers stands in the text between something in front and something behind. -/
theorem eq_append_of_slice? {span : Span} {chars covered : List Char}
    (fits : span.slice? chars = some covered) :
    ∃ before after, chars = before ++ (covered ++ after) ∧ span.start = byteLength before ∧
      span.stop = byteLength before + byteLength covered := by
  unfold slice? at fits
  split at fits
  · next forward =>
    obtain ⟨⟨before, behind⟩, cut, fits⟩ := Option.bind_eq_some_iff.mp fits
    obtain ⟨⟨inner, after⟩, cutBehind, same⟩ := Option.bind_eq_some_iff.mp fits
    obtain rfl : inner = covered := Option.some.inj same
    obtain ⟨rfl, start⟩ := eq_append_of_splitAtByte? cut
    obtain ⟨rfl, length⟩ := eq_append_of_splitAtByte? cutBehind
    refine ⟨before, after, rfl, start.symm, ?_⟩
    simp only [Span.length] at length
    omega
  · cases fits

theorem slice?_append (before covered after : List Char) :
    (Span.mk (byteLength before) (byteLength before + byteLength covered)).slice?
      (before ++ (covered ++ after)) = some covered := by
  simp only [slice?, length, Nat.le_add_right, if_true, Nat.add_sub_cancel_left,
    splitAtByte?_append, Option.bind_eq_bind, Option.bind_some]

/-- **A span covers the same text when the source goes on behind it.** -/
theorem slice_append_of_le {span : Span} {chars : List Char} (fits : span.stop ≤ byteLength chars)
    (more : List Char) : span.slice (chars ++ more) = span.slice chars := by
  unfold slice slice?
  by_cases forward : span.start ≤ span.stop
  · rw [if_pos forward, if_pos forward,
      splitAtByte?_append_of_le (Nat.le_trans forward fits) more]
    cases cut : splitAtByte? span.start chars with
    | none => rfl
    | some parts =>
      obtain ⟨before, after⟩ := parts
      obtain ⟨rfl, start⟩ := eq_append_of_splitAtByte? cut
      have shorter : span.length ≤ byteLength after := by
        rw [byteLength_append] at fits
        simp only [length]
        omega
      simp only [Option.map_some, Option.bind_eq_bind, Option.bind_some,
        splitAtByte?_append_of_le shorter more]
      cases splitAtByte? span.length after <;> rfl
  · rw [if_neg forward, if_neg forward]

/-- **A span that is moved along covers the same text behind another one.** -/
theorem slice_behind (span : Span) (before chars : List Char) :
    (Span.mk (span.start + byteLength before) (span.stop + byteLength before)).slice
      (before ++ chars) = span.slice chars := by
  have sameLength : (Span.mk (span.start + byteLength before)
      (span.stop + byteLength before)).length = span.length := by
    simp only [length]
    omega
  unfold slice slice?
  rw [sameLength]
  by_cases forward : span.start ≤ span.stop
  · rw [if_pos forward, if_pos (Nat.add_le_add_right forward _), splitAtByte?_behind]
    cases splitAtByte? span.start chars <;> rfl
  · rw [if_neg forward, if_neg (by simpa using forward)]

end Span

end DaxScript
