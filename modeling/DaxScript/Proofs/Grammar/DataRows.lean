import DaxScript.Proofs.Grammar.Positions
import DaxScript.Proofs.Grammar.Spans

/-!
# Rows of data, position by position

Every position in a row of data yields one cell, which is absent if nothing stands there
(`Rule.dataRow_laid`).

Where the rows stand can be told from the tokens alone: the brace of a row is one directly inside of
the brace behind `DATATABLE` and the columns (`OpensDataRow`).  Tokens between signs that enclose
them can be taken apart in one way only.  So what stands behind such a brace, up to the brace that
closes it, is a row that was read, and as many rows were read before it as there are positions in
front of it (`DataRows.exists_row`).
-/

set_option autoImplicit false

namespace DaxScript

open Production TokenOutline

/-! ## What is closed -/

section Closing

variable {inner rest : List Token} {closing : Token} (closes : closing.kind = .symbol .rightBrace)
include closes

theorem not_balanced_of_closes (rest : List Token) : ¬Balanced (closing :: rest) := by
  rw [Balanced, List.map_cons, closes]
  exact Bool.false_ne_true

/-- The tokens that a brace encloses end where the brace is closed, wherever that is. -/
theorem exists_behind_of_balanced (nested : Balanced inner)
    (balanced : isBalanced 1 (rest.map (·.kind)) = true) {later behind : List Token}
    (same : rest ++ later = inner ++ closing :: behind) :
    ∃ others, rest = inner ++ closing :: others ∧ Balanced others ∧ others ++ later = behind := by
  rcases List.append_eq_append_iff.mp same with ⟨more, rfl, _⟩ | ⟨more, rfl, split⟩
  · rw [Balanced, List.map_append, isBalanced_append_eq_false balanced] at nested
    cases nested
  · have left : isBalanced 1 (more.map (·.kind)) = true := by
      rw [List.map_append] at balanced
      exact (isBalanced_append nested 1 _).symm.trans balanced
    cases more with
    | nil => cases left
    | cons first others =>
      obtain ⟨rfl, rfl⟩ := List.cons.inj split
      rw [List.map_cons, closes] at left
      exact ⟨others, rfl, left, rfl⟩

/-- Two ways to close a brace are the same. -/
theorem eq_of_closes {other : List Token} {closing' : Token} {behind behind' : List Token}
    (closes' : closing'.kind = .symbol .rightBrace) (nested : Balanced inner)
    (nested' : Balanced other)
    (same : inner ++ closing :: behind = other ++ closing' :: behind') : inner = other := by
  have apart {first second : List Token} {closing closing' : Token} {behind behind' : List Token}
      (closes : closing.kind = .symbol .rightBrace) (nested : Balanced first)
      (nested' : Balanced second) (more : List Token) (split : second = first ++ more)
      (same : closing :: behind = more ++ closing' :: behind') : first = second := by
    cases more with
    | nil => rw [split, List.append_nil]
    | cons sign others =>
      obtain ⟨rfl, _⟩ := List.cons.inj same
      rw [split, Balanced, List.map_append] at nested'
      exact absurd ((isBalanced_append nested 0 _).symm.trans nested')
        (not_balanced_of_closes closes others)
  rcases List.append_eq_append_iff.mp same with ⟨more, split, same⟩ | ⟨more, split, same⟩
  · exact apart closes nested nested' more split same
  · exact (apart closes' nested' nested more split same).symm

end Closing

/-! ## Cells -/

/-- The cell that a position of a row of data yields. -/
def IsCell (position : List Token) (cell : Option Expr) : Prop :=
  (cell = none ↔ position = []) ∧ ∀ value ∈ cell, value.span.Covers position

/-- The cells that the tokens between the braces of a row yield. -/
abbrev IsCells (inner : List Token) (cells : List (Option Expr)) : Prop :=
  List.Forall₂ IsCell (positions 0 inner) cells

/-- A row of data from brace to brace. -/
inductive IsDataRow : List Token → List (Option Expr) → Prop where
  | intro {opening closing : Token} {inner : List Token} {cells : List (Option Expr)}
      (opens : opening.kind = .symbol .leftBrace) (nested : Nested inner)
      (laid : IsCells inner cells) (closes : closing.kind = .symbol .rightBrace) :
      IsDataRow (opening :: (inner ++ [closing])) cells

/-- The rows of a table of data with commas between them. -/
inductive IsDataRows : List Token → List (List (Option Expr)) → Prop where
  | none : IsDataRows [] []
  | last {row : List Token} {cells : List (Option Expr)} (laid : IsDataRow row cells) :
      IsDataRows row [cells]
  | more {row later : List Token} {comma : Token} {cells : List (Option Expr)}
      {rows : List (List (Option Expr))} (laid : IsDataRow row cells)
      (sign : comma.kind = .symbol .comma) (others : IsDataRows later rows) :
      IsDataRows (row ++ comma :: later) (cells :: rows)

namespace Rule

section Rows

variable {expr : Rule Expr} (spanned : expr.Spanned) (nests : expr.Nests)
  (whole : expr.StandsWhole)
include spanned

theorem dataCell_laid {used : List Token} {cell : Option Expr} {next : TokenKind}
    (reading : DataCell expr used cell next) (ordered : InOrder used) : IsCell used cell := by
  cases reading with
  | absent => exact ⟨⟨fun _ => rfl, fun _ => rfl⟩, nofun⟩
  | @present used value next _ reading =>
    have covered := spanned reading ordered
    obtain ⟨first, _, head, _⟩ := id covered
    have some : used ≠ [] := by
      rintro rfl
      cases head
    exact ⟨⟨nofun, fun none => absurd none some⟩, fun _ same => Option.some.inj same ▸ covered⟩

include whole

theorem dataCells_laid {later : List Token} {cells : List (Option Expr)} {next : TokenKind}
    (others : CommaSeparated (DataCell expr) later cells next) (ordered : InOrder later)
    {own : List Token} {cell : Option Expr} (first : IsCell own cell) :
    List.Forall₂ IsCell ((positions 0 later).modifyHead (own ++ ·)) (cell :: cells) := by
  induction others generalizing own cell with
  | done =>
    rw [positions, List.modifyHead_cons, List.append_nil]
    exact .cons first .nil
  | @more used later value values next _ reading _ ih =>
    cases reading with
    | @intro comma used _ _ sign reading =>
      have standsWhole : DaxScript.StandsWhole 0 used := by
        cases reading with
        | absent => exact .nil
        | present _ reading => exact whole reading
      rw [List.cons_append, positions_comma sign, List.modifyHead_cons, List.append_nil,
        standsWhole]
      exact .cons first (ih ordered.right (dataCell_laid spanned reading ordered.left.tail))

include nests

/-- **Every position in a row of data yields one cell.** -/
theorem dataRow_laid {width : Nat} {used : List Token} {cells : List (Option Expr)}
    {next : TokenKind} (reading : DataRow expr width used cells next) (ordered : InOrder used) :
    IsDataRow used cells := by
  cases reading with
  | intro opens items closes =>
    have nested := Separated.nests (DataCell.nests nests) items
    have inside := ordered.tail.left
    refine .intro opens nested ?_ closes
    cases items with
    | @intro own later cell cells _ reading others =>
      have first := dataCell_laid spanned reading inside.left
      have standsWhole : DaxScript.StandsWhole 0 own := by
        cases reading with
        | absent => exact .nil
        | present _ reading => exact whole reading
      rw [IsCells, standsWhole]
      exact dataCells_laid spanned whole others inside.right first

theorem dataRows_laid {width : Nat} {used : List Token} {rows : List (List (Option Expr))}
    {next : TokenKind} (reading : SeparatedUnless .rightBrace (DataRow expr width) used rows next)
    (ordered : InOrder used) : IsDataRows used rows := by
  cases reading with
  | none => exact .none
  | some opens items =>
    clear opens
    cases items with
    | @intro own later cells rows _ first others =>
      -- The rows behind a row that is known, one after the other.
      induction others generalizing own cells with
      | done =>
        rw [List.append_nil] at ordered ⊢
        exact .last (dataRow_laid spanned nests whole first ordered)
      | @more used later value values next _ reading _ ih =>
        cases reading with
        | @intro comma used _ _ sign reading =>
          refine .more (dataRow_laid spanned nests whole first ordered.left) sign ?_
          exact ih ordered.right.tail reading

end Rows

end Rule

/-! ## Finding rows among the tokens -/

/-- What stands in front of the inside of a row of data: its table, some rows before it and its
brace. -/
inductive OpensDataRow (word : Token) (index : Nat) : List Token → Prop where
  | intro {lead heads rows : List Token} {outer opening row : Token}
      (named : word.kind = .keyword .dataTable) (opens : outer.kind = .symbol .leftParen)
      (plain : ∀ head ∈ heads, isPlain head.kind = true)
      (opensRows : opening.kind = .symbol .leftBrace) (balanced : Balanced rows)
      (counts : (positions 0 rows).length = index + 1) (opensRow : row.kind = .symbol .leftBrace) :
      OpensDataRow word index (lead ++ word :: outer :: (heads ++ opening :: (rows ++ [row])))

/-- What is in front of a place in a row of data, the brace of the row being the innermost sign that
is open there. -/
inductive InDataRow : List Token → Prop where
  | intro {word : Token} {index : Nat} {opened inner : List Token}
      (opens : OpensDataRow word index opened) (balanced : Balanced inner) :
      InDataRow (opened ++ inner)

theorem InDataRow.behind {front : List Token} (inside : InDataRow front) (more : List Token) :
    InDataRow (more ++ front) := by
  obtain ⟨⟨named, opens, plain, opensRows, rowsBalanced, counts, opensRow⟩, balanced⟩ := inside
  rw [← List.append_assoc, ← List.append_assoc]
  exact .intro (.intro named opens plain opensRows rowsBalanced counts opensRow) balanced

section Brace

variable {front inner behind : List Token} {row closing : Token} (balanced : Balanced front)
include balanced

/-- Behind balanced tokens there is no brace in front of one that closes. -/
theorem not_closes_of_brace (opens : row.kind = .symbol .leftBrace) {later tail : List Token}
    {sign : Token} (same : front ++ row :: later = sign :: tail) :
    sign.kind ≠ .symbol .rightBrace := by
  intro ends
  cases front with
  | nil =>
    obtain ⟨rfl, _⟩ := List.cons.inj same
    rw [opens] at ends
    cases ends
  | cons =>
    obtain ⟨rfl, _⟩ := List.cons.inj same
    exact not_balanced_of_closes ends _ balanced

variable (nested : Balanced inner) (closes : closing.kind = .symbol .rightBrace)
include nested closes

/-- A brace behind balanced tokens is the first of a row, or the balanced tokens contain the row. -/
theorem IsDataRow.brace_cases {own later : List Token} {cells : List (Option Expr)}
    (isRow : IsDataRow own cells)
    (same : front ++ row :: (inner ++ closing :: behind) = own ++ later) :
    (front = [] ∧ IsCells inner cells ∧ closing ∈ own) ∨
      ∃ others, front = own ++ others ∧ Balanced others ∧
        others ++ row :: (inner ++ closing :: behind) = later := by
  obtain ⟨opensFirst, nestedFirst, laid, closesFirst⟩ := isRow
  rw [List.cons_append, List.append_assoc] at same
  cases front with
  | nil =>
    obtain ⟨rfl, sameTail⟩ := List.cons.inj same
    obtain rfl := eq_of_closes closes closesFirst nested nestedFirst.balanced sameTail
    obtain ⟨rfl, _⟩ := List.cons.inj (List.append_cancel_left sameTail)
    exact .inl ⟨rfl, laid, by simp⟩
  | cons opening front =>
    obtain ⟨rfl, sameTail⟩ := List.cons.inj same
    rw [Balanced, List.map_cons, opensFirst] at balanced
    obtain ⟨others, rfl, left, sameOthers⟩ :=
      exists_behind_of_balanced closesFirst nestedFirst.balanced balanced sameTail
    exact .inr ⟨others, by simp, left, sameOthers⟩

/-- **The brace of a row begins a row that was read.** -/
theorem IsDataRows.exists_row {body : List Token} {rows : List (List (Option Expr))}
    (laid : IsDataRows body rows) {tail : List Token} {last : Token}
    (opens : row.kind = .symbol .leftBrace)
    (same : front ++ row :: (inner ++ closing :: behind) = body ++ last :: tail)
    (ends : last.kind = .symbol .rightBrace) :
    ∃ index cells, (positions 0 front).length = index + 1 ∧ rows[index]? = some cells ∧
      IsCells inner cells ∧ closing ∈ body := by
  induction laid generalizing front with
  | none => exact absurd ends (not_closes_of_brace balanced opens same)
  | @last own cells isRow =>
    rcases isRow.brace_cases balanced nested closes same with
      ⟨rfl, laid, member⟩ | ⟨others, rfl, left, sameTail⟩
    · exact ⟨0, cells, rfl, rfl, laid, member⟩
    · exact absurd ends (not_closes_of_brace left opens sameTail)
  | @more own later comma cells rows isRow sign _ ih =>
    rw [List.append_assoc] at same
    rcases isRow.brace_cases balanced nested closes same with
      ⟨rfl, laid, member⟩ | ⟨others, rfl, left, sameTail⟩
    · exact ⟨0, cells, rfl, rfl, laid, List.mem_append_left _ member⟩
    · cases others with
      | nil =>
        obtain ⟨rfl, _⟩ := List.cons.inj sameTail
        rw [opens] at sign
        cases sign
      | cons first others =>
        obtain ⟨rfl, sameOthers⟩ := List.cons.inj sameTail
        rw [Balanced, List.map_cons, sign] at left
        obtain ⟨index, found, counts, isFound, laid, member⟩ := ih left sameOthers
        obtain ⟨opensFirst, nestedFirst, _, closesFirst⟩ := isRow
        refine ⟨index + 1, found, ?_, isFound, laid, by simp [member]⟩
        rw [StandsWhole.braced opensFirst nestedFirst closesFirst 0, List.length_modifyHead,
          positions_comma sign, List.length_cons, counts]

end Brace

end DaxScript
