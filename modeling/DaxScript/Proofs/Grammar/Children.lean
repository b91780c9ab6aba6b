import DaxScript.Proofs.Grammar.Spans
import DaxScript.Proofs.Grammar.Subtrees

/-!
# Where the children of a node stand

The children of a node are read from parts of its tokens, one behind the other (`Placed`).  So
their spans lie inside the span of the node, do not overlap, and come in the order of the source.

A group has the children of the expression in it, and a row of a table has those of the tuple that
it was read from.  For this reason each rule for expressions is known by two facts, the span of
what it reads and the places of the children of what it reads.
-/

set_option autoImplicit false

namespace DaxScript

open Production

/-- Some expressions have the spans of parts of the tokens, one behind the other. -/
inductive Placed : List Token → List Expr → Prop where
  | nil (used : List Token) : Placed used []
  | cons {before own after : List Token} {child : Expr} {children : List Expr}
      (covered : child.span.Covers own) (others : Placed after children) :
      Placed (before ++ (own ++ after)) (child :: children)

namespace Placed

variable {used : List Token} {children : List Expr}

theorem single {child : Expr} (covered : child.span.Covers used) : Placed used [child] := by
  have whole : Placed ([] ++ (used ++ [])) [child] := .cons covered (.nil [])
  simpa using whole

theorem behind (more : List Token) (placed : Placed used children) :
    Placed (more ++ used) children := by
  cases placed with
  | nil => exact .nil _
  | cons covered others =>
    rw [← List.append_assoc]
    exact .cons covered others

theorem append {later : List Token} {others : List Expr} (first : Placed used children)
    (second : Placed later others) : Placed (used ++ later) (children ++ others) := by
  induction first with
  | nil used => exact second.behind used
  | cons covered _ ih =>
    rw [List.append_assoc, List.append_assoc]
    exact .cons covered ih

theorem inFront (more : List Token) (placed : Placed used children) :
    Placed (used ++ more) children := by
  have whole := placed.append (.nil more)
  rwa [List.append_nil] at whole

/-- A token on either side. -/
theorem between (opening closing : Token) (placed : Placed used children) :
    Placed (opening :: (used ++ [closing])) children :=
  (placed.inFront [closing]).behind [opening]

/-- What is placed behind further tokens begins behind all of them. -/
theorem stop_le {front : List Token} (placed : Placed used children)
    (ordered : InOrder (front ++ used)) {token : Token} (inFront : token ∈ front) :
    ∀ child ∈ children, token.span.stop ≤ child.span.start := by
  induction placed generalizing front with
  | nil => exact fun _ member => absurd member List.not_mem_nil
  | @cons before own after child children covered _ ih =>
    rw [List.forall_mem_cons]
    constructor
    · obtain ⟨first, _, head, _, isSpan⟩ := covered
      have isFirst : first ∈ before ++ (own ++ after) := by
        simp [List.mem_of_mem_head? head]
      rw [isSpan]
      exact ordered.stop_le inFront isFirst
    · have ordered : InOrder ((front ++ (before ++ own)) ++ after) := by simpa using ordered
      exact ih ordered (List.mem_append_left _ inFront)

/-- **What is placed does not overlap.** -/
theorem apart (placed : Placed used children) (ordered : InOrder used) :
    children.Pairwise fun first second => first.span.stop ≤ second.span.start := by
  induction placed with
  | nil => exact .nil
  | @cons before own after child children covered others ih =>
    refine .cons ?_ (ih ordered.right.right)
    obtain ⟨_, last, _, tail, isSpan⟩ := covered
    rw [isSpan]
    exact others.stop_le ordered.right (List.mem_of_getLast? tail)

/-- Each part begins with a token and ends with one. -/
theorem exists_covered (placed : Placed used children) {child : Expr} (member : child ∈ children) :
    ∃ before own after, used = before ++ (own ++ after) ∧ child.span.Covers own := by
  induction placed with
  | nil => cases member
  | @cons before own after first children covered others ih =>
    rcases List.mem_cons.mp member with rfl | member
    · exact ⟨before, own, after, rfl, covered⟩
    · obtain ⟨inFront, part, rest, rfl, covers⟩ := ih member
      exact ⟨before ++ (own ++ inFront), part, rest, by simp, covers⟩

end Placed

namespace Rule

/-- Parts of what a rule reads are placed in the tokens that it reads. -/
def Places {α : Type} (parts : α → List Expr) (rule : Rule α) : Prop :=
  ∀ ⦃used : List Token⦄ ⦃value : α⦄ ⦃next : TokenKind⦄, rule used value next → InOrder used →
    Placed used (parts value)

/-- The whole of what is read has its place. -/
theorem Spanned.places {rule : Rule Expr} (spanned : Spanned rule) :
    Places (fun value => [value]) rule :=
  fun _ _ _ reading ordered => .single (spanned reading ordered)

section Repetition

variable {α : Type} {parts : α → List Expr} {item : Rule α}

theorem Places.afterComma (places : Places parts item) : Places parts (AfterComma item) := by
  intro used value next reading ordered
  cases reading with
  | @intro comma used value _ sign reading => exact (places reading ordered.tail).behind [comma]

theorem Places.repeated (places : Places parts item) (continues : TokenKind → Bool) :
    Places (·.flatMap parts) (Repeated continues item) := by
  intro used values next reading ordered
  induction reading with
  | done => exact .nil _
  | more _ reading _ ih => exact (places reading ordered.left).append (ih ordered.right)

theorem Places.separated (places : Places parts item) :
    Places (·.flatMap parts) (Separated item) := by
  intro used values next reading ordered
  cases reading with
  | intro reading others =>
    exact (places reading ordered.left).append
      (places.afterComma.repeated _ others ordered.right)

theorem Places.separatedUnless (places : Places parts item) (close : Symbol) :
    Places (·.flatMap parts) (SeparatedUnless close item) := by
  intro used values next reading ordered
  cases reading with
  | none => exact .nil _
  | some _ items => exact places.separated items ordered

end Repetition

/-- What a rule reads has its span, and so have its children. -/
structure Arranged (rule : Rule Expr) : Prop where
  spanned : Spanned rule
  places : Places Expr.children rule

/-! ## Parts of operands -/

section Parts

variable {expr : Rule Expr} (arranged : Arranged expr)
include arranged

theorem places_values (close : Symbol) : Places id (SeparatedUnless close expr) := by
  intro used values next reading ordered
  have placed := arranged.spanned.places.separatedUnless close reading ordered
  simp only [List.flatMap_singleton'] at placed
  exact placed

theorem places_arguments : Places (·.1) (Arguments expr) := by
  intro used values next reading ordered
  cases reading with
  | @intro opening closing used values _ opens items closes =>
    exact (places_values arranged _ items ordered.tail.left).between opening closing

/-- Behind a measure or a column stand its filters. -/
theorem places_filters {target value : Expr} {before used : List Token} {next : TokenKind}
    (covered : target.span.Covers before) (childless : target.children = [])
    (reading : Filters expr target used value next) (ordered : InOrder (before ++ used)) :
    Placed (before ++ used) value.children := by
  cases reading with
  | none =>
    rw [childless]
    exact .nil _
  | some filters =>
    exact (Placed.single covered).append (places_arguments arranged filters ordered.right)

theorem places_binding : Places (fun binding => [binding.2]) (Binding expr) := by
  intro used binding next reading ordered
  cases reading with
  | @intro word symbol equals name used value _ opens named sign reading =>
    exact (arranged.spanned.places reading ordered.tail.tail.tail).behind [word, symbol, equals]

/-- The values of a row are the children of a tuple or a single value. -/
theorem places_tableRow (width? : Option Nat) : Places id (TableRow expr width?) := by
  intro used row next reading ordered
  cases reading with
  | @intro used value row _ reading isRow fits =>
    have below := arranged.places reading ordered
    have whole := arranged.spanned.places reading ordered
    obtain ⟨form, span⟩ := value
    cases form with
    | tuple values =>
      obtain rfl := Option.some.inj isRow
      exact below
    | table => cases isRow
    | _ =>
      obtain rfl := Option.some.inj isRow
      exact whole

theorem places_tableRows : Places List.flatten (TableRows expr) := by
  intro used rows next reading ordered
  cases reading with
  | none => exact .nil _
  | @some used later row rows _ _ first others =>
    have behind := (places_tableRow arranged _).afterComma.repeated _ others ordered.right
    simp only [List.flatMap_id] at behind
    exact (places_tableRow arranged _ first ordered.left).append behind

theorem places_dataCell : Places Option.toList (DataCell expr) := by
  intro used cell next reading ordered
  cases reading with
  | absent => exact .nil _
  | present _ reading => exact arranged.spanned.places reading ordered

theorem places_dataRow (width : Nat) : Places (·.flatMap Option.toList) (DataRow expr width) := by
  intro used row next reading ordered
  cases reading with
  | @intro opening closing used cells _ opens items closes fits =>
    exact ((places_dataCell arranged).separated items ordered.tail.left).between opening closing

end Parts

/-! ## Operands -/

/-- **The children of an operand stand one behind the other**, if those of expressions do. -/
theorem Operand.places {expr : Nat → Rule Expr} (arranged : ∀ level, Arranged (expr level)) :
    Places Expr.children (Operand expr) := by
  intro used value next reading ordered
  cases reading with
  | leaf stated =>
    rw [Expr.children, Expr.form, children_of_leaf? stated]
    exact .nil _
  | @measure token name used value _ named filters =>
    have covered : (Expr.node (.measure name) token.span).span.Covers [token] := .single token
    exact places_filters (arranged 0) covered rfl filters ordered
  | @column table column tableName columnName used value _ tableNamed columnNamed filters =>
    have inFront : InOrder ([table, column] ++ used) := ordered
    let target := Expr.node (.column tableName columnName) (table.span.cover column.span)
    have covered : target.span.Covers ([table] ++ ([] ++ [column])) :=
      (Span.Covers.single table).cover (.single column) inFront.left
    exact places_filters (arranged 0) covered rfl filters ordered
  | @call token name used values stop _ named arguments =>
    exact (places_arguments (arranged 0) arguments ordered.tail).behind [token]
  | @unary token operator used value _ sign operand =>
    exact ((arranged _).spanned.places operand ordered.tail).behind [token]
  | @bindings word result used later values body _ opens items separates reading =>
    have ordered : InOrder ((word :: used) ++ ([result] ++ later)) := ordered
    have inFront := (places_binding (arranged 0)).repeated _ items ordered.left
    have behind := ((arranged 0).spanned.places reading ordered.right.right).behind [result]
    have same : values.flatMap (fun binding => [binding.2]) = values.map (·.2) :=
      List.flatMap_pure_eq_map ..
    simp only [same] at inFront
    exact inFront.append behind
  | @group opening closing used value _ opens reading closes =>
    exact ((arranged 0).places reading ordered.tail.left).between opening closing
  | @tuple opening closing used first second others _ opens items closes =>
    have placed := (arranged 0).spanned.places.separated items ordered.tail.left
    simp only [List.flatMap_singleton'] at placed
    exact placed.between opening closing
  | @table opening closing used rows _ opens items closes =>
    exact (places_tableRows (arranged 0) items ordered.tail.left).between opening closing
  | @dataTable word outer opening closing last used later columns rows _ named opens heads some
      opensRows items closesRows closes =>
    have ordered :
        InOrder ((word :: outer :: used) ++ ([opening] ++ (later ++ [closing, last]))) := ordered
    have placed := (places_dataRow (arranged 0) _).separatedUnless _ items ordered.right.right.left
    have same : rows.flatMap (·.flatMap Option.toList) = rows.flatten.filterMap id := by
      simp only [List.flatMap_def, List.filterMap_eq_flatMap_toList, List.map_flatten,
        List.flatten_flatten, List.map_map, Function.comp_def, id]
    simp only [same] at placed
    exact ((placed.inFront [closing, last]).behind [opening]).behind (word :: outer :: used)

/-! ## Expressions -/

/-- An operator between operands has one of them on either side. -/
theorem Climbing.placed {operand : Rule Expr} (arranged : Arranged operand) {level : Nat}
    {left whole : Expr} {before used : List Token} {next : TokenKind}
    (reading : Climbing operand level left used whole next) (covered : left.span.Covers before)
    (placed : Placed before left.children) (ordered : InOrder (before ++ used)) :
    Placed (before ++ used) whole.children := by
  induction reading generalizing before with
  | done =>
    rw [List.append_nil]
    exact placed
  | @step level left first right whole sign operator used middle later next joins _ reading
      tighter others _ ihOthers =>
    have ordered : InOrder ((before ++ ([sign] ++ (used ++ middle))) ++ later) := by
      simpa using ordered
    have operandOrdered : InOrder (used ++ middle) := ordered.left.right.right
    have rightCovered := tighter.covers arranged.spanned
      (arranged.spanned reading operandOrdered.left) operandOrdered
    have joinCovered := covered.cover rightCovered ordered.left
    have joinPlaced := (Placed.single covered).append ((Placed.single rightCovered).behind [sign])
    have whole := ihOthers joinCovered joinPlaced ordered
    simpa using whole

theorem Expression.arranged {operand : Rule Expr} (arranged : Arranged operand) (level : Nat) :
    Arranged (Expression operand level) where
  spanned := Expression.spanned arranged.spanned level
  places used whole next reading ordered := by
    cases reading with
    | intro reading others =>
      exact others.placed arranged (arranged.spanned reading ordered.left)
        (arranged.places reading ordered.left) ordered

theorem operandRule_arranged (levels : Nat) : Arranged (operandRule levels) := by
  refine ⟨operandRule_spanned levels, ?_⟩
  induction levels with
  | zero =>
    intro _ _ _ reading
    cases reading
  | succ levels ih =>
    exact Operand.places fun level => Expression.arranged ⟨operandRule_spanned levels, ih⟩ level

/-- **The children of an expression stand one behind the other in its tokens.** -/
theorem ExpressionOfLevel.placed {level : Nat} {used : List Token} {value : Expr}
    {next : TokenKind} (reading : ExpressionOfLevel level used value next)
    (ordered : InOrder used) : Placed used value.children :=
  (Expression.arranged (operandRule_arranged maxNesting) level).places reading ordered

end Rule

end DaxScript
