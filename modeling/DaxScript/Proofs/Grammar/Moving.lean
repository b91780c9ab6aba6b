import DaxScript.Grammar.Expression

/-!
# Moving expressions to other places

A source that stands behind another text has the same expressions, with other offsets in their
spans.  `Expr.moved` gives every offset in a tree to a function; the shape of the tree stays.

The functions that do this for the form of a node, for any function of its children, are those of
a functor: moving twice is moving once by both functions, and moving nowhere changes nothing.
-/

set_option autoImplicit false

namespace DaxScript

/-! ## Forms -/

namespace Form

variable {α β γ : Type}

/-- The form with a function applied to all children. -/
def map (make : α → β) : Form α → Form β
  | number value => number value
  | text content => text content
  | boolean value => boolean value
  | blank => blank
  | tableName name => tableName name
  | measure name => measure name
  | column owner name => column owner name
  | tuple values => tuple (values.map make)
  | table rows => table (rows.map (·.map make))
  | call name arguments => call name (arguments.map make)
  | calculate target filters => calculate (make target) (filters.map make)
  | bindings values body => bindings (values.map fun part => (part.1, make part.2)) (make body)
  | dataTable columns rows => dataTable columns (rows.map (·.map (·.map make)))
  | unary operator operand => unary operator (make operand)
  | binary operator left right => binary operator (make left) (make right)

theorem map_map (first : α → β) (second : β → γ) (form : Form α) :
    (form.map first).map second = form.map fun child => second (first child) := by
  cases form <;> simp [map, Function.comp_def]

theorem map_id (form : Form α) : (form.map fun child => child) = form := by
  cases form <;> simp [map]

/-- Only what happens to the children matters. -/
theorem map_congr {first second : α → β} {form : Form α}
    (same : ∀ child ∈ form.children, first child = second child) :
    form.map first = form.map second := by
  cases form with
  | tuple values => exact congrArg tuple (List.map_congr_left same)
  | call name arguments => exact congrArg (call name) (List.map_congr_left same)
  | table rows =>
    refine congrArg table (List.map_congr_left fun row isRow => ?_)
    exact List.map_congr_left fun value isValue =>
      same value (List.mem_flatten.mpr ⟨row, isRow, isValue⟩)
  | calculate target filters =>
    have sameFilters : filters.map first = filters.map second :=
      List.map_congr_left fun filter isFilter => same filter (List.mem_cons_of_mem _ isFilter)
    have sameTarget : first target = second target := same target (List.mem_cons_self ..)
    simp only [map, sameFilters, sameTarget]
  | bindings values body =>
    have sameBody : first body = second body :=
      same body (List.mem_append_right _ (List.mem_singleton_self _))
    have sameValues : (values.map fun part => (part.1, first part.2)) =
        values.map fun part => (part.1, second part.2) := by
      refine List.map_congr_left fun part isPart => ?_
      rw [same part.2 (List.mem_append_left _ (List.mem_map.mpr ⟨part, isPart, rfl⟩))]
    simp only [map, sameBody, sameValues]
  | dataTable columns rows =>
    refine congrArg (dataTable columns) (List.map_congr_left fun row isRow => ?_)
    refine List.map_congr_left fun cell isCell => ?_
    cases cell with
    | none => rfl
    | some value =>
      refine congrArg some (same value (List.mem_filterMap.mpr ⟨some value, ?_, rfl⟩))
      exact List.mem_flatten.mpr ⟨row, isRow, isCell⟩
  | unary operator operand => exact congrArg (unary operator) (same operand (.head _))
  | binary operator left right =>
    have sameLeft : first left = second left := same left (.head _)
    have sameRight : first right = second right := same right (.tail _ (.head _))
    simp only [map, sameLeft, sameRight]
  | _ => rfl

theorem children_map (make : α → β) (form : Form α) :
    (form.map make).children = form.children.map make := by
  cases form with
  | table rows => simp [map, children, List.map_flatten]
  | bindings values body => simp [map, children]
  | dataTable columns rows =>
    simp [map, children, List.filterMap_flatten, List.map_flatten, List.map_filterMap,
      List.filterMap_map, Function.comp_def]
  | _ => simp [map, children]

/-- The form over its own children, each known to be one. -/
def attach : (form : Form α) → Form { child // child ∈ form.children }
  | number value => number value
  | text content => text content
  | boolean value => boolean value
  | blank => blank
  | tableName name => tableName name
  | measure name => measure name
  | column owner name => column owner name
  | tuple values => tuple values.attach
  | table rows =>
    table (rows.attach.map fun row => row.1.attach.map fun value =>
      ⟨value.1, List.mem_flatten.mpr ⟨row.1, row.2, value.2⟩⟩)
  | call name arguments => call name arguments.attach
  | calculate target filters =>
    calculate ⟨target, List.mem_cons_self ..⟩
      (filters.attach.map fun filter => ⟨filter.1, List.mem_cons_of_mem _ filter.2⟩)
  | bindings values body =>
    bindings
      (values.attach.map fun part => (part.1.1, ⟨part.1.2,
        List.mem_append_left _ (List.mem_map.mpr ⟨part.1, part.2, rfl⟩)⟩))
      ⟨body, List.mem_append_right _ (List.mem_singleton_self _)⟩
  | dataTable columns rows =>
    dataTable columns (rows.attach.map fun row => row.1.attach.map fun cell =>
      cell.1.attach.map fun value => ⟨value.1, List.mem_filterMap.mpr
        ⟨cell.1, List.mem_flatten.mpr ⟨row.1, row.2, cell.2⟩, value.2⟩⟩)
  | unary operator operand => unary operator ⟨operand, .head _⟩
  | binary operator left right => binary operator ⟨left, .head _⟩ ⟨right, .tail _ (.head _)⟩

/-- A function of the members of a list, each known to be one, that needs not know it. -/
theorem map_attach_list {values : List α} {make : α → β} {known : { value // value ∈ values } → β}
    (same : ∀ value, known value = make value.1) : values.attach.map known = values.map make := by
  have forget : (values.attach.map fun value => make value.1) = values.map make :=
    List.attach_map_val
  rw [← forget]
  exact List.map_congr_left fun value _ => same value

theorem map_attach (make : α → β) (form : Form α) :
    (form.attach.map fun child => make child.1) = form.map make := by
  cases form with
  | tuple values => exact congrArg tuple (map_attach_list fun _ => rfl)
  | call name arguments => exact congrArg (call name) (map_attach_list fun _ => rfl)
  | table rows =>
    simp only [attach, map, List.map_map]
    refine congrArg table (map_attach_list fun row => ?_)
    simp only [Function.comp, List.map_map]
    exact map_attach_list fun _ => rfl
  | calculate target filters =>
    simp only [attach, map, List.map_map]
    exact congrArg (calculate (make target)) (map_attach_list fun _ => rfl)
  | bindings values body =>
    simp only [attach, map, List.map_map]
    exact congrArg (bindings · (make body)) (map_attach_list fun _ => rfl)
  | dataTable columns rows =>
    simp only [attach, map, List.map_map]
    refine congrArg (dataTable columns) (map_attach_list fun row => ?_)
    simp only [Function.comp, List.map_map]
    refine map_attach_list fun cell => ?_
    obtain ⟨cell, isCell⟩ := cell
    cases cell <;> simp
  | _ => rfl

end Form

/-! ## Expressions -/

/-- The span with a function applied to both offsets. -/
def Span.moved (offset : Nat → Nat) (span : Span) : Span :=
  ⟨offset span.start, offset span.stop⟩

namespace Expr

@[simp] theorem span_node (form : Form Expr) (span : Span) :
    (Expr.node form span).span = span := rfl

@[simp] theorem form_node (form : Form Expr) (span : Span) :
    (Expr.node form span).form = form := rfl

@[simp] theorem span_withSpan (expr : Expr) (span : Span) : (expr.withSpan span).span = span := rfl

/-- The expression with a function applied to all offsets. -/
def moved (offset : Nat → Nat) (expr : Expr) : Expr :=
  node (expr.form.attach.map fun child => moved offset child.1) (expr.span.moved offset)
termination_by sizeOf expr
decreasing_by exact sizeOf_lt_of_mem_children child.2

theorem moved_node (offset : Nat → Nat) (form : Form Expr) (span : Span) :
    (node form span).moved offset = node (form.map (moved offset)) (span.moved offset) := by
  rw [moved, form_node, span_node, Form.map_attach]

theorem moved_eq (offset : Nat → Nat) (expr : Expr) :
    expr.moved offset = node (expr.form.map (moved offset)) (expr.span.moved offset) := by
  obtain ⟨form, span⟩ := expr
  exact moved_node offset form span

@[simp] theorem span_moved (offset : Nat → Nat) (expr : Expr) :
    (expr.moved offset).span = expr.span.moved offset := by
  rw [moved_eq]
  rfl

@[simp] theorem form_moved (offset : Nat → Nat) (expr : Expr) :
    (expr.moved offset).form = expr.form.map (moved offset) := by
  rw [moved_eq]
  rfl

/-- Something is true of all expressions when it is true of each whose children it is true of. -/
theorem byChildren {motive : Expr → Prop}
    (step : ∀ expr, (∀ child ∈ expr.children, motive child) → motive expr) (expr : Expr) :
    motive expr :=
  step expr fun child _ => byChildren step child
termination_by sizeOf expr
decreasing_by exact sizeOf_lt_of_mem_children ‹_›

/-- **Moving twice is moving once by both.** -/
theorem moved_moved (first second : Nat → Nat) (expr : Expr) :
    (expr.moved first).moved second = expr.moved (second ∘ first) := by
  induction expr using byChildren with
  | step expr ih =>
    rw [moved_eq second, moved_eq (second ∘ first), form_moved, span_moved, Form.map_map,
      Form.map_congr ih]
    rfl

/-- **Moving nowhere changes nothing.** -/
theorem moved_id (expr : Expr) : expr.moved id = expr := by
  induction expr using byChildren with
  | step expr ih =>
    obtain ⟨form, span⟩ := expr
    have same : form.map (moved id) = form.map fun child => child := Form.map_congr ih
    rw [moved_node, same, Form.map_id]
    rfl

end Expr

end DaxScript
