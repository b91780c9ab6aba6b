import DaxScript.Proofs.MeasureNames
import DaxScript.Proofs.Script.ReachedMeasures
import DaxScript.Proofs.Script.TableChange

/-!
# Scripts with another table for a measure

With another word for the table of a measure that counts a script is read in the same turns.  There
are three kinds of them: turns in front of the one with the measure, which leave the other table
where they left the table (`TableChange.turn_inFront`), the turn with the measure
(`TableChange.turn_here`), and turns behind it, which begin behind the table
(`TableChange.turn_behind`).

What is left by a turn is related to what is left with the other word (`TableChange.Related`), and
the same happens in the next turn (`TableChange.Related.turn`).  So everything is recorded in the
same way, but for the measure and for the places (`TableChange.readOn`,
`TableChange.continues_moved`).
-/

set_option autoImplicit false

namespace DaxScript

open Production

namespace TableChange

/-! ## Turns with the other table -/

variable {change : TableChange}

/-- Measures among tokens on one side of the table are the same in their new places. -/
theorem ofClause_of_texts {tokens : List Token}
    {measures : List (List Keyword × MeasureClause)} (texts : Rule.MeasureTexts tokens measures)
    (ordered : InOrder tokens) (solid : ∀ token ∈ tokens, token.span.start < token.span.stop)
    (aside : (∀ token ∈ tokens, token.span.stop ≤ change.table.span.start) ∨
      ∀ token ∈ tokens, change.table.span.stop ≤ token.span.start)
    {words : List Keyword} {clause : MeasureClause} (member : (words, clause) ∈ measures) :
    Measure.ofClause change.moved (change.relocation.clause clause) =
      change.measure (Measure.ofClause change.source clause) := by
  obtain ⟨before, own, after, rfl, text⟩ := texts.exists_of_mem member
  have ownOrdered := ordered.right.left
  have ownSolid : ∀ token ∈ own, token.span.start < token.span.stop :=
    fun token isOwn => solid token (by simp [isOwn])
  obtain ⟨starts, forward⟩ := text.body_within ownOrdered ownSolid
  refine ofClause_aside starts forward ?_
  obtain ⟨first, last, head, tail, covered⟩ := text.covers ownOrdered
  rw [covered]
  refine aside.imp (fun inFront => ?_) fun behind => ?_
  · exact inFront last (by simp [List.mem_of_getLast? tail])
  · exact behind first (by simp [List.mem_of_mem_head? head])

/-- The measures of a statement with the other table are the same in their new places, but for the
one that has the other table. -/
theorem ofClause_of_stands {words : List Keyword} {before behind : List Token}
    {clause : MeasureClause} {front back : List MeasureClause}
    (stands : Rule.TableStands words before behind front clause back)
    (ordered : InOrder (before ++ change.table :: behind))
    (solid : ∀ token ∈ before ++ change.table :: behind, token.span.start < token.span.stop) :
    ∀ clause' ∈ front ++ clause.withTable change.other :: back,
      Measure.ofClause change.moved (change.relocation.clause clause') =
        change.measure (Measure.ofClause change.source clause') := by
  intro clause' member
  have split : InOrder ([change.table] ++ behind) := ordered.right
  rcases List.mem_append.mp member with isFront | member
  · refine ofClause_of_texts stands.inFront ordered.left (fun token isUsed => solid token ?_)
      (.inl fun token isUsed => ordered.stop_le isUsed (.head _)) (List.mem_map_of_mem isFront)
    exact List.mem_append_left _ isUsed
  · rcases List.mem_cons.mp member with rfl | isBack
    · obtain ⟨starts, body, forward⟩ := stands.around ordered solid
      rw [ofClause_other starts body forward, measure_withTable starts body forward]
    · refine ofClause_of_texts stands.behind split.right (fun token isUsed => solid token ?_)
        (.inr fun token isUsed => split.stop_le (.head _) isUsed) (List.mem_map_of_mem isBack)
      exact List.mem_append_right _ (.tail _ isUsed)

section Turns

variable {finish : Position} {clause : MeasureClause} {first : Token}
  {rest before after : List Token}

/-- A turn behind the table goes in the same way. -/
theorem turn_behind (ordered : InOrder (change.table :: after))
    (solid : ∀ token ∈ after, token.span.start < token.span.stop) (left : first :: rest <:+ after) :
    Turn.ofTokens change.moved (change.relocation.position finish) (change.relocation.token first)
        (rest.map change.relocation.token) =
      change.relocation.turn change.measure (Turn.ofTokens change.source finish first rest) := by
  refine Relocation.ofTokens_map_of_measures finish first rest
    fun statement found clause member => ?_
  obtain ⟨used, later, cut, reading⟩ := exists_rule_of_mem found member
  have among : ∀ token ∈ used, token ∈ after := by
    intro token isUsed
    refine left.subset ?_
    rw [cut]
    exact List.mem_append_left _ isUsed
  have usedOrdered : InOrder used := by
    obtain ⟨earlier, rfl⟩ := left
    have inner := ordered.tail.right
    rw [cut] at inner
    exact inner.left
  have split : InOrder ([change.table] ++ after) := ordered
  exact ofClause_of_texts reading.measureTexts usedOrdered
    (fun token isUsed => solid token (among token isUsed))
    (.inr fun token isUsed => split.stop_le (.head _) (among token isUsed))
    (List.mem_map_of_mem member)

/-- **A turn in front of that with the measure goes in the same way**, and leaves the other table
where it leaves the table. -/
theorem turn_inFront {used inner : List Token} {token : Token}
    (ordered : InOrder (first :: (used ++ token :: (inner ++ change.table :: after))))
    (solid : ∀ token ∈ first :: used, token.span.start < token.span.stop)
    (right : (statementAt? first (used ++ token :: (inner ++ change.table :: after))).isSome = true)
    (leaves : (Turn.ofTokens change.source finish first
      (used ++ token :: (inner ++ change.table :: after))).rest =
        token :: (inner ++ change.table :: after)) :
    Turn.ofTokens change.moved (change.relocation.position finish) (change.relocation.token first)
        ((used ++ token :: (inner ++ change.other :: after)).map change.relocation.token) =
      ⟨(Turn.ofTokens change.source finish first
          (used ++ token :: (inner ++ change.table :: after))).moments.map
            (change.relocation.moment change.measure),
        (token :: (inner ++ change.other :: after)).map change.relocation.token⟩ := by
  have sameLength : (inner ++ change.other :: after).length =
      (inner ++ change.table :: after).length := by simp
  have exchanged := Turn.ofTokens_exchange right leaves sameLength
  have split : InOrder ((first :: used) ++ (token :: (inner ++ change.table :: after))) := ordered
  rw [Relocation.ofTokens_map_of_measures finish first _ ?_, exchanged]
  · rfl
  -- The measures of this turn stand among the tokens that are read in it.
  intro statement found clause member
  obtain ⟨own, left, cut, reading⟩ := exists_rule_of_mem found member
  obtain ⟨_, _, rfl, noSign⟩ := reading.exists_first
  obtain ⟨rfl, cut'⟩ := List.cons.inj cut
  rw [Turn.ofTokens_of_rule noSign cut reading] at exchanged
  obtain rfl : left = token :: (inner ++ change.other :: after) := congrArg Turn.rest exchanged
  obtain rfl := List.append_cancel_right cut'
  refine ofClause_of_texts reading.measureTexts split.left solid (.inl fun token isUsed => ?_)
    (List.mem_map_of_mem member)
  exact split.stop_le isUsed (by simp)

/-- **The turn with the measure goes in the same way**, but for the measure. -/
theorem turn_here {used left : List Token} {statement : Statement}
    (ordered : InOrder (used ++ left)) (solid : ∀ token ∈ used, token.span.start < token.span.stop)
    (reading : Rule.Statement used statement (nextKind left)) (member : clause ∈ statement.measures)
    (isTable : clause.table = change.table) :
    ∃ first before behind, used = first :: (before ++ change.table :: behind) ∧
      (Turn.ofTokens change.source finish first
        (before ++ change.table :: (behind ++ left))).rest = left ∧
      Turn.ofTokens change.moved (change.relocation.position finish) (change.relocation.token first)
          ((before ++ change.other :: (behind ++ left)).map change.relocation.token) =
        ⟨(Turn.ofTokens change.source finish first
            (before ++ change.table :: (behind ++ left))).moments.map
              (change.relocation.moment change.measure),
          left.map change.relocation.token⟩ := by
  obtain ⟨before, behind, front, back, rfl, measures, stands, exchange⟩ := reading.exchange member
  obtain ⟨other, otherMeasures, otherReading⟩ := exchange change.other change.named
  obtain ⟨first, before, rfl⟩ := List.exists_cons_of_ne_nil stands.before_ne_nil
  rw [isTable] at reading ordered solid ⊢
  obtain ⟨_, _, same, noSign⟩ := reading.exists_first
  obtain ⟨rfl, _⟩ := List.cons.inj same
  have cut (table : Token) : first :: (before ++ table :: (behind ++ left)) =
      (first :: before ++ table :: behind) ++ left := by simp
  have read := @Turn.ofTokens_of_rule change.source finish _ _ _ _ _ noSign (cut change.table)
    reading
  refine ⟨first, before, behind, rfl, by rw [read]; rfl, ?_⟩
  have around := stands.around ordered.left solid
  -- Only the measure itself is another one.
  have goes : Turn.ofTokens change.moved (change.relocation.position finish)
        (change.relocation.token first)
        ((before ++ change.other :: (behind ++ left)).map change.relocation.token) =
      change.relocation.turn change.measure
        (Turn.ofTokens change.source finish first
          (before ++ change.other :: (behind ++ left))) := by
    refine Relocation.ofTokens_map_of_measures finish first _ fun statement' found => ?_
    rw [statementAt?_of_yields (yields_statement_of_rule (cut change.other) otherReading)] at found
    obtain rfl := Option.some.inj found
    rw [otherMeasures]
    exact ofClause_of_stands stands ordered.left solid
  have sameMoment : change.relocation.moment change.measure
        (Turn.definition change.source other left) =
      change.relocation.moment change.measure
        (Turn.definition change.source statement left) := by
    have own : change.relocation.event change.measure
          (.defined (.ofClause change.source (clause.withTable change.other))) =
        change.relocation.event change.measure (.defined (.ofClause change.source clause)) :=
      congrArg Event.defined (measure_withTable around.1 around.2.1 around.2.2 change.other)
    simp only [Relocation.moment, Turn.definition, Event.definitions, otherMeasures, measures,
      List.map_append, List.map_cons, own]
  rw [goes, read, Turn.ofTokens_of_rule noSign (cut change.other) otherReading]
  simp only [Relocation.turn, Turn.lookingAt, List.map_cons, List.map_nil, sameMoment,
    List.length_append, List.length_cons]

end Turns

/-! ## All turns with the other table -/

/-- What is left of a text, and of the text with the other table: reading comes to the measure, or
the table stands in front of all that is left. -/
inductive Related (change : TableChange) (finish : Position) (clause : MeasureClause)
    (tokens after left others : List Token) : Prop where
  | inFront {before : List Token} (suffix : left <:+ tokens)
      (reaches : Turn.Reaches change.source finish clause left)
      (same : left = before ++ change.table :: after)
      (exchanged : others = (before ++ change.other :: after).map change.relocation.token)
  | behind (suffix : left <:+ after) (moved : others = left.map change.relocation.token)

section Turns

variable {finish : Position} {clause : MeasureClause} {front after : List Token}
  (ordered : InOrder (front ++ change.table :: after))
  (solid : ∀ token ∈ front ++ change.table :: after, token.span.start < token.span.stop)
include ordered solid

/-- The table stands in one place only. -/
theorem split_table {left before behind before' behind' : List Token}
    (suffix : left <:+ front ++ change.table :: after)
    (same : left = before ++ change.table :: behind)
    (same' : left = before' ++ change.table :: behind') : before = before' ∧ behind = behind' := by
  have apart := (ordered.apart.imp_of_mem fun inFront _ stop =>
    Nat.lt_of_lt_of_le (solid _ inFront) stop).sublist suffix.sublist
  rw [same] at apart same'
  obtain ⟨sameBefore, _, sameBehind⟩ := split_unique apart same' rfl
  exact ⟨sameBefore, sameBehind⟩

/-- **In related texts the same happens in a turn, and what it leaves is related.** -/
theorem Related.turn (isTable : clause.table = change.table) {first : Token}
    {rest others : List Token}
    (related : Related change finish clause (front ++ change.table :: after) after (first :: rest)
      others) :
    ∃ other later, others = other :: later ∧
      (Turn.ofTokens change.moved (change.relocation.position finish) other later).moments =
        (Turn.ofTokens change.source finish first rest).moments.map
          (change.relocation.moment change.measure) ∧
      Related change finish clause (front ++ change.table :: after) after
        (Turn.ofTokens change.source finish first rest).rest
        (Turn.ofTokens change.moved (change.relocation.position finish) other later).rest := by
  cases related with
  | behind suffix moved =>
    subst moved
    have goes := @turn_behind change finish first rest after ordered.right
      (fun token member => solid token (by simp [member])) suffix
    rw [List.map_cons]
    refine ⟨_, _, rfl, by rw [goes]; rfl, ?_⟩
    rw [goes]
    exact .behind ((Turn.course _ finish first rest).rest_suffix.trans suffix) rfl
  | @inFront before suffix reaches same exchanged =>
    subst exchanged
    obtain ⟨earlier, whole⟩ := id suffix
    have own : InOrder (first :: rest) := by
      rw [← whole] at ordered
      exact ordered.right
    have ownSolid : ∀ token ∈ first :: rest, token.span.start < token.span.stop :=
      fun token member => solid token (suffix.subset member)
    cases reaches with
    | @here _ _ used left statement cut reading member =>
      rw [cut] at own ownSolid
      obtain ⟨first', before', behind', rfl, leaves, goes⟩ := @turn_here change finish clause _ _ _
        own (fun token isUsed => ownSolid token (List.mem_append_left _ isUsed)) reading member
        isTable
      have tokens : first :: rest = first' :: (before' ++ change.table :: (behind' ++ left)) := by
        rw [cut]
        simp
      have place : before = first' :: before' ∧ after = behind' ++ left :=
        split_table ordered solid suffix same tokens
      obtain ⟨rfl, rfl⟩ := place
      obtain ⟨rfl, rfl⟩ := List.cons.inj tokens
      rw [List.cons_append, List.map_cons]
      refine ⟨_, _, rfl, by rw [goes], ?_⟩
      rw [goes, leaves]
      exact .behind (List.suffix_append _ _) rfl
    | later right behind =>
      obtain ⟨used, token, inner, after', isRest, leaves⟩ := behind.exists_left
      rw [isTable] at isRest leaves
      have place : before = first :: (used ++ token :: inner) ∧ after = after' :=
        split_table ordered solid suffix same (by rw [isRest]; simp)
      obtain ⟨rfl, rfl⟩ := place
      subst isRest
      have goes := turn_inFront own
        (fun token member => ownSolid token (List.mem_append_left _ member)) right leaves
      have later := (Turn.course change.source finish first _).rest_suffix.trans suffix
      rw [List.cons_append, List.map_cons, List.append_assoc, List.cons_append]
      refine ⟨_, _, rfl, by rw [goes], ?_⟩
      rw [goes]
      exact @Related.inFront _ _ _ _ _ _ _ (token :: inner) later behind leaves rfl

/-- **The text with the other table is recorded in the same way**, but for the measure with that
table. -/
theorem readOn (isTable : clause.table = change.table)
    (reaches : Turn.Reaches change.source finish clause (front ++ change.table :: after))
    {earlier : List Measure} {alone joined : Recording}
    (continues : Relocation.Continues change.relocation change.measure earlier alone joined)
    (faults : List (List Diagnostic)) :
    Relocation.Continues change.relocation change.measure earlier
      (alone.readOn change.source finish faults (front ++ change.table :: after))
      (joined.readOn change.moved (change.relocation.position finish)
        (faults.map (List.map change.relocation.diagnostic))
        ((front ++ change.other :: after).map change.relocation.token)) := by
  refine Relocation.Continues.readOn_of_related
    (Related change finish clause (front ++ change.table :: after) after) ?_
    (fun first rest others related => related.turn ordered solid isTable) continues faults
    (.inFront (List.suffix_refl _) reaches rfl rfl)
  intro others related
  cases related with
  | inFront _ _ same => simp at same
  | behind _ moved => exact moved

end Turns

/-! ## Sources with the other table -/

section Sources

variable {source : String} {table : Token} {front behind : List Piece}
  (around : Piece.Around source.toList table front behind)
  {keyword : Keyword} {word : String} (spelled : Keyword.ofWord? word = some keyword)
include spelled

/-- **With a keyword for the table of a measure that counts a script is recorded as before**, but
for that measure and for the places. -/
theorem continues_moved {options : ScriptOptions} {words : List Keyword} {clause : MeasureClause}
    (member : (words, clause) ∈
      (StatementReport.counted source options).flatMap (·.openedMeasures))
    (isTable : clause.table = table) :
    let change := ofAround around keyword word
    Relocation.Continues change.relocation change.measure [] (readScript source options)
      (readScript (String.ofList change.moved) options) := by
  intro change
  have reaches := StatementReport.reaches_of_counted
    (Between.ofSource source options.maxErrors) member
  have ordered := Input.inOrder_tokens source
  have solid := @Input.start_lt_stop source
  have start : Relocation.Continues change.relocation change.measure []
      (Recording.withLimit options.maxErrors) (Recording.withLimit options.maxErrors) := ⟨rfl, rfl⟩
  have same : change.source = source.toList := around.eq_text.symm
  rw [readScript_eq_readOn, readScript_eq_readOn, tokens_moved around spelled,
    faults_moved around spelled, finish_moved, String.toList_ofList]
  have cut := (Input.tokens_ofSource source).trans around.tokens_eq
  rw [cut, ← same] at reaches
  rw [cut] at ordered solid ⊢
  have recorded := readOn ordered (fun _ => solid) isTable reaches start
    (Input.ofSource source).faults
  rwa [same] at recorded

end Sources

end TableChange

end DaxScript
