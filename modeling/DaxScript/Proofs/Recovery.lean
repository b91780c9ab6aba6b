import DaxScript.Proofs.ErrorLimit
import DaxScript.Proofs.Script.Resuming
import DaxScript.Proofs.ScriptComposition

/-!
# Errors stay inside of their statements

A statement that is refused is passed over up to its end, and what stands behind it is read as if
nothing had happened.  So what is wrong with a script that is put together from two scripts with a
semicolon between them is what is wrong with the first one, and then what is wrong with the second
one, further down, as long as the first one closes all its parentheses and braces.

This is so exactly for the scripts no statement of which is refused for its semicolon after having
read it (`recovers_iff`).  There are some: a measure without a name takes the semicolon for its
name, and a statement behind it for its rest (`not_recovers_name`).
-/

set_option autoImplicit false

namespace DaxScript

/-! ## What is told of sources without faults -/

/-- Where nothing is wrong with the text, what is told is what the statements are refused for. -/
theorem Turn.diagnostics_allEvents_of_silent {faults : List (List Diagnostic)} (turns : List Turn)
    (silent : faults.flatten = []) :
    (allEvents faults turns).flatten.flatMap Event.diagnostics = turns.flatMap told := by
  induction turns generalizing faults with
  | nil => rfl
  | cons turn turns ih =>
    obtain ⟨now, later⟩ := @events_of_silent _ turn.moments silent
    rw [allEvents, List.flatten_cons, List.flatMap_append, now, ih later]
    rfl

theorem toldDiagnostics_of_sound {source : String} (sound : lexicalDiagnostics source = []) :
    toldDiagnostics source = Turn.allTold source.toList (Input.ofSource source).finish
      (Input.ofSource source).tokens := by
  rw [lexicalDiagnostics_eq, ← Input.faults_ofSource] at sound
  exact Turn.diagnostics_allEvents_of_silent _ sound

/-- The refusals of a source, statement by statement. -/
def refusals (source : String) : List Refusal :=
  Turn.refusals source.toList (Input.ofSource source).finish (Input.ofSource source).tokens

/-- A semicolon on a line of its own between two sources is a token between theirs. -/
theorem Input.exists_sign {first : String} (soundFirst : lexicalDiagnostics first = [])
    (second : String) :
    let place := Relocation.behindLines (first ++ "\n;\n").toList
    ∃ sign : Token, sign.kind = .symbol .semicolon ∧
      (ofSource (first ++ "\n;\n")).tokens = (ofSource first).tokens ++ [sign] ∧
      (ofSource (first ++ "\n;\n" ++ second)).tokens =
        (ofSource first).tokens ++ sign :: (ofSource second).tokens.map place.token ∧
      (ofSource (first ++ "\n;\n" ++ second)).finish = place.position (ofSource second).finish ∧
      (lexicalDiagnostics second = [] → lexicalDiagnostics (first ++ "\n;\n" ++ second) = []) := by
  have lines : first ++ "\n;\n" = first ++ "\n;" ++ "\n" := by
    rw [String.append_assoc]
    rfl
  obtain ⟨sound, sign, isSign, signed⟩ :=
    ofSource_semicolon (lexicalDiagnostics_eq_nil_iff.mp soundFirst)
  obtain ⟨tokens, faults, finish⟩ := ofSource_append sound second
  obtain ⟨ended, _, _⟩ := ofSource_append sound ""
  have nothing : (ofSource "").tokens = [] := by
    simp [tokens_ofSource, Piece.all, Piece.tokens]
  rw [String.append_empty] at ended
  rw [lines]
  refine ⟨sign, isSign, ?_, ?_, finish, fun soundSecond => ?_⟩
  · rw [ended, nothing, signed]
    exact List.append_nil _
  · rw [tokens, signed, List.append_assoc]
    rfl
  · rw [lexicalDiagnostics_eq, ← faults_ofSource] at soundSecond ⊢
    rw [faults, List.flatten_append, List.flatten_replicate_nil, ← List.map_flatten, soundSecond]
    rfl

section Semicolon

variable {first second : String} (soundFirst : lexicalDiagnostics first = [])
  (balanced : isBalanced 0 ((Input.ofSource first).tokens.map (·.kind)) = true)
  (soundSecond : lexicalDiagnostics second = [])
include soundFirst balanced soundSecond

/-- **What is wrong with two scripts**, the first one up to a semicolon, is what is wrong with the
first one and what is wrong with the second one; or with what is left of it behind its first
statement, if a statement of the first one has read the semicolon. -/
theorem toldDiagnostics_semicolon :
    toldDiagnostics (first ++ "\n;\n" ++ second) = toldDiagnostics (first ++ "\n;\n") ++
      (if ∀ refusal ∈ refusals (first ++ "\n;\n"), refusal.unread ≠ 0 then toldDiagnostics second
        else Turn.allTold second.toList (Input.ofSource second).finish
          (Turn.pass 0 (Input.ofSource second).tokens).2).map
        (Relocation.behindLines (first ++ "\n;\n").toList).diagnostic := by
  obtain ⟨sign, isSign, signed, tokens, finish, sound⟩ := Input.exists_sign soundFirst second
  have soundEnded : lexicalDiagnostics (first ++ "\n;\n") = [] := by
    obtain ⟨_, _, _, _, _, sound⟩ := Input.exists_sign soundFirst ""
    rw [String.append_empty] at sound
    exact sound (lexicalDiagnostics_eq_nil_iff.mpr (by simp [Piece.all]))
  have carries := Relocation.ofClause_clause
    (Relocation.keepsTexts_behindLines (first ++ "\n;\n") second)
  have joins := Turn.allTold_semicolon isSign balanced
    ((Input.ofSource second).tokens.map (Relocation.behindLines (first ++ "\n;\n").toList).token)
    (first ++ "\n;\n").toList (first ++ "\n;\n" ++ second).toList
    (Input.ofSource (first ++ "\n;\n")).finish (Input.ofSource (first ++ "\n;\n" ++ second)).finish
  rw [toldDiagnostics_of_sound (sound soundSecond), toldDiagnostics_of_sound soundEnded,
    toldDiagnostics_of_sound soundSecond, tokens, signed, joins, refusals, signed, finish]
  refine congrArg _ ?_
  split
  · exact Turn.allTold_map carries _ _
  · rw [Relocation.pass_map]
    exact Turn.allTold_map carries _ _

end Semicolon

/-! ## What is kept when nothing is dropped -/

theorem items_of_length_le {source : String} {options : ScriptOptions}
    (fits : (toldDiagnostics source).length ≤ max options.maxErrors 1) :
    (readScript source options).collector.items = toldDiagnostics source := by
  rw [collector_readScript]
  exact List.take_of_length_le fits

theorem isComplete_iff {source : String} {options : ScriptOptions} :
    (readScript source options).isComplete = true ↔
      (toldDiagnostics source).length ≤ max options.maxErrors 1 := by
  rw [Recording.isComplete, collector_readScript, Bool.not_eq_true', decide_eq_false_iff_not,
    Nat.not_lt]

/-- The diagnostics of two scripts with a semicolon between them are those of the first one, up to
the semicolon, and behind them those of the second one, further down. -/
def Recovers (first second : String) (options : ScriptOptions) : Prop :=
  (readScript (first ++ "\n;\n" ++ second) options).collector.items =
    (readScript (first ++ "\n;\n") options).collector.items ++
      (readScript second options).collector.items.map
        (Relocation.behindLines (first ++ "\n;\n").toList).diagnostic

/-- **Errors stay inside of their statements** exactly in the scripts no statement of which is
refused for its semicolon after having read it: whatever stands behind such a script and a semicolon
is read as if it stood alone, as long as nothing has to be dropped. -/
theorem recovers_iff (first : String) (soundFirst : lexicalDiagnostics first = [])
    (balanced : isBalanced 0 ((Input.ofSource first).tokens.map (·.kind)) = true) :
    (∀ second options, lexicalDiagnostics second = [] →
        (readScript (first ++ "\n;\n" ++ second) options).isComplete = true →
        Recovers first second options) ↔
      ∀ refusal ∈ refusals (first ++ "\n;\n"), refusal.unread ≠ 0 := by
  constructor
  · intro recovers
    by_contra swallows
    -- A sign that begins a statement of its own is passed over behind a statement that goes on.
    have soundSign : lexicalDiagnostics "=" = [] := by decide +kernel
    have alone : (toldDiagnostics "=").length = 1 := by decide +kernel
    have passed : (Turn.pass 0 (Input.ofSource "=").tokens).2 = [] := by decide +kernel
    have told := toldDiagnostics_semicolon soundFirst balanced soundSign
    rw [if_neg swallows, passed, Turn.allTold_nil, List.map_nil, List.append_nil] at told
    let options : ScriptOptions := ⟨(toldDiagnostics (first ++ "\n;\n")).length + 1⟩
    have fits : (toldDiagnostics (first ++ "\n;\n")).length ≤ max options.maxErrors 1 :=
      (Nat.le_succ _).trans (Nat.le_max_left _ 1)
    have fitsWhole : (toldDiagnostics (first ++ "\n;\n" ++ "=")).length ≤
        max options.maxErrors 1 := by
      rw [told]
      exact fits
    have same := recovers "=" options soundSign (isComplete_iff.mpr fitsWhole)
    rw [Recovers, items_of_length_le fits, items_of_length_le fitsWhole,
      items_of_length_le (alone.trans_le (Nat.le_max_right _ 1)), told] at same
    have lengths := congrArg List.length same
    rw [List.length_append, List.length_map, alone] at lengths
    omega
  · intro kept second options soundSecond complete
    have told := toldDiagnostics_semicolon soundFirst balanced soundSecond
    rw [if_pos kept] at told
    have fits := isComplete_iff.mp complete
    have lengths := congrArg List.length told
    rw [List.length_append, List.length_map] at lengths
    rw [Recovers, items_of_length_le fits, told, items_of_length_le (by omega),
      items_of_length_le (by omega)]

/-- A measure whose expression breaks off inside of its parentheses. -/
theorem recovers_iff_operand :
    let first := "CREATE MEASURE t[a] = (1 +)"
    lexicalDiagnostics first = [] ∧
      isBalanced 0 ((Input.ofSource first).tokens.map (·.kind)) = true ∧
      (refusals (first ++ "\n;\n")).length = 1 ∧
      ∀ second options, lexicalDiagnostics second = [] →
        (readScript (first ++ "\n;\n" ++ second) options).isComplete = true →
        Recovers first second options := by
  intro first
  have soundFirst : lexicalDiagnostics first = [] := by decide +kernel
  have balanced : isBalanced 0 ((Input.ofSource first).tokens.map (·.kind)) = true := by
    decide +kernel
  have kept : ∀ refusal ∈ refusals (first ++ "\n;\n"), refusal.unread ≠ 0 := by decide +kernel
  exact ⟨soundFirst, balanced, by decide +kernel, (recovers_iff first soundFirst balanced).mpr kept⟩

/-- A measure without a name takes the semicolon for its name, and the statement behind it is passed
over. -/
theorem not_recovers_name :
    let first := "CREATE MEASURE"
    let second := "= 1 2"
    lexicalDiagnostics first = [] ∧
      isBalanced 0 ((Input.ofSource first).tokens.map (·.kind)) = true ∧
      lexicalDiagnostics second = [] ∧
      (readScript (first ++ "\n;\n" ++ second) {}).isComplete = true ∧
      ¬Recovers first second {} := by
  refine ⟨by decide +kernel, by decide +kernel, by decide +kernel, by decide +kernel, ?_⟩
  unfold Recovers
  decide +kernel

end DaxScript
