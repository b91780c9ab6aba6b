import DaxScript.Script
import DaxScript.Outline
import DaxScript.Wire.Diagnostic
import DaxScript.Wire.Measure
import DaxScript.Wire.Script
import DaxScript.Proofs.FaithfulSpans
import DaxScript.Proofs.MeasuresBeforeErrors
import DaxScript.Proofs.ScriptComposition
import DaxScript.Proofs.LosslessTokens
import DaxScript.Proofs.Diagnostic.Limit
import DaxScript.Proofs.ErrorLimit
import DaxScript.Proofs.Grammar.OperatorTree
import DaxScript.Proofs.PrecedenceClimbing
import DaxScript.Proofs.Outline.TokenOutline
import DaxScript.Proofs.OutlineOfTokens
import DaxScript.Proofs.Grammar.Printing
import DaxScript.Proofs.Grammar.PrintedOperand
import DaxScript.Proofs.PrintedExpressions
import DaxScript.Proofs.TruePositions
import DaxScript.Proofs.StatelessTokens
import DaxScript.Proofs.WellFormedMeasures
import DaxScript.Proofs.MeasureRoundTrip
import DaxScript.Proofs.LayoutIndependence
import DaxScript.Proofs.PassedStatements
import DaxScript.Proofs.Script.Resuming
import DaxScript.Proofs.Recovery
import DaxScript.Proofs.Grammar.Nesting
import DaxScript.Proofs.Script.Portions
import DaxScript.Proofs.Outline.OpeningWords
import DaxScript.Proofs.Outline.Turns
import DaxScript.Proofs.OutlinedMeasures
import DaxScript.Proofs.Token.Faults
import DaxScript.Proofs.ExactDiagnostics
import DaxScript.Proofs.WellFormedOutline
import DaxScript.Proofs.Grammar.Blame
import DaxScript.Proofs.ToldOnce
import DaxScript.Proofs.Outline.Headers
import DaxScript.Proofs.OutlineLabels
import DaxScript.Proofs.WireRoundTrip
import DaxScript.Proofs.LosslessExpressions
import DaxScript.Proofs.Progress
import DaxScript.Proofs.RedundantParentheses
import DaxScript.Proofs.Grammar.Parts
import DaxScript.Proofs.Grammar.Shape
import DaxScript.Proofs.WellFormedExpressions
import DaxScript.Proofs.Grammar.Path
import DaxScript.Proofs.Grammar.Openers
import DaxScript.Proofs.NestingLimit
import DaxScript.Proofs.ExpressionHeight
import DaxScript.Proofs.QuotedTokens
import DaxScript.Proofs.MeasureNames
import DaxScript.Proofs.Grammar.Positions
import DaxScript.Proofs.Grammar.DataRows
import DaxScript.Proofs.Grammar.Neighbours
import DaxScript.Proofs.Grammar.Gaps
import DaxScript.Proofs.EmptyPositions
import DaxScript.Proofs.Token.Respelling
import DaxScript.Proofs.Grammar.TableNames
import DaxScript.Proofs.Grammar.MeasureTables
import DaxScript.Proofs.Script.TableChange
import DaxScript.Proofs.Script.ReachedMeasures
import DaxScript.Proofs.Script.MeasureTables
import DaxScript.Proofs.KeywordTables
import DaxScript.Proofs.KeptDiagnostics
import DaxScript.Proofs.Grammar.Attributes
import DaxScript.Proofs.Grammar.AttributeFaults
import DaxScript.Proofs.Script.TurnEvents
import DaxScript.Proofs.FormattingAttributes
import DaxScript.Proofs.Number.Rounding
import DaxScript.Proofs.AccuracyValues
import DaxScript.Proofs.Diagnostic.MessageLines
import DaxScript.Proofs.ReportLines
import DaxScript.Proofs.Text.Trim
import DaxScript.Proofs.OutlineHints
import DaxScript.Proofs.Script.Journal
import DaxScript.Proofs.FaithfulLog
import DaxScript.Proofs.NumberTokens
import DaxScript.Proofs.Outline.ByteCuts
import DaxScript.Proofs.LabelTexts
