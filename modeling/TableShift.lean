import TableShift.Main
import TableShift.Proofs.Relocation
import TableShift.Proofs.Reversal
import TableShift.Store.Tree
import TableShift.Proofs.Boundary
import TableShift.Proofs.Isolation
import TableShift.Proofs.Groups
import TableShift.Proofs.Spelling
import TableShift.Proofs.ColumnAgreement
import TableShift.Proofs.KeyAgreement
import TableShift.Proofs.BatchRuns
import TableShift.Proofs.TokenShapes
import TableShift.Proofs.Tiling
import TableShift.Proofs.CanonicalTables
import TableShift.Proofs.Remarks
import TableShift.Proofs.TreeViews
import TableShift.Proofs.WellFormed
import TableShift.Proofs.WriteAll
import TableShift.Proofs.TableNames
import TableShift.Proofs.ClauseNames
import TableShift.Proofs.ClauseTexts
import TableShift.Proofs.Qualifiers
import TableShift.Proofs.Calendar
import TableShift.Proofs.FileNames
import TableShift.Proofs.RecordReading
import TableShift.Proofs.Squeezing
import TableShift.Proofs.ImportRuns
import TableShift.Proofs.DroppedKeys
import TableShift.Proofs.KeyParts
import TableShift.Proofs.NumericDefaults
import TableShift.Proofs.CompoundDefaults
import TableShift.Proofs.ClausePairs
import TableShift.Proofs.PrimaryKeys
import TableShift.Proofs.GroupInsides
import TableShift.Proofs.Placeholders
import TableShift.Proofs.QuotedText
import TableShift.Proofs.PrintedStrings
import TableShift.Proofs.UnbrokenLines
import TableShift.Proofs.Indentation
import TableShift.Proofs.LexicalErrors
import TableShift.Proofs.ErrorPositions
import TableShift.Proofs.CanonicalModifiers
import TableShift.Proofs.LetterCase
import TableShift.Proofs.Quotation
import TableShift.Proofs.Recasing
import TableShift.Proofs.Nesting
import TableShift.Proofs.CompoundRuns
import TableShift.Proofs.CommandLines
