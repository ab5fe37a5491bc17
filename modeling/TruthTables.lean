import TruthTables.Command.FileStore
import TruthTables.Main
import TruthTables.Proofs.Assignment.Digits
import TruthTables.Proofs.Assignment.Lookup
import TruthTables.Proofs.Enumeration.Calls
import TruthTables.Proofs.Expr.Obstacles
import TruthTables.Proofs.Expr.Printing
import TruthTables.Proofs.Forest.Unfolding
import TruthTables.Proofs.Formula.Judgement
import TruthTables.Proofs.Formula.Prediction
import TruthTables.Proofs.Formula.Text
import TruthTables.Proofs.Generator.Loading
import TruthTables.Proofs.Generator.Nesting
import TruthTables.Proofs.Postfix.Groups
import TruthTables.Proofs.Postfix.Layers
import TruthTables.Proofs.Postfix.Moments
import TruthTables.Proofs.Postfix.Order
import TruthTables.Proofs.Postfix.Parentheses
import TruthTables.Proofs.Postfix.Provenance
import TruthTables.Proofs.Postfix.Renaming
import TruthTables.Proofs.Problem.Decoration
import TruthTables.Proofs.Session.Composition
import TruthTables.Proofs.Session.Construction
import TruthTables.Proofs.Session.Declaration
import TruthTables.Proofs.Session.Evaluation
import TruthTables.Proofs.Session.Printing
import TruthTables.Proofs.Session.Spacing
import TruthTables.Proofs.Session.Tabulation
import TruthTables.Proofs.Session.Validity
import TruthTables.Proofs.Table.Layout
import TruthTables.Proofs.Table.Views
import TruthTables.Proofs.Text.Csv
import TruthTables.Proofs.Text.Trimming
