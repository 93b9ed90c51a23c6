import DashCalc.Main
import DashCalc.Proofs.Reference.Edges
import DashCalc.Proofs.Reference.Cycles
import DashCalc.Proofs.Reference.Ordering
import DashCalc.Proofs.Reference.Recording
import DashCalc.Proofs.Cost.Pass
import DashCalc.Proofs.Cost.Unroll
import DashCalc.Proofs.Cost.Additivity
import DashCalc.Proofs.Cost.Entries
import DashCalc.Proofs.Cost.Deduplication
import DashCalc.Proofs.Cost.Recurrence
import DashCalc.Proofs.Cost.Skipping
import DashCalc.Proofs.Cost.Agreement
import DashCalc.Proofs.Cost.Termination
import DashCalc.Proofs.Cost.Balance
import DashCalc.Proofs.Cost.Entering
import DashCalc.Proofs.Cost.Coverage
import DashCalc.Proofs.Cost.Restoring
import DashCalc.Proofs.Node.Numbering
import DashCalc.Proofs.Node.Unnumbered
import DashCalc.Proofs.Json.Records
import DashCalc.Proofs.Json.Dictionaries
import DashCalc.Proofs.Node.Decoding
import DashCalc.Proofs.Node.Columns
import DashCalc.Proofs.Node.Parts
import DashCalc.Proofs.Sql.Reading
import DashCalc.Proofs.Node.NamedReference
import DashCalc.Proofs.Request.Outcome
import DashCalc.Proofs.Request.Isolation
import DashCalc.Proofs.Request.Accounting
import DashCalc.Proofs.Request.Renumbering
import DashCalc.Proofs.Request.Chain
import DashCalc.Proofs.Request.CostingOrder
import DashCalc.Proofs.Request.CustomMetric
import DashCalc.Proofs.Request.Decoding
import DashCalc.Proofs.Request.Schedule
import DashCalc.Proofs.Hierarchy.Leaves
import DashCalc.Proofs.Hierarchy.Placement
import DashCalc.Proofs.Hierarchy.Filing
import DashCalc.Proofs.Hierarchy.Totals
import DashCalc.Proofs.Hierarchy.Paths
import DashCalc.Proofs.Hierarchy.RequestLeaves
import DashCalc.Proofs.Hierarchy.Rejection
import DashCalc.Proofs.Hierarchy.Arrival
import DashCalc.Proofs.Hierarchy.Orderly
import DashCalc.Proofs.Hierarchy.Lookup
import DashCalc.Proofs.Hierarchy.Counting
import DashCalc.Proofs.Hierarchy.Outliers
import DashCalc.Proofs.Formula.Arguments
import DashCalc.Proofs.Formula.Template
import DashCalc.Proofs.Formula.TemplateExpansion
import DashCalc.Proofs.Formula.QuotedRuns
import DashCalc.Proofs.Formula.Substitution
import DashCalc.Proofs.Formula.CallScan
import DashCalc.Proofs.Formula.CallPattern
import DashCalc.Proofs.Formula.Cutting
import DashCalc.Proofs.Formula.Branches
import DashCalc.Proofs.Catalog.Names
