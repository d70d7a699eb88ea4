import EntityMap.Execution.Printer
import EntityMap.Execution.Reader
import EntityMap.Main
import EntityMap.Write.Repository
import EntityMap.Proofs.Query.Invariant
import EntityMap.Proofs.Relation.Matching
import EntityMap.Proofs.Relation.SecondPhase
import EntityMap.Proofs.Write.Addressing
import EntityMap.Proofs.Write.Admissible
import EntityMap.Proofs.Write.Deletions
import EntityMap.Proofs.Write.Independence
import EntityMap.Proofs.Write.Keys
import EntityMap.Proofs.Write.Labels
import EntityMap.Proofs.Write.PartialSave
import EntityMap.Proofs.Write.Permissions
import EntityMap.Proofs.Write.Routing
import EntityMap.Proofs.Write.RowDeletion
import EntityMap.Proofs.Write.Termination
import EntityMap.Proofs.Write.Transaction
import EntityMap.Proofs.Write.WellFormed
import EntityMap.Proofs.Context.Navigation
import EntityMap.Proofs.Query.Sufficiency
import EntityMap.Proofs.Context.Drawn
import EntityMap.Proofs.Query.PathOrder
import EntityMap.Proofs.Query.JoinKinds
import EntityMap.Proofs.Sql.Alignment
import EntityMap.Proofs.Sql.Grammar
import EntityMap.Proofs.Sql.Rereading
import EntityMap.Proofs.Execution.Includes
import EntityMap.Proofs.Query.Stitching
import EntityMap.Proofs.Query.AllColumns
import EntityMap.Proofs.Query.FilterBinding
import EntityMap.Proofs.Query.Faults
import EntityMap.Proofs.Query.Replanning
import EntityMap.Proofs.Query.MemberColumns
import EntityMap.Proofs.Query.PathGrammar
import EntityMap.Proofs.Catalog.StoredIntegers
