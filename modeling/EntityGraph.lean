import EntityGraph.Main
import EntityGraph.Proofs.Store.Quantified
import EntityGraph.Proofs.Filter.Accepted
import EntityGraph.Proofs.Store.EitherEnd
import EntityGraph.Proofs.Store.Integrity
import EntityGraph.Proofs.Store.Declared
import EntityGraph.Proofs.Schema.Mutual
import EntityGraph.Proofs.Condition.Unambiguous
import EntityGraph.Proofs.Store.BatchOrder
import EntityGraph.Proofs.Store.Unchanged
import EntityGraph.Proofs.Graph.Scoping
import EntityGraph.Proofs.Node.AtMostOne
import EntityGraph.Proofs.Store.Reloading
import EntityGraph.Proofs.Dataset.Drafting
import EntityGraph.Proofs.Dataset.Loading
import EntityGraph.Proofs.Dataset.Restating
import EntityGraph.Proofs.Node.Operations
import EntityGraph.Proofs.Store.Moving
import EntityGraph.Proofs.Store.LoadingBothEnds
import EntityGraph.Proofs.Store.ReadingBack
import EntityGraph.Proofs.Filter.Typed
import EntityGraph.Proofs.Filter.Culprit
import EntityGraph.Proofs.Schema.Valid
import EntityGraph.Proofs.Node.Registering
import EntityGraph.Proofs.Filter.Complete
import EntityGraph.Proofs.Filter.Listed
import EntityGraph.Proofs.Condition.Json
import EntityGraph.Proofs.Condition.Literals
import EntityGraph.Proofs.Value.Comparing
