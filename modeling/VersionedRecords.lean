import VersionedRecords.Exchange.Description
import VersionedRecords.Exchange.Document
import VersionedRecords.Exchange.Recipe
import VersionedRecords.Exchange.Schema
import VersionedRecords.Expansion.Program
import VersionedRecords.Main
import VersionedRecords.Orders.Instant
import VersionedRecords.Orders.Journal
import VersionedRecords.Orders.Total
import VersionedRecords.Proofs.Accumulating
import VersionedRecords.Proofs.Copies
import VersionedRecords.Proofs.Deletion
import VersionedRecords.Proofs.DiffingInto
import VersionedRecords.Proofs.Emission
import VersionedRecords.Proofs.Exactness
import VersionedRecords.Proofs.Expansion.Descriptions
import VersionedRecords.Proofs.Expansion.FunctionNames
import VersionedRecords.Proofs.FindingAgain
import VersionedRecords.Proofs.Framing
import VersionedRecords.Proofs.Obtaining
import VersionedRecords.Proofs.Opening
import VersionedRecords.Proofs.Orders.Batches
import VersionedRecords.Proofs.Orders.CatchUp
import VersionedRecords.Proofs.Orders.Convergence
import VersionedRecords.Proofs.Orders.LineEdits
import VersionedRecords.Proofs.Orders.Overlap
import VersionedRecords.Proofs.Orders.Redelivery
import VersionedRecords.Proofs.Orders.Totals
import VersionedRecords.Proofs.References
import VersionedRecords.Proofs.Refusals
import VersionedRecords.Proofs.Regrouping
import VersionedRecords.Proofs.Replaying
import VersionedRecords.Proofs.Schema.Containment
import VersionedRecords.Proofs.Schema.Keywords
import VersionedRecords.Proofs.Schema.ModuleNames
import VersionedRecords.Proofs.Schema.Paths
import VersionedRecords.Proofs.Sparing
import VersionedRecords.Proofs.Unedited
import VersionedRecords.Proofs.Unforged
import VersionedRecords.Samples
