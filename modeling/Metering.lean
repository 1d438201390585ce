import Metering.Text.Span
import Metering.Text.Blank
import Metering.Attribute.Datum
import Metering.Attribute.Canonical
import Metering.Attribute.Display
import Metering.Attribute.Merge
import Metering.Trace.Base64
import Metering.Context
import Metering.Error
import Metering.Selector
import Metering.Resource.Environment
import Metering.Exporter.Text
import Metering.Processor.Checkpointer
import Metering.Controller
import Metering.Temporality
import Metering.Proofs.Attribute.LabelSet
import Metering.Proofs.Accumulator.Ledger
import Metering.Proofs.Accumulator.Novelty
import Metering.Proofs.Accumulator.Observed
import Metering.Proofs.Processor.Reference
import Metering.Proofs.Processor.Abort
import Metering.Proofs.Processor.Failure
import Metering.Proofs.Controller.Reduction
import Metering.Proofs.Controller.Cancellation
import Metering.Proofs.Controller.Eviction
import Metering.Proofs.Controller.Temporality
import Metering.Proofs.Trace.Wire
import Metering.Proofs.Controller.Brackets
import Metering.Proofs.Controller.Monotonic
import Metering.Proofs.Controller.Cumulative
import Metering.Proofs.Context.Derivation
import Metering.Proofs.Context.Deadline
import Metering.Proofs.Controller.Poisoned
import Metering.Proofs.Accumulator.Partial
import Metering.Proofs.Controller.Conservation
import Metering.Proofs.Aggregator.Saturation
import Metering.Proofs.Aggregator.Merging
import Metering.Proofs.Processor.Order
import Metering.Proofs.Accumulator.Sifted
import Metering.Proofs.Attribute.Merge
import Metering.Proofs.Processor.Intervals
import Metering.Proofs.Aggregator.Buckets
import Metering.Proofs.Accumulator.Registry
import Metering.Proofs.Attribute.Display
import Metering.Proofs.Resource.Environment
import Metering.Proofs.Attribute.Filter
import Metering.Proofs.Controller.Nesting
import Metering.Proofs.Exporter.Batch
import Metering.Proofs.Resource.Merge
import Metering.Proofs.Trace.Base64
import Metering.Proofs.Text.Hexadecimal
import Metering.Proofs.Trace.Forms
import Metering.Proofs.Aggregator.InPlace
