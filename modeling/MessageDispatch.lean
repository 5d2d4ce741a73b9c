import MessageDispatch.Scenario.Publication
import MessageDispatch.Settings.RabbitMq
import MessageDispatch.Text.Uuid
import MessageDispatch.Proofs.Bookkeeping
import MessageDispatch.Proofs.Identity
import MessageDispatch.Proofs.Matching
import MessageDispatch.Proofs.Redelivery
import MessageDispatch.Proofs.Settlement
import MessageDispatch.Proofs.Course
import MessageDispatch.Proofs.Instructions
import MessageDispatch.Proofs.Verdicts
import MessageDispatch.Proofs.Reporting
import MessageDispatch.Proofs.Counting
import MessageDispatch.Proofs.JsonText
import MessageDispatch.Proofs.RoundTrip
import MessageDispatch.Proofs.Decoding
import MessageDispatch.Proofs.Conservation
import MessageDispatch.Proofs.Correlation
import MessageDispatch.Proofs.Agreement
import MessageDispatch.Proofs.Payloads
import MessageDispatch.Proofs.Reopening
import MessageDispatch.Proofs.Halting
import MessageDispatch.Proofs.Framing
import MessageDispatch.Proofs.Globs
import MessageDispatch.Proofs.Topics
import MessageDispatch.Proofs.Answering
import MessageDispatch.Proofs.ShortCircuit
import MessageDispatch.Proofs.Registering
import MessageDispatch.Proofs.Refusal
import MessageDispatch.Proofs.Nesting
import MessageDispatch.Proofs.Layers
import MessageDispatch.Proofs.Outages
import MessageDispatch.Proofs.Arguments
import MessageDispatch.Proofs.Assembling
import MessageDispatch.Proofs.Timestamps
import MessageDispatch.Proofs.Quantities
