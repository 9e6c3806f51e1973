import HeadUnit.Ident
import HeadUnit.Outbox.Script
import HeadUnit.Session
import HeadUnit.Json.Reader
import HeadUnit.Json.Writer
import HeadUnit.Wire.Encode
import HeadUnit.Wire.Decode
import HeadUnit.Proofs.Arbitration
import HeadUnit.Proofs.Effect
import HeadUnit.Proofs.Reachable
import HeadUnit.Proofs.Cover
import HeadUnit.Proofs.Validity
import HeadUnit.Proofs.Exclusive
import HeadUnit.Proofs.Layers
import HeadUnit.Proofs.Silence
import HeadUnit.Proofs.Log
import HeadUnit.Proofs.History
import HeadUnit.Proofs.Told
import HeadUnit.Proofs.Trace
import HeadUnit.Proofs.Undisturbed
import HeadUnit.Proofs.Postponed
import HeadUnit.Proofs.Delay
import HeadUnit.Proofs.Replies
import HeadUnit.Proofs.Anchored
import HeadUnit.Proofs.Unapplied
import HeadUnit.Proofs.Overtaking
import HeadUnit.Proofs.Promotion
import HeadUnit.Proofs.Handshake
import HeadUnit.Proofs.FailClosed
import HeadUnit.Proofs.Repetition
import HeadUnit.Proofs.Transparency
import HeadUnit.Proofs.Loudness
import HeadUnit.Proofs.Canonical
import HeadUnit.Proofs.Delivery
import HeadUnit.Proofs.Resumption
import HeadUnit.Proofs.ConflictTable
import HeadUnit.Proofs.Assignments
import HeadUnit.Proofs.Independence
import HeadUnit.Proofs.Bystanders
import HeadUnit.Proofs.AnyOrder
import HeadUnit.Proofs.Restraint
import HeadUnit.Proofs.Expiry
import HeadUnit.Proofs.Numbering
import HeadUnit.Proofs.Numerals
import HeadUnit.Proofs.Lookup
import HeadUnit.Proofs.RoundTrip
