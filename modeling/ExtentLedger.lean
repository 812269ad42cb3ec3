import ExtentLedger.Consumer.Standard
import ExtentLedger.Extent.Covering
import ExtentLedger.Feature.Vertices
import ExtentLedger.Observer.ConfigJson
import ExtentLedger.Observer.Course
import ExtentLedger.Proofs.Observer.Hooks
import ExtentLedger.Proofs.Transaction.Slot
import ExtentLedger.Proofs.Transaction.Pending
import ExtentLedger.Proofs.Observer.OneShot
import ExtentLedger.Listener.Host
import ExtentLedger.Proofs.Observer.Separation
import ExtentLedger.Proofs.Coordinate.Lawful
import ExtentLedger.Proofs.Geometry.Hull
import ExtentLedger.Proofs.Attempt.Pure
import ExtentLedger.Proofs.Extent.Making
import ExtentLedger.Proofs.Reprojection.Merging
import ExtentLedger.Proofs.Consumer.Invalidation
import ExtentLedger.Proofs.Consumer.Growth
import ExtentLedger.Proofs.Consumer.Interleaving
import ExtentLedger.Proofs.Transaction.Pages
import ExtentLedger.Listener.Life
import ExtentLedger.Proofs.Observer.Collection
import ExtentLedger.Proofs.Observer.Dispatch
import ExtentLedger.Proofs.Observer.Bookkeeping
import ExtentLedger.Proofs.Observer.Order
import ExtentLedger.Proofs.Reprojection.LeastExtent
import ExtentLedger.Proofs.Reprojection.Groups
import ExtentLedger.Proofs.Extent.Obtainable
import ExtentLedger.Proofs.Json.Tokens
import ExtentLedger.Proofs.Json.Forms
import ExtentLedger.Proofs.Observer.ConfigJson
import ExtentLedger.Proofs.Geometry.Points
import ExtentLedger.Reprojection.Mapping
import ExtentLedger.Proofs.Reprojection.Bounds
import ExtentLedger.Proofs.Coordinate.Exact
import ExtentLedger.Proofs.Geometry.Monotone
import ExtentLedger.Proofs.Geometry.Walk
import ExtentLedger.Proofs.Reprojection.Monotone
import ExtentLedger.Proofs.Reprojection.Corners
import ExtentLedger.Proofs.Reprojection.Heights
import ExtentLedger.Proofs.Extent.Containment
import ExtentLedger.Proofs.Extent.Join
import ExtentLedger.Proofs.Coordinate.Interpolation
import ExtentLedger.Proofs.Reprojection.Affine
import ExtentLedger.Proofs.Reprojection.Identity
import ExtentLedger.Proofs.Reprojection.Refinement
import ExtentLedger.Proofs.Reprojection.Domain
import ExtentLedger.Proofs.Feature.Decisive
import ExtentLedger.Proofs.Observer.KnownFields
import ExtentLedger.Proofs.Listener.Priority
import ExtentLedger.Proofs.Observer.Consultation
import ExtentLedger.Proofs.Observer.Containment
