import Attire.Class.Basic
import Attire.Class.Compose
import Attire.Class.Manifest
import Attire.Class.Member
import Attire.ClassId
import Attire.Code.Basic
import Attire.Code.Decode
import Attire.Code.Encode
import Attire.Command.Arguments
import Attire.Command.Basic
import Attire.Command.Files
import Attire.Command.Report
import Attire.Engine
import Attire.Id
import Attire.Import.Body
import Attire.Import.Build
import Attire.Import.Error
import Attire.Import.Hierarchy
import Attire.Import.Location
import Attire.Import.Module
import Attire.Json.Basic
import Attire.Json.Decode
import Attire.Json.Literal
import Attire.Json.Print
import Attire.Json.Read
import Attire.Json.View
import Attire.Lowering.Basic
import Attire.Lowering.Expr
import Attire.Lowering.Slots
import Attire.Lowering.Stmt
import Attire.Machine.Basic
import Attire.Machine.Element
import Attire.Machine.Eval
import Attire.Machine.Heap
import Attire.Machine.View
import Attire.Main
import Attire.ModuleId
import Attire.Number.Layout
import Attire.Number.Read
import Attire.Number.Scaled
import Attire.Number.Shortest
import Attire.Options
import Attire.Ordered
import Attire.RandomStream
import Attire.Sha256
import Attire.Snapshot.Basic
import Attire.Snapshot.Capture
import Attire.Snapshot.Decode
import Attire.Snapshot.Encode
import Attire.Snapshot.Restore
import Attire.Span
import Attire.Symbols
import Attire.Syntax.Basic
import Attire.Syntax.Decode
import Attire.Syntax.Encode
import Attire.Table
import Attire.Text.Base36
import Attire.Text.Bytes
import Attire.Text.Quoted
import Attire.Toml.Document
import Attire.Toml.Scalar
import Attire.Ty
import Attire.Ty.Collection
import Attire.Ty.Decode
import Attire.Ty.Relation
import Attire.Typing.Context
import Attire.Typing.Effects
import Attire.Typing.Error
import Attire.Typing.Expr
import Attire.Typing.Resolve
import Attire.Typing.Stmt
import Attire.Value.Basic
import Attire.Value.Key
import Attire.Wheels
import Attire.Proofs.Host.Progress
import Attire.Proofs.Classes.Lookup
import Attire.Proofs.Host.Overrides
import Attire.Proofs.Host.RoundTrip
import Attire.Proofs.Host.Integrity
import Attire.Proofs.Host.Completeness
import Attire.Proofs.Host.Identity
import Attire.Proofs.Host.Effects
import Attire.Proofs.Import.History
import Attire.Proofs.Import.Termination
import Attire.Proofs.Host.Acyclicity
import Attire.Proofs.Snapshot.Exactness
import Attire.Proofs.Snapshot.Decoding
import Attire.Proofs.Host.Labels
import Attire.Proofs.Classes.Ascent
import Attire.Proofs.Typing.Relations
import Attire.Proofs.Classes.Specification
import Attire.Proofs.Host.Nesting
import Attire.Proofs.Values.Encoding
import Attire.Proofs.Wheels
import Attire.Proofs.Values.Order
import Attire.Proofs.Typing.Casts
import Attire.Proofs.Host.Initializers
import Attire.Proofs.Host.Revocation
import Attire.Proofs.Import.Symbols
import Attire.Proofs.Host.Lookup
import Attire.Proofs.Lowering.Updates
import Attire.Proofs.Host.Draws
import Attire.Proofs.Host.Fabrics
import Attire.Proofs.Host.Kinds
import Attire.Proofs.Import.Location
