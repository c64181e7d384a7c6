import FrameLens.About
import FrameLens.AddressRange
import FrameLens.Binary64
import FrameLens.Bytes.Leb128
import FrameLens.Bytes.LittleEndian
import FrameLens.CType
import FrameLens.Command.Arguments
import FrameLens.Command.Outcome
import FrameLens.Decimal.Shortest
import FrameLens.Frame.Variables
import FrameLens.Journal.Event
import FrameLens.Journal.Trail
import FrameLens.Location.Basic
import FrameLens.Location.Extent
import FrameLens.Location.Operation
import FrameLens.Main
import FrameLens.Memory.Map
import FrameLens.Memory.Region
import FrameLens.Proofs.Scope.Arena
import FrameLens.Register.Basic
import FrameLens.Register.Names
import FrameLens.Sample
import FrameLens.Scope.Basic
import FrameLens.Scope.Builder
import FrameLens.Scope.Tree
import FrameLens.Scope.Visible
import FrameLens.Session.Basic
import FrameLens.Session.Journal
import FrameLens.Snapshot
import FrameLens.Symbol.Entity
import FrameLens.Symbol.Mangled
import FrameLens.Symbol.Text
import FrameLens.Text.Blank
import FrameLens.Text.Escape
import FrameLens.Text.Hex
import FrameLens.Text.Numeral
import FrameLens.Variable.Declaration
import FrameLens.Variable.Entry
import FrameLens.Variable.Resolved
import FrameLens.Variable.Value
import FrameLens.Proofs.AddressRange
import FrameLens.Proofs.Scope.Acceptance
import FrameLens.Proofs.Scope.Chain
import FrameLens.Proofs.Frame.Listing
import FrameLens.Proofs.Scope.Frames
import FrameLens.Proofs.Frame.PerFrame
import FrameLens.Proofs.Snapshot.Extension
import FrameLens.Proofs.Bytes.Leb128
import FrameLens.Proofs.Location.Reading
import FrameLens.Proofs.Location.Grammar
import FrameLens.Proofs.Location.Spelling
import FrameLens.Proofs.Location.Forms
import FrameLens.Proofs.Location.RoundTrip
import FrameLens.Proofs.Scope.Record
import FrameLens.Proofs.Scope.Renumbering
import FrameLens.Proofs.Frame.Renumbering
import FrameLens.Proofs.Memory.Coverage
import FrameLens.Proofs.Memory.Splitting
import FrameLens.Proofs.Frame.Elsewhere
import FrameLens.Proofs.Location.Concatenation
import FrameLens.Proofs.Frame.Coherence
import FrameLens.Proofs.Variable.Storage
import FrameLens.Proofs.CType.BaseTypes
import FrameLens.Proofs.Command.Arguments
import FrameLens.Proofs.Register.Names
import FrameLens.Proofs.Text.Numeral
import FrameLens.Proofs.Sample
import FrameLens.Proofs.Command.Setting
import FrameLens.Proofs.Command.Outcome
import FrameLens.Proofs.Memory.Progress
import FrameLens.Proofs.CType.Spelling
import FrameLens.Proofs.Text.Distinct
import FrameLens.Proofs.Variable.Text
