import CaptureIngest.Layout.Recognition
import CaptureIngest.Main
import CaptureIngest.Storage.Tree
import CaptureIngest.Proofs.Layout.Reading
import CaptureIngest.Proofs.Layout.Reasons
import CaptureIngest.Proofs.Layout.StopLine
import CaptureIngest.Proofs.Text.Lines
import CaptureIngest.Proofs.Text.Quoted
import CaptureIngest.Proofs.Definition.FieldList
import CaptureIngest.Proofs.Definition.Lines
import CaptureIngest.Proofs.Definition.Faithful
import CaptureIngest.Proofs.Storage.Writing
import CaptureIngest.Proofs.Registry.Run
import CaptureIngest.Proofs.Registry.Slot
import CaptureIngest.Proofs.Registry.Order
import CaptureIngest.Proofs.Registry.Directory
import CaptureIngest.Proofs.Registry.Reasons
import CaptureIngest.Proofs.Source.Files
import CaptureIngest.Proofs.Source.Versions
import CaptureIngest.Proofs.Definition.Batch
import CaptureIngest.Proofs.Generation.Accounts
import CaptureIngest.Proofs.Definition.Meaning
import CaptureIngest.Proofs.Program.Sections
import CaptureIngest.Proofs.Program.Parameters
import CaptureIngest.Proofs.Program.Containment
import CaptureIngest.Proofs.Generation.Isolation
import CaptureIngest.Proofs.Generation.Styles
import CaptureIngest.Proofs.Output.Writing
import CaptureIngest.Proofs.Output.Directory
import CaptureIngest.Proofs.Session.AllOrNothing
import CaptureIngest.Proofs.Session.Spellings
import CaptureIngest.Proofs.Session.Schemas
import CaptureIngest.Proofs.Layout.Cases
import CaptureIngest.Proofs.Layout.LineEnds
import CaptureIngest.Proofs.Layout.Comments
import CaptureIngest.Proofs.Layout.Lookups
import CaptureIngest.Proofs.Program.Toggles
import CaptureIngest.Proofs.Source.Embedding
import CaptureIngest.Proofs.Definition.Columns
import CaptureIngest.Proofs.Session.Documents
import CaptureIngest.Proofs.CommandLine.Spelling
import CaptureIngest.Proofs.CommandLine.Reading
import CaptureIngest.Proofs.CommandLine.Layering
