import ComponentTags.Main
import ComponentTags.Proofs.Expansion.Termination
import ComponentTags.Proofs.Expansion.Translation
import ComponentTags.Proofs.Expansion.Opacity
import ComponentTags.Proofs.Expansion.Lines
import ComponentTags.Proofs.Expansion.OneByOne
import ComponentTags.Proofs.Engine.Identifiers
import ComponentTags.Proofs.Block.Matching
import ComponentTags.Proofs.Engine.Run
import ComponentTags.Proofs.Engine.Keys
import ComponentTags.Proofs.Engine.Transparency
import ComponentTags.Proofs.Engine.Counting
import ComponentTags.Proofs.Engine.Templates
import ComponentTags.Proofs.Engine.Shadowing
import ComponentTags.Proofs.Document.Collected
import ComponentTags.Proofs.Document.Layouts
import ComponentTags.Proofs.Document.Discovery
import ComponentTags.Proofs.Document.Stages
import ComponentTags.Proofs.Document.Closure
import ComponentTags.Proofs.Document.Files
import ComponentTags.Proofs.Document.Order
import ComponentTags.Proofs.Document.Exclusion
import ComponentTags.Proofs.Document.Entry
import ComponentTags.Proofs.Document.Extension
import ComponentTags.Proofs.Token.Lossless
import ComponentTags.Proofs.Expansion.Ranges
import ComponentTags.Proofs.Token.Cursor
import ComponentTags.Proofs.Document.Following
import ComponentTags.Proofs.Tag.Verbatim
import ComponentTags.Proofs.Tag.Context
import ComponentTags.Proofs.Block.Leaves
import ComponentTags.Proofs.Block.Mismatch
import ComponentTags.Proofs.Engine.Loading
import ComponentTags.Proofs.Cache.History
import ComponentTags.Proofs.Call.Quoting
import ComponentTags.Proofs.Document.Enumeration
import ComponentTags.Proofs.Document.Relative
import ComponentTags.Proofs.Document.Naming
import ComponentTags.Proofs.Block.Opener
import ComponentTags.Proofs.Call.Live
