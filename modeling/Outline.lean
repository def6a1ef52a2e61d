import Outline.Containment.Drawing
import Outline.Cursor.Context
import Outline.Cursor.Marker
import Outline.Document.Parse
import Outline.Graph.Record
import Outline.Proofs.Body
import Outline.Proofs.Document
import Outline.Proofs.History
import Outline.Proofs.Malformed
import Outline.Proofs.Siblings
import Outline.Proofs.Records
import Outline.Proofs.Positions
import Outline.Proofs.BlockSpans
import Outline.Proofs.Bounds
import Outline.Proofs.Enclosure
import Outline.Proofs.SpanNesting
import Outline.Proofs.Acceptance
import Outline.Proofs.Closing
import Outline.Proofs.Account
import Outline.Proofs.Specificity
import Outline.Proofs.Surroundings
import Outline.Proofs.Legibility
import Outline.Proofs.Fences
import Outline.Proofs.Origins
import Outline.Proofs.BlockOrigins
import Outline.Proofs.Merging
import Outline.Proofs.Pieces
import Outline.Proofs.Transparency
import Outline.Proofs.Tasks
import Outline.Proofs.PlacedBlocks
import Outline.Proofs.Extent
import Outline.Proofs.Descendants
import Outline.Proofs.EdgeOrder
import Outline.Proofs.Markers
import Outline.Proofs.Tags
import Outline.Proofs.Export
import Outline.Proofs.Selection
import Outline.Proofs.ListNumbers
import Outline.Proofs.Walk
