import ContextDiagram.Main
import ContextDiagram.Proofs.Language.MapWriting
import ContextDiagram.Proofs.Language.Tiling
import ContextDiagram.Proofs.Language.Refinement
import ContextDiagram.Proofs.Language.Unambiguity
import ContextDiagram.Proofs.Layout.Undeclared
import ContextDiagram.Proofs.Plane.Exact
import ContextDiagram.Proofs.Plane.Region
import ContextDiagram.Proofs.Layout.Separation
import ContextDiagram.Proofs.Layout.Completeness
import ContextDiagram.Proofs.Language.Alignment
import ContextDiagram.Proofs.Language.Formatting
import ContextDiagram.Proofs.Language.LabelRanges
import ContextDiagram.Proofs.Language.LongestToken
import ContextDiagram.Proofs.Language.Recovery
import ContextDiagram.Proofs.Language.FirstMistake
import ContextDiagram.Proofs.Command.Disk
import ContextDiagram.Proofs.Command.Run
import ContextDiagram.Proofs.Markup.Content
import ContextDiagram.Proofs.Svg.Elements
import ContextDiagram.Proofs.Layout.FewestRows
import ContextDiagram.Proofs.Layout.Outcomes
import ContextDiagram.Proofs.Layout.Atomicity
import ContextDiagram.Proofs.Layout.Unlinked
import ContextDiagram.Proofs.Layout.Rejection
import ContextDiagram.Proofs.Layout.ReadingOrder
import ContextDiagram.Proofs.Layout.LargerCanvas
import ContextDiagram.Proofs.Language.WrittenOrder
import ContextDiagram.Proofs.Language.LineEnds
import ContextDiagram.Proofs.Source.Lines
import ContextDiagram.Proofs.Layout.TagTexts
import ContextDiagram.Proofs.Layout.UnpairedTags
import ContextDiagram.Proofs.Layout.Reversal
import ContextDiagram.Proofs.Layout.Boundary
import ContextDiagram.Proofs.Layout.Arc
import ContextDiagram.Proofs.Layout.Finiteness
import ContextDiagram.Proofs.Settings.Defaults
