import FxmlWiring.Main
import FxmlWiring.Proofs.CommandLine.Encoding
import FxmlWiring.Proofs.CommandLine.ExitStatus
import FxmlWiring.Proofs.CommandLine.Failure
import FxmlWiring.Proofs.CommandLine.OutputMode
import FxmlWiring.Proofs.CommandLine.PlainOutput
import FxmlWiring.Proofs.Controller.Comment
import FxmlWiring.Proofs.Controller.CommentFree
import FxmlWiring.Proofs.Controller.CommentedLine
import FxmlWiring.Proofs.Controller.InsertedComment
import FxmlWiring.Proofs.Controller.JoinedSource
import FxmlWiring.Proofs.Controller.LineEnds
import FxmlWiring.Proofs.Controller.Source
import FxmlWiring.Proofs.Markup.FaultPosition
import FxmlWiring.Proofs.Markup.RoundTrip
import FxmlWiring.Proofs.Markup.Truncation
import FxmlWiring.Proofs.Markup.WellFormedDocument
import FxmlWiring.Proofs.Requirement.AttributeOrder
import FxmlWiring.Proofs.Requirement.Count
import FxmlWiring.Proofs.Requirement.Walk
import FxmlWiring.Proofs.Rule.Acceptance
import FxmlWiring.Proofs.Rule.Generic
import FxmlWiring.Proofs.Rule.Pattern
import FxmlWiring.Proofs.Rule.Span
