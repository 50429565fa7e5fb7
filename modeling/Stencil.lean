import Stencil.CommandLine.Console
import Stencil.CommandLine.Options
import Stencil.Diagnostic
import Stencil.Failure
import Stencil.FileSystem
import Stencil.FileSystem.Node
import Stencil.Generation
import Stencil.Journal
import Stencil.Json.Document
import Stencil.Json.Number
import Stencil.Main
import Stencil.Markup.Attribute
import Stencil.Markup.Element
import Stencil.Markup.Event
import Stencil.Markup.Fault
import Stencil.Markup.Reference
import Stencil.Overrides
import Stencil.Package
import Stencil.Package.Descriptor
import Stencil.Package.Layout
import Stencil.Path
import Stencil.Proofs.Agreement
import Stencil.Proofs.Arguments
import Stencil.Proofs.Candor
import Stencil.Proofs.Closing
import Stencil.Proofs.Comparison.Flawless
import Stencil.Proofs.Comparison.Generation
import Stencil.Proofs.Comparison.Journal
import Stencil.Proofs.Comparison.Lenience
import Stencil.Proofs.Comparison.Lifting
import Stencil.Proofs.Comparison.Package
import Stencil.Proofs.Comparison.Rules
import Stencil.Proofs.Comparison.Strictness
import Stencil.Proofs.Comparison.Substitution
import Stencil.Proofs.Comparison.Threshold
import Stencil.Proofs.FileSystem.Along
import Stencil.Proofs.FileSystem.Below
import Stencil.Proofs.FileSystem.Fresh
import Stencil.Proofs.FileSystem.Making
import Stencil.Proofs.FileSystem.Standing
import Stencil.Proofs.FileSystem.View
import Stencil.Proofs.FileSystem.Walk
import Stencil.Proofs.FileSystem.Writing
import Stencil.Proofs.Generation.Account
import Stencil.Proofs.Generation.Again
import Stencil.Proofs.Generation.Completion
import Stencil.Proofs.Generation.Course
import Stencil.Proofs.Generation.Extent
import Stencil.Proofs.Generation.Filing
import Stencil.Proofs.Generation.Preservation
import Stencil.Proofs.Generation.Registration
import Stencil.Proofs.Generation.Resting
import Stencil.Proofs.Generation.Round
import Stencil.Proofs.Generation.Skipping
import Stencil.Proofs.Generation.Turn
import Stencil.Proofs.Guard
import Stencil.Proofs.Leaving
import Stencil.Proofs.Listing
import Stencil.Proofs.Lookup
import Stencil.Proofs.Markup.Boundary
import Stencil.Proofs.Markup.Building
import Stencil.Proofs.Markup.Escape
import Stencil.Proofs.Markup.Placement
import Stencil.Proofs.Markup.Reading
import Stencil.Proofs.Markup.Site
import Stencil.Proofs.Markup.Tag
import Stencil.Proofs.Markup.Tracking
import Stencil.Proofs.Package.Admission
import Stencil.Proofs.Package.Completion
import Stencil.Proofs.Package.Filling
import Stencil.Proofs.Package.Insertion
import Stencil.Proofs.Package.Layout
import Stencil.Proofs.Package.Listing
import Stencil.Proofs.Package.Loading
import Stencil.Proofs.Package.Mirror
import Stencil.Proofs.Package.Outsiders
import Stencil.Proofs.Package.Parts
import Stencil.Proofs.Package.Pieces
import Stencil.Proofs.Package.Places
import Stencil.Proofs.Package.Readback
import Stencil.Proofs.Package.Remarks
import Stencil.Proofs.Package.Renderings
import Stencil.Proofs.Package.Round
import Stencil.Proofs.Package.Shipment
import Stencil.Proofs.Package.Writing
import Stencil.Proofs.Path.Absolute
import Stencil.Proofs.Path.Denotation
import Stencil.Proofs.Path.Descent
import Stencil.Proofs.Path.Moves
import Stencil.Proofs.Path.Relative
import Stencil.Proofs.Precedence
import Stencil.Proofs.Rounds
import Stencil.Proofs.Scanner.Place
import Stencil.Proofs.Scanner.Reading
import Stencil.Proofs.Solution.Growth
import Stencil.Proofs.Solution.Location
import Stencil.Proofs.Solution.ProjectLine
import Stencil.Proofs.Solution.Reload
import Stencil.Proofs.Solution.Rereading
import Stencil.Proofs.Solution.RoundTrip
import Stencil.Proofs.Substitution.Composition
import Stencil.Proofs.Substitution.Fixed
import Stencil.Proofs.Substitution.Numbering
import Stencil.Proofs.Substitution.Policies
import Stencil.Proofs.Substitution.Reference
import Stencil.Proofs.Template.Completeness
import Stencil.Proofs.Template.Sources
import Stencil.Proofs.Text.Lines
import Stencil.Proofs.Verdict
import Stencil.Run
import Stencil.Scanner
import Stencil.Solution
import Stencil.Substitution
import Stencil.Template
import Stencil.Template.Description
import Stencil.Text
import Stencil.Text.Letter
import Stencil.Value
import Stencil.Yaml.Block
import Stencil.Yaml.Document
import Stencil.Yaml.Inline
import Stencil.Yaml.Node
import Stencil.Yaml.Scalar
import Stencil.Yaml.Stream
import Stencil.Yaml.Token
