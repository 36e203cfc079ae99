import Microtypes.Main
import Microtypes.File.Tree
import Microtypes.Proofs.Grammar.Derivation
import Microtypes.Proofs.Token.Extent
import Microtypes.Proofs.Token.Shape
import Microtypes.Proofs.Grammar.Soundness
import Microtypes.Proofs.Grammar.Automaton
import Microtypes.Proofs.Grammar.TypeSimulation
import Microtypes.Proofs.Grammar.Simulation
import Microtypes.Proofs.Grammar.FaultPlace
import Microtypes.Proofs.Grammar.Insertion
import Microtypes.Proofs.Grammar.TypeCompleteness
import Microtypes.Proofs.Grammar.Completeness
import Microtypes.Proofs.Grammar.Acceptance
import Microtypes.Proofs.Token.Separation
import Microtypes.Proofs.Token.Legibility
import Microtypes.Proofs.Grammar.Normalisation
import Microtypes.Proofs.Control.Secret
import Microtypes.Proofs.Expansion
import Microtypes.Proofs.Token.Steadiness
import Microtypes.Proofs.Token.Tiling
import Microtypes.Proofs.Token.Displacement
import Microtypes.Proofs.Grammar.Likeness
import Microtypes.Proofs.Grammar.Extension
import Microtypes.Proofs.Control.Likeness
import Microtypes.Proofs.Rust.Bare
import Microtypes.Proofs.Likeness
import Microtypes.Proofs.Layout
import Microtypes.Proofs.Displacement
import Microtypes.Proofs.Concatenation
import Microtypes.Proofs.Grammar.Standing
import Microtypes.Proofs.Rust.Heading
import Microtypes.Proofs.PassingOn
import Microtypes.Proofs.Grammar.Nesting
import Microtypes.Proofs.Token.Fusion
import Microtypes.Proofs.Grammar.TypeEnds
import Microtypes.Proofs.Grammar.HiddenName
import Microtypes.Proofs.Control.Requests
import Microtypes.Proofs.Control.Rules
import Microtypes.Proofs.Rust.Emission
import Microtypes.Proofs.Report
import Microtypes.Proofs.Rust.Weave
import Microtypes.Proofs.Rust.Template
import Microtypes.Proofs.Rust.Exposure
import Microtypes.Proofs.Token.Excerpt
import Microtypes.Proofs.Token.Respacing
import Microtypes.Proofs.Token.Lines
import Microtypes.Proofs.Rust.Ingredients
import Microtypes.Proofs.WellFormedOutput
import Microtypes.Proofs.Token.Stops
import Microtypes.Proofs.Spelling
import Microtypes.Proofs.Text.Encoding
import Microtypes.Proofs.File.Saving
import Microtypes.Proofs.Config.Reading
import Microtypes.Proofs.Command.Steps
import Microtypes.Proofs.Command.KeptFiles
import Microtypes.Proofs.Relocation
import Microtypes.Proofs.Verbatim
import Microtypes.Proofs.Grammar.Rebuilding
import Microtypes.Proofs.SoleNames
import Microtypes.Proofs.Shorthand
import Microtypes.Proofs.Control.Order
import Microtypes.Proofs.Grammar.Citation
import Microtypes.Proofs.Control.Blame
import Microtypes.Proofs.Diagnosis
import Microtypes.Proofs.OneLine
import Microtypes.Proofs.EmbeddedMessage
import Microtypes.Proofs.LegalName
import Microtypes.Proofs.Config.Selection
import Microtypes.Proofs.Config.Reporting
import Microtypes.Proofs.Rust.Spacing
import Microtypes.Proofs.BlankLines
import Microtypes.Proofs.Text.Location
import Microtypes.Proofs.Control.Arguments
import Microtypes.Proofs.Grammar.Enclosure
import Microtypes.Proofs.Grammar.Progress
import Microtypes.Proofs.Token.BlockComment
import Microtypes.Proofs.Token.ClosingQuote
