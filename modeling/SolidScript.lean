import SolidScript.Number.Buffer
import SolidScript.Operator
import SolidScript.Range.Cursor
import SolidScript.Text.Decoding
import SolidScript.Text.Order
import SolidScript.Value.Characters
import SolidScript.Value.Components
import SolidScript.Value.Index
import SolidScript.Workspace
import SolidScript.Proofs.Storage
import SolidScript.Proofs.Tallying
import SolidScript.Proofs.Soundness
import SolidScript.Proofs.Flattening
import SolidScript.Proofs.Appending
import SolidScript.Proofs.Doubles
import SolidScript.Proofs.Tree.Arithmetic
import SolidScript.Proofs.Tree.Comparison
import SolidScript.Proofs.Tree.Operation
import SolidScript.Proofs.Comparing
import SolidScript.Proofs.Writing
import SolidScript.Proofs.Computing
import SolidScript.Proofs.Multiplying
import SolidScript.Proofs.Operating
import SolidScript.Proofs.Plain
import SolidScript.Proofs.Refinement
import SolidScript.Proofs.Making
import SolidScript.Proofs.Representing
import SolidScript.Proofs.Simulation
import SolidScript.Proofs.Runs
import SolidScript.Proofs.Iteration
import SolidScript.Proofs.Ranks
import SolidScript.Proofs.Coherence
import SolidScript.Proofs.Species
import SolidScript.Proofs.Sparing
import SolidScript.Proofs.Tracing
import SolidScript.Proofs.Silence
import SolidScript.Proofs.Supporting
import SolidScript.Proofs.Recording
import SolidScript.Proofs.Number.Digits
import SolidScript.Proofs.Number.Spacing
import SolidScript.Proofs.Number.Rounding
import SolidScript.Proofs.Number.Numeral
import SolidScript.Proofs.Number.Counting
import SolidScript.Proofs.Number.Nearest
import SolidScript.Proofs.Number.Arithmetic
import SolidScript.Proofs.Number.Ordering
import SolidScript.Proofs.Progression
import SolidScript.Proofs.Segmentation
import SolidScript.Proofs.Pieces
import SolidScript.Proofs.Acyclic
import SolidScript.Proofs.Placeholders
import SolidScript.Proofs.Tree.Matrix
import SolidScript.Proofs.Defects
import SolidScript.Proofs.Judging
import SolidScript.Proofs.InnerProducts
import SolidScript.Proofs.Products
import SolidScript.Proofs.Strides
import SolidScript.Proofs.Bounds
import SolidScript.Proofs.Preorder
import SolidScript.Proofs.Equivalence
import SolidScript.Proofs.Number.Leading
import SolidScript.Proofs.Number.Filling
import SolidScript.Proofs.Number.Rendering
import SolidScript.Proofs.Number.Canonical
import SolidScript.Proofs.Number.Closest
import SolidScript.Proofs.Number.RoundTrip
import SolidScript.Proofs.Number.Extended
import SolidScript.Proofs.Sequences
import SolidScript.Proofs.Positions
import SolidScript.Proofs.Algebra
import SolidScript.Proofs.Access
import SolidScript.Proofs.Spelling
import SolidScript.Proofs.Legibility
import SolidScript.Proofs.Quoting
import SolidScript.Proofs.Slices
import SolidScript.Proofs.Borrowing
