import Rubric.Main
import Rubric.Proofs.Engine
import Rubric.Proofs.Inline
import Rubric.Proofs.Markup
import Rubric.Proofs.Node
import Rubric.Proofs.Session
import Rubric.Proofs.Execution
import Rubric.Proofs.Reach
import Rubric.Proofs.Step
import Rubric.Proofs.CommandPass
import Rubric.Proofs.FontPass
import Rubric.Proofs.Closure
import Rubric.Proofs.Rendering
import Rubric.Proofs.Conversion
import Rubric.Proofs.Numbering
import Rubric.Proofs.Semantics
import Rubric.Proofs.Unresolved
import Rubric.Proofs.Spelling
import Rubric.Proofs.Substitution
import Rubric.Proofs.Frame
import Rubric.Proofs.Failure
import Rubric.Proofs.Notes
import Rubric.Proofs.FontFrame
import Rubric.Proofs.Reachable
import Rubric.Proofs.Agreement
import Rubric.Proofs.Order
import Rubric.Proofs.Echo
import Rubric.Proofs.Mirror
import Rubric.Proofs.Allowance
import Rubric.Proofs.Rest
import Rubric.Proofs.Atomic
import Rubric.Proofs.Ending
import Rubric.Proofs.DepthLimit
import Rubric.Proofs.Digest
import Rubric.Proofs.Foresight
import Rubric.Proofs.Reading
import Rubric.Proofs.Independence
import Rubric.Proofs.Reader
import Rubric.Proofs.Writing
import Rubric.Proofs.Braces
import Rubric.Proofs.Canonical
import Rubric.Proofs.Texts
import Rubric.Proofs.Nested
import Rubric.Proofs.Keys
import Rubric.Proofs.Truths
import Rubric.Proofs.Isolation
import Rubric.Proofs.Routed
import Rubric.Proofs.References
import Rubric.Proofs.InPlace
import Rubric.Proofs.Branches
import Rubric.Proofs.Linked
import Rubric.Proofs.Circles
import Rubric.Proofs.Completion
import Rubric.Proofs.Guarded
import Rubric.Proofs.Termination
import Rubric.Proofs.Match
import Rubric.Proofs.Shared
import Rubric.Proofs.Multilingual
import Rubric.Proofs.Targets
import Rubric.Proofs.Remnants
import Rubric.Proofs.Listed
import Rubric.Proofs.WellFormed
import Rubric.Proofs.Wording
import Rubric.Proofs.Noninterference
import Rubric.Proofs.Likeness
import Rubric.Proofs.Subtags
import Rubric.Proofs.Tag
import Rubric.Proofs.Carried
import Rubric.Proofs.NormalForm
import Rubric.Proofs.Rewriting
import Rubric.Proofs.Plain
import Rubric.Proofs.Blame
import Rubric.Proofs.Trace
import Rubric.Proofs.Suggestions
import Rubric.Proofs.Inheritance
import Rubric.Proofs.Pointing
