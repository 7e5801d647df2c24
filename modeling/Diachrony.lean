import Diachrony.Category.Workspace
import Diachrony.Config.Document
import Diachrony.Source.RulesetText
import Diachrony.Word.Draft
import Diachrony.Proofs.Matching.Paths
import Diachrony.Proofs.Matching.Progress
import Diachrony.Proofs.Matching.Exploration
import Diachrony.Proofs.Matching.Instructions
import Diachrony.Proofs.Pattern.Layout
import Diachrony.Proofs.Matching.Correctness
import Diachrony.Proofs.Matching.Repetition
import Diachrony.Proofs.Word.Rewriting
import Diachrony.Proofs.Scan.Visits
import Diachrony.Proofs.Scan.Rewriting
import Diachrony.Proofs.Matching.Extent
import Diachrony.Proofs.Scan.Simultaneous
import Diachrony.Proofs.Derivation.Chain
import Diachrony.Proofs.Derivation.Steps
import Diachrony.Proofs.Derivation.Invariant
import Diachrony.Proofs.Derivation.Trace
import Diachrony.Proofs.Matching.Termination
import Diachrony.Proofs.Matching.Candidates
import Diachrony.Proofs.Scan.Judgement
import Diachrony.Proofs.Run.Passes
import Diachrony.Proofs.Run.License
import Diachrony.Proofs.Scan.Totality
import Diachrony.Proofs.Run.Ending
import Diachrony.Proofs.Matching.Budget
import Diachrony.Proofs.Scan.Budget
import Diachrony.Proofs.Run.Budget
import Diachrony.Proofs.Run.Cycles
import Diachrony.Proofs.Matching.Locality
import Diachrony.Proofs.Scan.Unconditional
import Diachrony.Proofs.Pattern.Slots
import Diachrony.Proofs.Scan.Substitution
import Diachrony.Proofs.Source.AsRead
import Diachrony.Proofs.Matching.Bindings
import Diachrony.Proofs.Matching.Segments
import Diachrony.Proofs.Scan.Mirror
import Diachrony.Proofs.Scan.Reversal
import Diachrony.Proofs.Matching.Members
import Diachrony.Proofs.Scan.Environments
import Diachrony.Proofs.Scan.Correlation
import Diachrony.Proofs.Run.Correlation
import Diachrony.Proofs.Matching.Agreement
import Diachrony.Proofs.Matching.Contexts
import Diachrony.Proofs.Derivation.Growth
import Diachrony.Proofs.Derivation.Replay
import Diachrony.Proofs.Derivation.Repeating
import Diachrony.Proofs.Derivation.Rounds
import Diachrony.Proofs.Derivation.Calls
import Diachrony.Proofs.Derivation.Marks
import Diachrony.Proofs.Derivation.Origins
import Diachrony.Proofs.Derivation.Reporting
import Diachrony.Proofs.Derivation.Stopping
import Diachrony.Proofs.Derivation.Flattening
import Diachrony.Proofs.Run.Checks
import Diachrony.Proofs.Source.Compiled
import Diachrony.Proofs.Derivation.Totality
import Diachrony.Proofs.Derivation.Checks
import Diachrony.Proofs.Source.Patterns
import Diachrony.Proofs.Source.Bodies
import Diachrony.Proofs.Source.Places
import Diachrony.Proofs.Source.Refusals
import Diachrony.Proofs.Source.Lines
import Diachrony.Proofs.Source.Locations
import Diachrony.Proofs.Source.Outcomes
import Diachrony.Proofs.Source.Extension
import Diachrony.Proofs.Source.Blocks
import Diachrony.Proofs.Run.Announcement
import Diachrony.Proofs.Source.Columns
import Diachrony.Proofs.Source.Parts
import Diachrony.Proofs.Source.Readings
import Diachrony.Proofs.Source.Gaps
import Diachrony.Proofs.Source.FlagLists
import Diachrony.Proofs.Source.Spellings
import Diachrony.Proofs.Source.Spacing
import Diachrony.Proofs.Source.Nesting
import Diachrony.Proofs.Source.EmptyBrackets
import Diachrony.Proofs.Source.Shorthands
import Diachrony.Proofs.Run.Selection
import Diachrony.Proofs.Source.Balance
import Diachrony.Proofs.Source.EmptyMembers
import Diachrony.Proofs.Source.MemberLists
import Diachrony.Proofs.Matching.Merging
import Diachrony.Proofs.Matching.SharedTags
import Diachrony.Proofs.Source.BeforeFlags
import Diachrony.Proofs.Source.Flaws
import Diachrony.Proofs.Run.Writing
import Diachrony.Proofs.Source.ArrowTexts
import Diachrony.Proofs.Source.LatestEdits
import Diachrony.Proofs.Derivation.Schedule
import Diachrony.Proofs.Source.Tokenization
import Diachrony.Proofs.Source.Definitions
import Diachrony.Proofs.Matching.Laziness
import Diachrony.Proofs.Scan.Concurrence
import Diachrony.Proofs.Scan.Laziness
import Diachrony.Proofs.Run.Laziness
import Diachrony.Proofs.Word.CombiningMarks
import Diachrony.Proofs.Run.Progress
import Diachrony.Proofs.Scan.Discipline
import Diachrony.Proofs.Run.Direction
import Diachrony.Proofs.Word.Uniqueness
import Diachrony.Proofs.Word.Separators
import Diachrony.Proofs.Category.Tables
import Diachrony.Proofs.Category.Arena
import Diachrony.Proofs.Category.Requests
import Diachrony.Proofs.Source.FlagTexts
import Diachrony.Proofs.Config.Dictionaries
import Diachrony.Proofs.Source.Indentation
import Diachrony.Proofs.Source.Culprits
import Diachrony.Proofs.Source.Division
import Diachrony.Proofs.Pattern.Traversal
import Diachrony.Proofs.Pattern.Addresses
import Diachrony.Proofs.Pattern.Assembly
import Diachrony.Proofs.Matching.Safety
