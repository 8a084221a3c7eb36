import DepSolver.Cli.Arguments
import DepSolver.Cli.Command
import DepSolver.Cli.Listing
import DepSolver.Cli.Outcome
import DepSolver.Cli.Run
import DepSolver.Cli.Spec
import DepSolver.Cli.Usage
import DepSolver.Config
import DepSolver.Error
import DepSolver.Evr
import DepSolver.File
import DepSolver.Generation.Context
import DepSolver.Generation.Installed
import DepSolver.Generation.Package
import DepSolver.Generation.Reach
import DepSolver.Generation.Request
import DepSolver.Generation.Setting
import DepSolver.Goal.Actions
import DepSolver.Goal.Basic
import DepSolver.Goal.Event
import DepSolver.Goal.InstallOnly
import DepSolver.Goal.Report
import DepSolver.Goal.Run
import DepSolver.Job
import DepSolver.Json.Basic
import DepSolver.Json.Magnitude
import DepSolver.Json.Parser
import DepSolver.Json.Record
import DepSolver.Main
import DepSolver.Operator
import DepSolver.Order.Sort
import DepSolver.Package
import DepSolver.PackageSet
import DepSolver.Preference
import DepSolver.Problem
import DepSolver.Proofs.Generation.Context
import DepSolver.Proofs.Generation.Demands
import DepSolver.Proofs.Generation.Literals
import DepSolver.Proofs.Generation.PackageRules
import DepSolver.Proofs.Goal.Downgrades
import DepSolver.Proofs.Goal.GlobRequests
import DepSolver.Proofs.Goal.Limit
import DepSolver.Proofs.Goal.LimitConflicts
import DepSolver.Proofs.Goal.LimitGroups
import DepSolver.Proofs.Goal.Protection
import DepSolver.Proofs.Goal.Refusal
import DepSolver.Proofs.Order.Sort
import DepSolver.Proofs.PackageSet.Bitmap
import DepSolver.Proofs.PackageSet.FiniteSet
import DepSolver.Proofs.Relation.Layout
import DepSolver.Proofs.Relation.Matches
import DepSolver.Proofs.Relation.Overlap
import DepSolver.Proofs.Relation.RoundTrip
import DepSolver.Proofs.Rule.Duplicates
import DepSolver.Proofs.Rule.Models
import DepSolver.Proofs.Rule.Set
import DepSolver.Proofs.Search.Branches
import DepSolver.Proofs.Search.Choice
import DepSolver.Proofs.Search.Closure
import DepSolver.Proofs.Search.Core
import DepSolver.Proofs.Search.Correctness
import DepSolver.Proofs.Search.Decisions
import DepSolver.Proofs.Search.Extension
import DepSolver.Proofs.Search.Grounds
import DepSolver.Proofs.Search.Invariants
import DepSolver.Proofs.Search.Levels
import DepSolver.Proofs.Search.MachineWords
import DepSolver.Proofs.Search.MinimalCore
import DepSolver.Proofs.Search.Persistence
import DepSolver.Proofs.Search.Propagation
import DepSolver.Proofs.Search.States
import DepSolver.Proofs.Search.Trail
import DepSolver.Proofs.Search.Visit
import DepSolver.Proofs.Search.Watches
import DepSolver.Proofs.Selector.Filters
import DepSolver.Proofs.Selector.Spec
import DepSolver.Proofs.Selector.Translation
import DepSolver.Proofs.Solution.BrokenSystem
import DepSolver.Proofs.Solution.Cleanup
import DepSolver.Proofs.Solution.CleanupCauses
import DepSolver.Proofs.Solution.Consistency
import DepSolver.Proofs.Solution.ExcludedNumbers
import DepSolver.Proofs.Solution.JobOrder
import DepSolver.Proofs.Solution.JobWording
import DepSolver.Proofs.Solution.Needs
import DepSolver.Proofs.Solution.NoChange
import DepSolver.Proofs.Solution.Passes
import DepSolver.Proofs.Solution.Problems
import DepSolver.Proofs.Solution.Removal
import DepSolver.Proofs.Solution.Requests
import DepSolver.Proofs.Solution.Settlement
import DepSolver.Proofs.Solution.Termination
import DepSolver.Proofs.Solution.Transfer
import DepSolver.Proofs.Solution.Unneeded
import DepSolver.Proofs.Solution.Updates
import DepSolver.Proofs.Solution.Verdict
import DepSolver.Proofs.Solution.Walks
import DepSolver.Proofs.Solution.WeakRules
import DepSolver.Proofs.Stored.Reload
import DepSolver.Proofs.Stored.Replay
import DepSolver.Proofs.Text.Cut
import DepSolver.Proofs.Transaction.Account
import DepSolver.Proofs.Transaction.Changes
import DepSolver.Proofs.Transaction.Obsoletes
import DepSolver.Proofs.Transaction.Steps
import DepSolver.Proofs.Universe.ByRepository
import DepSolver.Proofs.Universe.Index
import DepSolver.Proofs.Universe.Lookup
import DepSolver.Proofs.Universe.Ranking
import DepSolver.Proofs.Universe.Renumbering
import DepSolver.Proofs.Version.Tokens
import DepSolver.Proofs.Version.Triples
import DepSolver.Relation
import DepSolver.Rule.Basic
import DepSolver.Rule.Set
import DepSolver.Search.Choice
import DepSolver.Search.Core
import DepSolver.Search.DecisionTable
import DepSolver.Search.Decisions
import DepSolver.Search.Run
import DepSolver.Search.WatchGraph
import DepSolver.Selector.Basic
import DepSolver.Selector.Comparison
import DepSolver.Selector.Entries
import DepSolver.Solution.Basic
import DepSolver.Solution.Cleanup
import DepSolver.Solution.Solve
import DepSolver.Stored.Testcase
import DepSolver.Stored.Universe
import DepSolver.Text.Blank
import DepSolver.Text.Glob
import DepSolver.Text.Lowercase
import DepSolver.Text.Numeral
import DepSolver.Text.Path
import DepSolver.Text.Split
import DepSolver.Text.Uppercase
import DepSolver.Transaction
import DepSolver.Universe.Basic
import DepSolver.Universe.Multimap
import DepSolver.Version.Order
