import PolicyTree.Access.Error
import PolicyTree.Cache
import PolicyTree.Collection
import PolicyTree.Collector
import PolicyTree.Decision
import PolicyTree.Evaluator
import PolicyTree.FlagSet
import PolicyTree.Glob
import PolicyTree.Node
import PolicyTree.Observation.Dispatcher
import PolicyTree.Observation.Event
import PolicyTree.Observation.Recorder
import PolicyTree.Path
import PolicyTree.Permission
import PolicyTree.Policy.Basic
import PolicyTree.Policy.Editor
import PolicyTree.Policy.Entry
import PolicyTree.Policy.Storage
import PolicyTree.PolicyChange
import PolicyTree.Principal
import PolicyTree.Privilege.Bits
import PolicyTree.Privilege.Mapping
import PolicyTree.Privilege.Registry
import PolicyTree.Proofs.Access.Asking
import PolicyTree.Proofs.Access.Collecting
import PolicyTree.Proofs.Access.Completeness
import PolicyTree.Proofs.Access.Everyone
import PolicyTree.Proofs.Access.Extending
import PolicyTree.Proofs.Access.Governing
import PolicyTree.Proofs.Access.Isolation
import PolicyTree.Proofs.Access.Keeping
import PolicyTree.Proofs.Access.Keys
import PolicyTree.Proofs.Access.Outgrowing
import PolicyTree.Proofs.Access.Overlooking
import PolicyTree.Proofs.Access.Owning
import PolicyTree.Proofs.Access.Readiness
import PolicyTree.Proofs.Access.Removing
import PolicyTree.Proofs.Ancestry
import PolicyTree.Proofs.Combining
import PolicyTree.Proofs.Comparison
import PolicyTree.Proofs.Distinct
import PolicyTree.Proofs.Glob.Anchoring
import PolicyTree.Proofs.Glob.Encoding
import PolicyTree.Proofs.Glob.Matching
import PolicyTree.Proofs.Observation.Dispatching
import PolicyTree.Proofs.Paths
import PolicyTree.Proofs.Policy.Content
import PolicyTree.Proofs.Policy.Curating
import PolicyTree.Proofs.Policy.Editing
import PolicyTree.Proofs.Policy.Exactness
import PolicyTree.Proofs.Policy.Framing
import PolicyTree.Proofs.Policy.Listing
import PolicyTree.Proofs.Policy.Naming
import PolicyTree.Proofs.Policy.Nesting
import PolicyTree.Proofs.Policy.Placement
import PolicyTree.Proofs.Policy.Quiet
import PolicyTree.Proofs.Policy.Readability
import PolicyTree.Proofs.Policy.Recognition
import PolicyTree.Proofs.Policy.Repeating
import PolicyTree.Proofs.Policy.Replacing
import PolicyTree.Proofs.Policy.Revising
import PolicyTree.Proofs.Policy.RoundTrip
import PolicyTree.Proofs.Policy.Storing
import PolicyTree.Proofs.Policy.Summary
import PolicyTree.Proofs.Precedence
import PolicyTree.Proofs.Privilege.Accounts
import PolicyTree.Proofs.Privilege.Compactness
import PolicyTree.Proofs.Privilege.Covering
import PolicyTree.Proofs.Privilege.Registering
import PolicyTree.Proofs.Recency
import PolicyTree.Proofs.Repository.Broadcasting
import PolicyTree.Proofs.Repository.Caches
import PolicyTree.Proofs.Repository.Coherence
import PolicyTree.Proofs.Repository.Developing
import PolicyTree.Proofs.Repository.Drafts
import PolicyTree.Proofs.Repository.Editing
import PolicyTree.Proofs.Repository.Exchanges
import PolicyTree.Proofs.Repository.Failing
import PolicyTree.Proofs.Repository.Granting
import PolicyTree.Proofs.Repository.Hearing
import PolicyTree.Proofs.Repository.Hosting
import PolicyTree.Proofs.Repository.Installing
import PolicyTree.Proofs.Repository.Invalidation
import PolicyTree.Proofs.Repository.Lifecycle
import PolicyTree.Proofs.Repository.Operations
import PolicyTree.Proofs.Repository.Phases
import PolicyTree.Proofs.Repository.Policies
import PolicyTree.Proofs.Repository.Providing
import PolicyTree.Proofs.Repository.Recording
import PolicyTree.Proofs.Repository.Refreshing
import PolicyTree.Proofs.Repository.Respecting
import PolicyTree.Proofs.Repository.Runs
import PolicyTree.Proofs.Repository.Saving
import PolicyTree.Proofs.Repository.Serving
import PolicyTree.Proofs.Repository.Sessions
import PolicyTree.Proofs.Repository.Stillness
import PolicyTree.Proofs.Repository.Subscribing
import PolicyTree.Proofs.Repository.Using
import PolicyTree.Proofs.Success
import PolicyTree.Proofs.Tree.Changes
import PolicyTree.Proofs.Tree.Following
import PolicyTree.Proofs.Tree.Histories
import PolicyTree.Proofs.Tree.Locating
import PolicyTree.Proofs.Tree.Location
import PolicyTree.Proofs.Tree.Reading
import PolicyTree.Proofs.Tree.Removal
import PolicyTree.Proofs.Tree.Succeeding
import PolicyTree.Proofs.Tree.Telling
import PolicyTree.Proofs.Tree.Working
import PolicyTree.Proofs.Tree.Writing
import PolicyTree.Proofs.Types
import PolicyTree.Repository.Basic
import PolicyTree.Repository.Checking
import PolicyTree.Repository.Observing
import PolicyTree.Repository.Providing
import PolicyTree.Settings
import PolicyTree.Sorting
import PolicyTree.Table
import PolicyTree.Text.Flags
import PolicyTree.Text.Graphic
import PolicyTree.Text.Hex
import PolicyTree.Text.Pieces
import PolicyTree.Text.Quoted
import PolicyTree.Text.Wildcard
import PolicyTree.Toml.Document
import PolicyTree.Toml.Moment
import PolicyTree.Toml.Number
import PolicyTree.Toml.Scanner
import PolicyTree.Toml.Table
import PolicyTree.Toml.Value
import PolicyTree.Tree.Change
import PolicyTree.Tree.Error
import PolicyTree.Tree.Fault
import PolicyTree.Tree.NodeTypes
import PolicyTree.Tree.Session
import PolicyTree.Tree.Store
import PolicyTree.Tree.View
import PolicyTree.Value
