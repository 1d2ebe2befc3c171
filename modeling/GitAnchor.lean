import GitAnchor.Foundation.ContentStore
import GitAnchor.Foundation.Transition
import GitAnchor.Foundation.Result
import GitAnchor.Foundation.Lines
import GitAnchor.Foundation.Blocks
import GitAnchor.Foundation.Agents
import GitAnchor.Substrate.NormalForm
import GitAnchor.Attest.Chain
import GitAnchor.Attest.SignedBytes
import GitAnchor.Attest.Verify
import GitAnchor.Attest.Key
import GitAnchor.Attest.Resolve
import GitAnchor.Attest.History
import GitAnchor.Attest.Digest
import GitAnchor.Attest.Revocation
import GitAnchor.Attest.Verdicts
import GitAnchor.Attest.Publication
import GitAnchor.Attest.Rotation
import GitAnchor.Attest.Cli
import GitAnchor.Attest.Concurrent
import GitAnchor.Attest.Integrity
import GitAnchor.Attest.Interleaving
import GitAnchor.Attest.Linearization
import GitAnchor.Anchoring.Util
import GitAnchor.Foundation.Hunks
import GitAnchor.Anchoring.Fingerprint
import GitAnchor.Anchoring.Repository
import GitAnchor.Anchoring.Capture
import GitAnchor.Anchoring.DiffTrace
import GitAnchor.Anchoring.Placement
import GitAnchor.Anchoring.Plain
import GitAnchor.Anchoring.Worktree
import GitAnchor.Anchoring.TreeDiff
import GitAnchor.Foundation.Layouts
import GitAnchor.Anchoring.TreeLayout
import GitAnchor.Anchoring.TreeObjects
import GitAnchor.Anchoring.TreeDiffExact
import GitAnchor.Anchoring.TreeReplay
import GitAnchor.Anchoring.TreeReads
import GitAnchor.Anchoring.Binding
import GitAnchor.Anchoring.Alignment
import GitAnchor.Anchoring.CleanFilter
import GitAnchor.Anchoring.FingerprintOracle
import GitAnchor.Anchoring.Validity
import GitAnchor.Anchoring.LostGenesis
import GitAnchor.Anchoring.Create
import GitAnchor.Foundation.Ancestry
import GitAnchor.Anchoring.Reachability
import GitAnchor.Anchoring.Coordinates
import GitAnchor.Foundation.Minima
import GitAnchor.Anchoring.MinHash
import GitAnchor.Anchoring.OracleExact
import GitAnchor.Anchoring.Remove
import GitAnchor.Foundation.Paths
import GitAnchor.Anchoring.CanonicalPath
import GitAnchor.Foundation.Text
import GitAnchor.Anchoring.LinesArg
import GitAnchor.Foundation.Unfolding
import GitAnchor.Anchoring.Anchorable
import GitAnchor.Attest.Retry
import GitAnchor.Attest.Progress
import GitAnchor.Attest.Permanence
import GitAnchor.Attest.Commands
import GitAnchor.Foundation.Overlay
import GitAnchor.Anchoring.Documents
import GitAnchor.Anchoring.Inject
import GitAnchor.Anchoring.Session
import GitAnchor.Anchoring.Registry
import GitAnchor.Anchoring.Project
import GitAnchor.Anchoring.Meaning
import GitAnchor.Attest.Prompt
import GitAnchor.Attest.Payloads
import GitAnchor.Attest.Targets
import GitAnchor.Attest.Processes
import GitAnchor.Attest.Undisturbed
import GitAnchor.Anchoring.TreeHistory
