import FlowScript.Document.Basic
import FlowScript.Library.Types
import FlowScript.Main
import FlowScript.Probe.Sketch
import FlowScript.Proofs.Bookkeeping
import FlowScript.Proofs.Climbing
import FlowScript.Proofs.Coverage
import FlowScript.Proofs.Documents
import FlowScript.Proofs.Freshness
import FlowScript.Proofs.Independence
import FlowScript.Proofs.Memoization
import FlowScript.Proofs.Ordering
import FlowScript.Proofs.Provenance
import FlowScript.Proofs.Pull
import FlowScript.Proofs.Rearranged
import FlowScript.Proofs.Restart
import FlowScript.Proofs.Sessions
import FlowScript.Runner.Basic
import FlowScript.Proofs.Defaults
import FlowScript.Proofs.Typing
import FlowScript.Proofs.Soundness
import FlowScript.Proofs.Chains
import FlowScript.Proofs.Cycles
import FlowScript.Proofs.ExactRanks
import FlowScript.Proofs.Needed
import FlowScript.Proofs.DepthFirst
import FlowScript.Proofs.Failures
import FlowScript.Proofs.GivenUp
import FlowScript.Proofs.Suspension
import FlowScript.Proofs.Upstream
import FlowScript.Proofs.Listening
import FlowScript.Proofs.Retries
import FlowScript.Proofs.Deliveries
import FlowScript.Proofs.EventTexts
import FlowScript.Proofs.RankRange
