import CodeGraph.Graph.Tally
import CodeGraph.Stored.Graph
import CodeGraph.Stored.Query
import CodeGraph.Stored.Settings
import CodeGraph.Proofs.Flow.Traces
import CodeGraph.Proofs.Flow.Branches
import CodeGraph.Proofs.Flow.DataFlow
import CodeGraph.Proofs.Graph.Reached
import CodeGraph.Proofs.Graph.Absorb
import CodeGraph.Proofs.Graph.Join
import CodeGraph.Proofs.Graph.SideBySide
import CodeGraph.Proofs.Facts.ForLoop
import CodeGraph.Proofs.Calls.Alone
import CodeGraph.Proofs.Calls.Once
import CodeGraph.Proofs.Workspace
import CodeGraph.Proofs.Schema
import CodeGraph.Proofs.Flow.Straight
import CodeGraph.Proofs.Facts.Mention
import CodeGraph.Proofs.Facts.Scoping
import CodeGraph.Proofs.Facts.Seated
import CodeGraph.Proofs.Facts.Recital
import CodeGraph.Proofs.Facts.Begun
import CodeGraph.Proofs.Facts.Recited
import CodeGraph.Proofs.Flow.Simple
import CodeGraph.Proofs.Stored
import CodeGraph.Proofs.Flow.LastWrite
import CodeGraph.Proofs.Flow.Worklist
import CodeGraph.Proofs.Graph.Callers
import CodeGraph.Proofs.Graph.Paths
import CodeGraph.Proofs.Checked.Build
import CodeGraph.Proofs.Graph.DirectCallers
import CodeGraph.Proofs.Calls.Again
import CodeGraph.Proofs.Checked.Onward
import CodeGraph.Proofs.Flow.Live
import CodeGraph.Proofs.Graph.Ancestors
import CodeGraph.Proofs.Problem
import CodeGraph.Proofs.Files.Discovery
import CodeGraph.Proofs.Facts.Requests
import CodeGraph.Proofs.Facts.DepthFirst
import CodeGraph.Proofs.Environment
import CodeGraph.Proofs.Facts.Shaped
