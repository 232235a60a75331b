import RigExec.WarmIndex.Publication
import RigExec.WarmIndex.Mirror
import RigExec.FrameCache.Cap
import RigExec.Scheduler.Accounting
import RigExec.Scheduler.Sample
import RigExec.StepGraph.Validator
import RigExec.OpGraph.Renaming
import RigExec.OpGraph.Tasks
import RigExec.Sparsity.Reuse
import RigExec.Sparsity.Orders
import RigExec.Sparsity.Burst
import RigExec.Registry.Generations
import RigExec.Registry.Partition
import RigExec.Registry.Notices
import RigExec.Scheduler.Order
import RigExec.PointBlocks.History
import RigExec.FrameCache.Recency
import RigExec.OpGraph.Reset
import RigExec.OpGraph.Lowering
import RigExec.OpGraph.Exclusions
import RigExec.Snapshot.Publish
import RigExec.Scene.SwitchContexts
import RigExec.Mesh.Bending
import RigExec.Scene.PoseAtomicity
import RigExec.Scene.Convergence
import RigExec.Scene.TypedReadAgreement
import RigExec.Closure.Changes
import RigExec.Closure.Renumbering
import RigExec.Baked.Cones
import RigExec.Baked.LiveOrders
import RigExec.Upstream.Answers
import RigExec.Playback.SamplerRuns
import RigExec.Accel.Nearest
import RigExec.Touch.Mesh
import RigExec.Touch.Build
import RigExec.Touch.Cast
import RigExec.Touch.Tree
import RigExec.Touch.Prepared
import RigExec.Touch.Casting
import RigExec.Touch.Histories
import RigExec.Accel.FanTris
import RigExec.Accel.SurfaceProject
import RigExec.Accel.Projected
import RigExec.Lib.Loop
import RigExec.Lib.RunTree
import RigExec.Lib.RunBuild
import RigExec.Lib.Unroll
import RigExec.Weights.Folds
import RigExec.Lib.Entries
import RigExec.Weights.Shows
import RigExec.Weights.Agreement
import RigExec.Weights.Exact
import RigExec.Transport.RoundTrip
import RigExec.Paths.Order
import RigExec.Paths.Bake
import RigExec.Skin.RoundTrip
import RigExec.Closure.SmallRuns
import RigExec.Inputs.Publication
import RigExec.Closure.HeldSteps
import RigExec.PointBlocks.Ranges
import RigExec.Binary.Budget
import RigExec.Registry.ReadRoots
import RigExec.Resolved.Histories
import RigExec.Standalone.Restored
import RigExec.Standalone.TimeKeys
import RigExec.OpGraph.Incremental
import RigExec.Registry.Publishing
