import ModuleTree.Path.Name
import ModuleTree.Graph.Accumulator
import ModuleTree.Walk.Iterator
import ModuleTree.Main
import ModuleTree.Run.Protocol
import ModuleTree.Proofs.Dictionary
import ModuleTree.Proofs.Procedure
import ModuleTree.Proofs.Run.JobCourse
import ModuleTree.Proofs.Run.ListenerCourse
import ModuleTree.Proofs.Run.TaskReports
import ModuleTree.Proofs.Run.Invariant
import ModuleTree.Proofs.Run.SequentialSchedule
import ModuleTree.Proofs.Run.Outcome
import ModuleTree.Proofs.Run.GraphFile
import ModuleTree.Proofs.Run.GenuineErrors
import ModuleTree.Proofs.Run.ScheduleIndependence
import ModuleTree.Proofs.Run.JobCalls
import ModuleTree.Proofs.Run.Progress
import ModuleTree.Proofs.Run.InOrder
import ModuleTree.Proofs.Run.LoneWorker
import ModuleTree.Proofs.FileSystem.Destination
import ModuleTree.Proofs.FileSystem.Reach
import ModuleTree.Proofs.FileSystem.Alike
import ModuleTree.Proofs.FileSystem.Numbered
import ModuleTree.Proofs.Path.Ancestors
import ModuleTree.Proofs.Path.Below
import ModuleTree.Proofs.Walk.Arrival
import ModuleTree.Proofs.Walk.Trail
import ModuleTree.Proofs.Walk.Iteration
import ModuleTree.Proofs.Walk.Visible
import ModuleTree.Proofs.Walk.Loop
import ModuleTree.Proofs.Walk.Hidden
import ModuleTree.Proofs.Run.Delivery
import ModuleTree.Proofs.Run.Sources
import ModuleTree.Proofs.Run.GraphPlace
import ModuleTree.Proofs.FileSystem.Frame
import ModuleTree.Proofs.Run.Frame
import ModuleTree.Proofs.Run.Uncompiled
import ModuleTree.Proofs.FileSystem.Beside
import ModuleTree.Proofs.Run.LoneFailure
import ModuleTree.Proofs.Walk.FirstOfEach
import ModuleTree.Proofs.Walk.Origin
import ModuleTree.Proofs.Walk.RootSet
import ModuleTree.Proofs.Walk.Overlap
import ModuleTree.Proofs.Walk.Collision
import ModuleTree.Proofs.Walk.Relative
import ModuleTree.Proofs.Walk.Counted
import ModuleTree.Proofs.Walk.Blame
import ModuleTree.Proofs.Run.Nesting
import ModuleTree.Proofs.Text.ByteOrder
import ModuleTree.Proofs.Json.RoundTrip
import ModuleTree.Proofs.Graph.ReadBack
import ModuleTree.Proofs.FileSystem.Soundness
import ModuleTree.Proofs.FileSystem.Unshared
import ModuleTree.Proofs.FileSystem.Rewritten
import ModuleTree.Proofs.Walk.Again
import ModuleTree.Proofs.Run.Content
import ModuleTree.Proofs.Run.Warrant
import ModuleTree.Proofs.Run.Rewriting
import ModuleTree.Proofs.Run.Remains
import ModuleTree.Proofs.Run.Rerun
import ModuleTree.Proofs.Barrier.ReleasedOnce
import ModuleTree.Proofs.ImportMap
import ModuleTree.Proofs.Compiler.Arguments
import ModuleTree.Proofs.Compiled
import ModuleTree.Proofs.Compiler.Talk
import ModuleTree.Proofs.Stream.Stages
import ModuleTree.Proofs.ImportMap.Pairs
import ModuleTree.Proofs.Text.Lossy
import ModuleTree.Proofs.Path.Stem
import ModuleTree.Proofs.Path.ModuleName
import ModuleTree.Proofs.Walk.NodeName
import ModuleTree.Proofs.Directory.Ensured
import ModuleTree.Proofs.Path.Rejoined
import ModuleTree.Proofs.FileSystem.Vacant
import ModuleTree.Proofs.FileSystem.Furnished
import ModuleTree.Proofs.Procedure.Together
import ModuleTree.Proofs.Directory.Unhindered
import ModuleTree.Proofs.Directory.Told
import ModuleTree.Proofs.Directory.Together
import ModuleTree.Proofs.Path.Normalized
import ModuleTree.Proofs.Walk.Fused
import ModuleTree.Proofs.Graph.FirstNode
