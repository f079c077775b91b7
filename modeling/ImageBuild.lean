import ImageBuild.Daemon.Script
import ImageBuild.Engine.Connect
import ImageBuild.Engine.Script
import ImageBuild.FileTree.Place
import ImageBuild.Pipeline
import ImageBuild.Registry.Store
import ImageBuild.Proofs.Glob.OwnText
import ImageBuild.Proofs.Ignore.Reinclusion
import ImageBuild.Proofs.FileTree.Listing
import ImageBuild.Proofs.FileTree.Naming
import ImageBuild.Proofs.Archive.Pruning
import ImageBuild.Proofs.FileTree.Resolution
import ImageBuild.Proofs.Path.Parent
import ImageBuild.Proofs.Solve.Context
import ImageBuild.Proofs.Stage.Leads
import ImageBuild.Proofs.Stage.Waiting
import ImageBuild.Proofs.Stage.Calm
import ImageBuild.Proofs.Push.Attempt
import ImageBuild.Proofs.Push.Course
import ImageBuild.Proofs.Push.Retrying
import ImageBuild.Proofs.Pipeline.Order
import ImageBuild.Proofs.Pipeline.Progress
import ImageBuild.Proofs.Pipeline.Opening
import ImageBuild.Proofs.Pipeline.Legs
import ImageBuild.Proofs.Pipeline.Run
import ImageBuild.Proofs.Engine.Verdict
import ImageBuild.Proofs.Engine.Vertexes
import ImageBuild.Proofs.Registry.Views
import ImageBuild.Proofs.Solve.Session
import ImageBuild.Proofs.Recorder.Nesting
import ImageBuild.Proofs.Stage.Tame
import ImageBuild.Proofs.Stage.Landmarks
import ImageBuild.Proofs.Pipeline.Phases
import ImageBuild.Proofs.Pipeline.Nesting
import ImageBuild.Proofs.Path.Place
import ImageBuild.Proofs.Path.Inside
import ImageBuild.Proofs.Text.Encode
import ImageBuild.Proofs.Ignore.Keeping
import ImageBuild.Proofs.Ignore.Loading
import ImageBuild.Proofs.Context.Package
import ImageBuild.Proofs.Context.Dockerfile
import ImageBuild.Proofs.Engine.Query
import ImageBuild.Proofs.Stage.Ends
import ImageBuild.Proofs.Pipeline.Rooted
import ImageBuild.Proofs.Pipeline.Roots
import ImageBuild.Proofs.Pipeline.Blame
import ImageBuild.Proofs.Pipeline.Untagging
import ImageBuild.Proofs.Stage.Bound
import ImageBuild.Proofs.Classic.Exits
import ImageBuild.Proofs.Classic.Listening
import ImageBuild.Proofs.Classic.Fault
import ImageBuild.Proofs.Classic.Handling
import ImageBuild.Proofs.Registry.Hub
import ImageBuild.Proofs.Stage.Blind
import ImageBuild.Proofs.Pipeline.Modes
import ImageBuild.Proofs.Solve.Telling
import ImageBuild.Proofs.Registry.Table
import ImageBuild.Proofs.Registry.Spellings
import ImageBuild.Proofs.Path.Respelling
import ImageBuild.Proofs.Registry.Reference
import ImageBuild.Proofs.Text.Base64
import ImageBuild.Proofs.Text.Decode
import ImageBuild.Proofs.Registry.Pairs
import ImageBuild.Proofs.Archive.Unpacking
import ImageBuild.Proofs.Archive.Chunks
import ImageBuild.Proofs.Text.Size
import ImageBuild.Proofs.Classic.Upload
import ImageBuild.Proofs.Recorder.Guards
import ImageBuild.Proofs.Ignore.NormalForm
import ImageBuild.Proofs.Context.Sending
