import MeshLight.Bench
import MeshLight.Config.Blob
import MeshLight.Config.Json
import MeshLight.Node
import MeshLight.Pending
import MeshLight.Prog.Path
import MeshLight.Script.Fields
import MeshLight.Script.Names
import MeshLight.Script.Records
import MeshLight.Startup
import MeshLight.Proofs.Engine.Run
import MeshLight.Proofs.Command.Dispatch
import MeshLight.Proofs.Engine.Event
import MeshLight.Proofs.Session.Episode
import MeshLight.Proofs.Sending
import MeshLight.Proofs.Command.Rejection
import MeshLight.Proofs.Binary64.Exact
import MeshLight.Proofs.Binary64.Shortest
import MeshLight.Proofs.Button.LongPress
import MeshLight.Proofs.Timers.Serves
import MeshLight.Proofs.Engine.Calls
import MeshLight.Proofs.Timers.Settings
import MeshLight.Proofs.Join.Moves
import MeshLight.Proofs.Timers.Reports
import MeshLight.Proofs.Join.Sessions
import MeshLight.Proofs.Session.Connecting
import MeshLight.Proofs.Timers.Expiries
import MeshLight.Proofs.Timers.Passes
import MeshLight.Proofs.Command.Answer
import MeshLight.Proofs.Session.PollPeriod
import MeshLight.Proofs.Session.Registering
import MeshLight.Proofs.Timers.Leftover
import MeshLight.Proofs.Engine.Asked
import MeshLight.Proofs.Session.Presence
import MeshLight.Proofs.Notices.Deliveries
import MeshLight.Proofs.Config.Blob
import MeshLight.Proofs.Session.Roles
import MeshLight.Proofs.Json.Digits
import MeshLight.Proofs.Json.Spelling
import MeshLight.Proofs.Json.RoundTrip
import MeshLight.Proofs.Command.Envelope
import MeshLight.Proofs.Json.Record
import MeshLight.Proofs.Config.Json
import MeshLight.Proofs.Json.Double
import MeshLight.Proofs.Bodies
import MeshLight.Proofs.PollBoost
import MeshLight.Proofs.Button.Gestures
import MeshLight.Proofs.Button.Holds
import MeshLight.Proofs.Timers.Phase
import MeshLight.Proofs.Timers.Durations
import MeshLight.Proofs.Timers.Feed
import MeshLight.Proofs.Session.Advertising
import MeshLight.Proofs.Session.Replies
import MeshLight.Proofs.Command.OnBoard
import MeshLight.Proofs.Command.Status
import MeshLight.Proofs.Json.Literal
import MeshLight.Proofs.Json.Written
import MeshLight.Proofs.Command.Integers
import MeshLight.Proofs.Pending.Tokens
import MeshLight.Proofs.InstanceName
import MeshLight.Proofs.WorkQueue
import MeshLight.Proofs.Indicator
import MeshLight.Proofs.Rotation
import MeshLight.Proofs.Encoder
