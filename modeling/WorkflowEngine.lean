import WorkflowEngine.Command.Arguments
import WorkflowEngine.Command.Output
import WorkflowEngine.Command.Perform
import WorkflowEngine.Configuration
import WorkflowEngine.Configuration.Codec
import WorkflowEngine.Definition.Codec
import WorkflowEngine.Definition.Workflow
import WorkflowEngine.Engine.Basic
import WorkflowEngine.Engine.Call
import WorkflowEngine.Engine.Codec
import WorkflowEngine.Engine.Timeline
import WorkflowEngine.Error
import WorkflowEngine.Error.Codec
import WorkflowEngine.Event.Basic
import WorkflowEngine.Event.Bus
import WorkflowEngine.Event.Codec
import WorkflowEngine.Execution.Codec
import WorkflowEngine.Execution.Record
import WorkflowEngine.Execution.Status
import WorkflowEngine.Fields
import WorkflowEngine.File.Program
import WorkflowEngine.File.System
import WorkflowEngine.Graph.Basic
import WorkflowEngine.Graph.Codec
import WorkflowEngine.Graph.Cycle
import WorkflowEngine.Host
import WorkflowEngine.Http.Charset
import WorkflowEngine.Http.MediaType
import WorkflowEngine.Http.Message
import WorkflowEngine.Http.Scripted
import WorkflowEngine.Http.Url
import WorkflowEngine.Json.Basic
import WorkflowEngine.Json.Decode
import WorkflowEngine.Json.Loose
import WorkflowEngine.Json.Printer
import WorkflowEngine.Json.Reader
import WorkflowEngine.Main
import WorkflowEngine.Node.Basic
import WorkflowEngine.Node.Codec
import WorkflowEngine.Node.Condition
import WorkflowEngine.Node.HttpRequest
import WorkflowEngine.Node.Registry
import WorkflowEngine.Node.Sample
import WorkflowEngine.Node.Standard
import WorkflowEngine.Node.Tools
import WorkflowEngine.Node.Transform
import WorkflowEngine.Node.Waiting
import WorkflowEngine.Number.Binary64
import WorkflowEngine.Number.Decimal
import WorkflowEngine.Proofs.Command.Perform
import WorkflowEngine.Proofs.Command.Resume
import WorkflowEngine.Proofs.Command.Validate
import WorkflowEngine.Proofs.Definition.Codec
import WorkflowEngine.Proofs.Definition.Depth
import WorkflowEngine.Proofs.Definition.Naming
import WorkflowEngine.Proofs.Definition.Recast
import WorkflowEngine.Proofs.Definition.Reread
import WorkflowEngine.Proofs.Duel
import WorkflowEngine.Proofs.Engine.Active
import WorkflowEngine.Proofs.Engine.Descent
import WorkflowEngine.Proofs.Engine.Ending
import WorkflowEngine.Proofs.Engine.Exclusion
import WorkflowEngine.Proofs.Engine.Signs
import WorkflowEngine.Proofs.Event.Codec
import WorkflowEngine.Proofs.Event.Reread
import WorkflowEngine.Proofs.Execution.Codec
import WorkflowEngine.Proofs.Execution.Recast
import WorkflowEngine.Proofs.File.Program
import WorkflowEngine.Proofs.File.System
import WorkflowEngine.Proofs.Graph.Alike
import WorkflowEngine.Proofs.Graph.Cycle
import WorkflowEngine.Proofs.Graph.Entry
import WorkflowEngine.Proofs.Graph.Path
import WorkflowEngine.Proofs.Graph.Valid
import WorkflowEngine.Proofs.Json.Depth
import WorkflowEngine.Proofs.Json.Front
import WorkflowEngine.Proofs.Json.Number
import WorkflowEngine.Proofs.Json.Parts
import WorkflowEngine.Proofs.Json.Point
import WorkflowEngine.Proofs.Json.Quote
import WorkflowEngine.Proofs.Json.Recast
import WorkflowEngine.Proofs.Json.Reorder
import WorkflowEngine.Proofs.Json.Text
import WorkflowEngine.Proofs.Node.Frame
import WorkflowEngine.Proofs.Node.Setting
import WorkflowEngine.Proofs.Node.Signs
import WorkflowEngine.Proofs.Node.Stringify
import WorkflowEngine.Proofs.Number.Rounding
import WorkflowEngine.Proofs.Number.Shortest
import WorkflowEngine.Proofs.Number.Whole
import WorkflowEngine.Proofs.Run.Act
import WorkflowEngine.Proofs.Run.Bearing
import WorkflowEngine.Proofs.Run.Over
import WorkflowEngine.Proofs.Run.Signs
import WorkflowEngine.Proofs.Run.Smooth
import WorkflowEngine.Proofs.Run.Speech
import WorkflowEngine.Proofs.Run.Tale
import WorkflowEngine.Proofs.Run.Walk
import WorkflowEngine.Proofs.Run.Work
import WorkflowEngine.Proofs.Service.Body
import WorkflowEngine.Proofs.Session.Agreement
import WorkflowEngine.Proofs.Session.Allotment
import WorkflowEngine.Proofs.Session.Basic
import WorkflowEngine.Proofs.Session.Bounded
import WorkflowEngine.Proofs.Session.Chronicle
import WorkflowEngine.Proofs.Session.Conduct
import WorkflowEngine.Proofs.Session.Course
import WorkflowEngine.Proofs.Session.Custody
import WorkflowEngine.Proofs.Session.Failure
import WorkflowEngine.Proofs.Session.Filed
import WorkflowEngine.Proofs.Session.Frame
import WorkflowEngine.Proofs.Session.Fresh
import WorkflowEngine.Proofs.Session.Ledger
import WorkflowEngine.Proofs.Session.Once
import WorkflowEngine.Proofs.Session.Overtaken
import WorkflowEngine.Proofs.Session.Passage
import WorkflowEngine.Proofs.Session.Publication
import WorkflowEngine.Proofs.Session.Queues
import WorkflowEngine.Proofs.Session.ReadBack
import WorkflowEngine.Proofs.Session.Record
import WorkflowEngine.Proofs.Session.Refusal
import WorkflowEngine.Proofs.Session.Restart
import WorkflowEngine.Proofs.Session.Signs
import WorkflowEngine.Proofs.Session.Transparent
import WorkflowEngine.Proofs.Session.Undisturbed
import WorkflowEngine.Proofs.State.Filing
import WorkflowEngine.Proofs.State.Reading
import WorkflowEngine.Proofs.State.Sharing
import WorkflowEngine.Proofs.State.Signs
import WorkflowEngine.Proofs.State.Snapshot
import WorkflowEngine.Proofs.State.Tracking
import WorkflowEngine.Proofs.Store.Change
import WorkflowEngine.Proofs.Store.Crash
import WorkflowEngine.Proofs.Store.Holding
import WorkflowEngine.Proofs.Store.Lawful
import WorkflowEngine.Proofs.Store.Layout
import WorkflowEngine.Proofs.Store.Mirror
import WorkflowEngine.Proofs.Store.Origin
import WorkflowEngine.Proofs.Store.Race
import WorkflowEngine.Proofs.Store.Reread
import WorkflowEngine.Proofs.Store.Rooted
import WorkflowEngine.Proofs.Store.Signs
import WorkflowEngine.Proofs.Store.Text
import WorkflowEngine.Proofs.Store.Writing
import WorkflowEngine.Proofs.Text.Digits
import WorkflowEngine.Proofs.Text.Split
import WorkflowEngine.Proofs.Text.Utf8
import WorkflowEngine.Proofs.Timestamp
import WorkflowEngine.Proofs.Uuid
import WorkflowEngine.Proofs.Value.Depth
import WorkflowEngine.Proofs.Value.Json
import WorkflowEngine.Proofs.Value.Signs
import WorkflowEngine.Run.Basic
import WorkflowEngine.Run.Step
import WorkflowEngine.Service.Answer
import WorkflowEngine.Service.Basic
import WorkflowEngine.Service.Codec
import WorkflowEngine.Service.Message
import WorkflowEngine.Service.Route
import WorkflowEngine.Service.Socket
import WorkflowEngine.State.Basic
import WorkflowEngine.State.Codec
import WorkflowEngine.State.Handle
import WorkflowEngine.State.Operation
import WorkflowEngine.Store.Basic
import WorkflowEngine.Store.Fault
import WorkflowEngine.Store.File
import WorkflowEngine.Store.Memory
import WorkflowEngine.Supply
import WorkflowEngine.Text.Blank
import WorkflowEngine.Text.Hex
import WorkflowEngine.Text.Padding
import WorkflowEngine.Text.Percent
import WorkflowEngine.Text.Upper
import WorkflowEngine.Text.Utf8
import WorkflowEngine.Timestamp
import WorkflowEngine.Uuid
import WorkflowEngine.Value.Basic
import WorkflowEngine.Value.Json
import WorkflowEngine.Workplace
