import Afly.C.Argv
import Afly.C.Decimal
import Afly.C.Dump
import Afly.C.Hex
import Afly.C.HexText
import Afly.C.Json
import Afly.C.LongLong
import Afly.C.Text
import Afly.C.Utf8
import Afly.C.Utf8Text
import Afly.Cloud.Handlers
import Afly.Cloud.Properties
import Afly.Cloud.Replies
import Afly.Cloud.SetProperty
import Afly.Digest.Compress
import Afly.Digest.Hmac
import Afly.Digest.Message
import Afly.Digest.Sha1
import Afly.Doors.Openings
import Afly.Doors.Records
import Afly.Events.Files
import Afly.Events.MainLoop
import Afly.Events.Serving
import Afly.Gateway.Devices
import Afly.Gateway.Events
import Afly.Gateway.Frames
import Afly.Gateway.Outcomes
import Afly.Gateway.Reports
import Afly.Gateway.Requests
import Afly.Gateway.Step
import Afly.Gateway.Tables
import Afly.Gateway.World
import Afly.Handles.Calls
import Afly.Handles.Login
import Afly.Handles.Mapping
import Afly.Hashtable.Basic
import Afly.Hashtable.Buckets
import Afly.Hashtable.Objects
import Afly.Hashtable.Refinement
import Afly.Hashtable.Walks
import Afly.Intake.Absent
import Afly.Intake.Packets
import Afly.Intake.Reports
import Afly.Intake.Values
import Afly.Intake.Waiting
import Afly.Keys.Accounting
import Afly.Keys.Acknowledge
import Afly.Keys.AddKey
import Afly.Keys.ClearAll
import Afly.Keys.Commute
import Afly.Keys.Distinct
import Afly.Keys.Edits
import Afly.Keys.KeyList
import Afly.Keys.Lifecycle
import Afly.Keys.Routing
import Afly.Keys.Stored
import Afly.Kv.Base64
import Afly.Kv.File
import Afly.Kv.Items
import Afly.Kv.ReadBack
import Afly.Kv.Runs
import Afly.Lib.Bits
import Afly.Lib.Blocks
import Afly.Lib.Capture
import Afly.Lib.Chain
import Afly.Lib.Directory
import Afly.Lib.Keyed
import Afly.Lib.Mirror
import Afly.Lib.Reach
import Afly.Lib.Ring
import Afly.Lib.Stdio
import Afly.Lib.Tally
import Afly.Lib.TwoWay
import Afly.Load.Accepted
import Afly.Load.Grammar
import Afly.Load.Lexemes
import Afly.Load.Lexer
import Afly.Load.Parser
import Afly.Load.Reals
import Afly.Load.RoundTrip
import Afly.Load.Stream
import Afly.Load.WellFormed
import Afly.Loop.Messages
import Afly.Loop.Process
import Afly.Loop.Sync
import Afly.Loop.Tasks
import Afly.Loop.Timers
import Afly.Platform.Console
import Afly.Platform.HalConf
import Afly.Platform.Mac
import Afly.Platform.NetInfo
import Afly.Provision.Dynamic
import Afly.Provision.Hotp
import Afly.Provision.Interval
import Afly.Provision.Password
import Afly.Provision.Window
import Afly.Queue.Deque
import Afly.Queue.Destroy
import Afly.Queue.List
import Afly.Registry.KeyTable
import Afly.Registry.Record
import Afly.Schedule.Basic
import Afly.Schedule.Pending
import Afly.Schedule.Spec
import Afly.Schedule.Table
import Afly.Schedule.Wrap
import Afly.Storage.Agreement
import Afly.Storage.Files
import Afly.Storage.Loading
import Afly.Storage.Parts
import Afly.Storage.Refinement
import Afly.Storage.Rows
import Afly.Storage.Streams
import Afly.Table.Answers
import Afly.Table.Bindings
import Afly.Table.Listing
import Afly.Table.Lists
import Afly.Tasks.Ends
import Afly.Tasks.Pending
import Afly.Tasks.Relock
import Afly.Timer.Basic
import Afly.Timer.Spec
import Afly.Wire.Bus
import Afly.Wire.Packets
import Afly.Zigbee.Distinct
import Afly.Zigbee.Layout
import Afly.Zigbee.Members
import Afly.Zigbee.Profile
import Afly.Zigbee.Recovered
import Afly.Zigbee.RoundTrip
import Afly.Zigbee.Values
