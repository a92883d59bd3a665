import SessionMux.Base64
import SessionMux.Channel.Basic
import SessionMux.CommandLine.Invocation
import SessionMux.CommandLine.Reading
import SessionMux.Files.Directory
import SessionMux.Files.Locations
import SessionMux.Files.Tree
import SessionMux.Gzip.Inflate
import SessionMux.Gzip.Member
import SessionMux.Heartbeat.Basic
import SessionMux.Heartbeat.Rehearsal
import SessionMux.Hub.Basic
import SessionMux.Hub.Inbound
import SessionMux.Hub.Loopback
import SessionMux.Hub.Monitor
import SessionMux.Hub.Outbox
import SessionMux.Json.Value
import SessionMux.Link.Basic
import SessionMux.Link.Pipe
import SessionMux.Logging.Filter
import SessionMux.Logging.Options
import SessionMux.Logging.Setup
import SessionMux.Main
import SessionMux.Message.Basic
import SessionMux.Message.Hook
import SessionMux.Message.Report
import SessionMux.Message.Request
import SessionMux.MuxFault
import SessionMux.Octets.Basic
import SessionMux.Octets.Buffer
import SessionMux.Program.RunReport
import SessionMux.Program.Session
import SessionMux.Program.Startup
import SessionMux.Proofs.Base64
import SessionMux.Proofs.Files.Directory
import SessionMux.Proofs.Files.Tree
import SessionMux.Proofs.Gzip
import SessionMux.Proofs.Gzip.Blocks
import SessionMux.Proofs.Gzip.Codes
import SessionMux.Proofs.Gzip.Expansion
import SessionMux.Proofs.Gzip.Members
import SessionMux.Proofs.Heartbeat.Rehearsal
import SessionMux.Proofs.Heartbeat.Reports
import SessionMux.Proofs.Hub.Acts
import SessionMux.Proofs.Hub.Calls
import SessionMux.Proofs.Hub.Closing
import SessionMux.Proofs.Hub.ClosingWithin
import SessionMux.Proofs.Hub.Correlation
import SessionMux.Proofs.Hub.Dispatch
import SessionMux.Proofs.Hub.History
import SessionMux.Proofs.Hub.Inflow
import SessionMux.Proofs.Hub.Moves
import SessionMux.Proofs.Hub.Places
import SessionMux.Proofs.Hub.Requests
import SessionMux.Proofs.Hub.Seats
import SessionMux.Proofs.Hub.Shutdown
import SessionMux.Proofs.Hub.Tally
import SessionMux.Proofs.Hub.WireOrder
import SessionMux.Proofs.Hub.World
import SessionMux.Proofs.Json.Reading
import SessionMux.Proofs.Json.RoundTrip
import SessionMux.Proofs.Link.Delivery
import SessionMux.Proofs.Link.Moves
import SessionMux.Proofs.Link.Safety
import SessionMux.Proofs.Link.Traffic
import SessionMux.Proofs.Lookup
import SessionMux.Proofs.Message.Report
import SessionMux.Proofs.Octets
import SessionMux.Proofs.Program.Printing
import SessionMux.Proofs.Program.Watch
import SessionMux.Proofs.Record.Exact
import SessionMux.Proofs.Record.Messages
import SessionMux.Proofs.Record.Reading
import SessionMux.Proofs.Replies.Keeping
import SessionMux.Proofs.Replies.Table
import SessionMux.Proofs.Settings.Loading
import SessionMux.Proofs.Subscribers.Chronicle
import SessionMux.Proofs.Subscribers.Promises
import SessionMux.Proofs.Subscribers.Serving
import SessionMux.Proofs.Text.Lossy
import SessionMux.Proofs.Toml.Forms
import SessionMux.Proofs.Toml.Names
import SessionMux.Proofs.Toml.Texts
import SessionMux.Proofs.Transport.Retry
import SessionMux.Proofs.Wire.Attempts
import SessionMux.Proofs.Wire.Frames
import SessionMux.Proofs.Wire.Grammar
import SessionMux.Proofs.Wire.Incremental
import SessionMux.Proofs.Wire.Intake
import SessionMux.Proofs.Wire.Limits
import SessionMux.Proofs.Wire.LineEnds
import SessionMux.Proofs.Wire.Lines
import SessionMux.Proofs.Wire.Progress
import SessionMux.Proofs.Wire.RoundTrip
import SessionMux.Proofs.Wire.Scanning
import SessionMux.Proofs.Wire.Stalling
import SessionMux.Record.Basic
import SessionMux.Replies.Basic
import SessionMux.Replies.Waiting
import SessionMux.Settings.Basic
import SessionMux.Settings.Source
import SessionMux.Subscribers.Basic
import SessionMux.Subscribers.Reaction
import SessionMux.SystemFault
import SessionMux.Text.Utf8
import SessionMux.Toml.Document
import SessionMux.Toml.Draft
import SessionMux.Toml.Scalar
import SessionMux.Transport.Address
import SessionMux.Transport.Isolated
import SessionMux.Transport.Retry
import SessionMux.Wire.Envelope
import SessionMux.Wire.Fault
import SessionMux.Wire.Framing
import SessionMux.Wire.Intake
