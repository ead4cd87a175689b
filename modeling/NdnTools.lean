import NdnTools.Lib.Run
import NdnTools.Lib.Loop
import NdnTools.Lib.TryLoop
import NdnTools.Lib.Tlv
import NdnTools.Lib.TlvObject
import NdnTools.Lib.AListWhere
import NdnTools.Lib.SortedMap
import NdnTools.Lib.Pigeonhole
import NdnTools.Lib.DefaultTable
import NdnTools.Lib.LruCache
import NdnTools.Lib.Cursor
import NdnTools.Packet
import NdnTools.Chunks.Consumer
import NdnTools.Chunks.Producer
import NdnTools.Chunks.RoundTrip
import NdnTools.Chunks.PipelineInterests
import NdnTools.Chunks.DataFetcher.Model
import NdnTools.Chunks.DataFetcher.Contract
import NdnTools.Chunks.DataFetcher.Outcome
import NdnTools.Chunks.DataFetcher.Backoff
import NdnTools.Chunks.DataFetcher.Waits
import NdnTools.Chunks.Discovery.Exclude
import NdnTools.Chunks.Discovery.Model
import NdnTools.Chunks.Discovery.Steps
import NdnTools.Chunks.Discovery.Signals
import NdnTools.Chunks.Discovery.Strays
import NdnTools.Chunks.Discovery.Latest
import NdnTools.Chunks.Discovery.Fixed
import NdnTools.Chunks.Discovery.Awake
import NdnTools.Chunks.FixedWindow.Model
import NdnTools.Chunks.FixedWindow.Slots
import NdnTools.Chunks.FixedWindow.Window
import NdnTools.Chunks.FixedWindow.Tolerance
import NdnTools.Chunks.FixedWindow.EndKnown
import NdnTools.Chunks.Adaptive.State
import NdnTools.Chunks.Adaptive.Model
import NdnTools.Chunks.Adaptive.Ops
import NdnTools.Chunks.Adaptive.Schedule
import NdnTools.Chunks.Adaptive.Rules
import NdnTools.Chunks.Adaptive.Aimd
import NdnTools.Chunks.Adaptive.Keyed
import NdnTools.Chunks.Adaptive.Tracking
import NdnTools.Chunks.Adaptive.InFlight
import NdnTools.Chunks.Adaptive.Requested
import NdnTools.Chunks.Adaptive.Reaction
import NdnTools.Chunks.Adaptive.Progress
import NdnTools.Chunks.Adaptive.Delivery
import NdnTools.Chunks.Adaptive.Response
import NdnTools.Chunks.Adaptive.History
import NdnTools.Chunks.Adaptive.Projection
import NdnTools.Chunks.Adaptive.Cubic
import NdnTools.Chunks.Adaptive.TcpBic
import NdnTools.Chunks.Adaptive.CubicCurve
import NdnTools.Chunks.Adaptive.OpenWindow
import NdnTools.Chunks.Adaptive.WindowFloor
import NdnTools.Chunks.Adaptive.BicResponse
import NdnTools.Chunks.Adaptive.BicDeterminism
import NdnTools.Chunks.Adaptive.Budget
import NdnTools.Chunks.Adaptive.Priority
import NdnTools.Chunks.Adaptive.Karn
import NdnTools.Chunks.Adaptive.RttBounds
import NdnTools.Chunks.Adaptive.HandedOn
import NdnTools.Chunks.Adaptive.Completed
import NdnTools.Chunks.Serving
import NdnTools.Chunks.Transfer.Parts
import NdnTools.Chunks.Transfer.Model
import NdnTools.Chunks.Transfer.Safety
import NdnTools.Chunks.Transfer.Completion
import NdnTools.Chunks.Transfer.Completed
import NdnTools.Ndnping.Statistics
import NdnTools.Ndnping.Client
import NdnTools.Ndnping.Completion
import NdnTools.Ndnping.Summary
import NdnTools.Ndnping.ExchangeCompletion
import NdnTools.Ndndump.Model
import NdnTools.Ndndump.Bounds
import NdnTools.Ndndump.Dump
import NdnTools.Pib.Name
import NdnTools.Pib.Db
import NdnTools.Pib.Integrity
import NdnTools.Pib.Footprint
import NdnTools.Pib.Commands
import NdnTools.Pib.Defaults
import NdnTools.Pib.Containment
import NdnTools.Pib.Privilege
import NdnTools.Pib.Stored
import NdnTools.Pib.Operations
import NdnTools.Pib.Signals
import NdnTools.Pib.Validator
import NdnTools.Pib.Reserved
import NdnTools.Pib.CertPublisher
import NdnTools.Pib.RowEvents
import NdnTools.Pib.Mirror
import NdnTools.Pib.KeyCache
import NdnTools.Pib.Encoding.Entities
import NdnTools.Pib.Encoding.Params
import NdnTools.Pib.Encoding.EntityTrips
import NdnTools.Pib.Encoding.Accepted
import NdnTools.Pib.Encoding.Redecoding
import NdnTools.Pib.Encoding.RoundTrip
import NdnTools.Pib.Encoding.Grammar
import NdnTools.Pib.DefaultQuery
import NdnTools.Pib.Contents
import NdnTools.Pib.Calls
import NdnTools.Pib.Queries
import NdnTools.Pib.Service
import NdnTools.Pib.Served
import NdnTools.Pib.Outsiders
import NdnTools.Dissector.Lua
import NdnTools.Dissector.Model
import NdnTools.Dissector.Tiles
import NdnTools.Dissector.VarNumber
import NdnTools.Dissector.Expansion
import NdnTools.Dissector.SubBlocks
import NdnTools.Dissector.Summary
import NdnTools.Dissector.Failures
import NdnTools.Dissector.Encoded
