import BenchPlatform.Lib.Trans
import BenchPlatform.Lib.Delimited
import BenchPlatform.Lib.Table
import BenchPlatform.Lib.Program
import BenchPlatform.Lib.Hoare
import BenchPlatform.Lib.Keyset
import BenchPlatform.Lib.Orbit
import BenchPlatform.Lib.Rounding
import BenchPlatform.Lib.Cycle
import BenchPlatform.Lib.Sample
import BenchPlatform.Lib.Cumulative
import BenchPlatform.Lib.Grouping
import BenchPlatform.Lib.Fips180
import BenchPlatform.Lib.Rotation
import BenchPlatform.Lib.Text
import BenchPlatform.Engine.SpinBarrier.Basic
import BenchPlatform.Engine.SpinBarrier.Safety
import BenchPlatform.Engine.Histogram
import BenchPlatform.Engine.Latency
import BenchPlatform.Engine.Session.Basic
import BenchPlatform.Engine.Session.Worker
import BenchPlatform.Engine.Session.Safety
import BenchPlatform.Engine.Session.Progress
import BenchPlatform.Engine.Session.Live
import BenchPlatform.Engine.Session.Shutdown
import BenchPlatform.Engine.Metric
import BenchPlatform.Engine.MemLatency
import BenchPlatform.Engine.Buffer
import BenchPlatform.Engine.MemBw
import BenchPlatform.Engine.Kernels
import BenchPlatform.Engine.Stats
import BenchPlatform.Engine.Exact
import BenchPlatform.Engine.Welford
import BenchPlatform.Engine.Result
import BenchPlatform.Engine.Codec
import BenchPlatform.Engine.Validate
import BenchPlatform.Engine.Runner.Basic
import BenchPlatform.Engine.Summary
import BenchPlatform.Engine.Runner.Trials
import BenchPlatform.Engine.Runner.Rules
import BenchPlatform.Engine.Runner.Rows
import BenchPlatform.Engine.Runner.Complete
import BenchPlatform.Engine.Cli
import BenchPlatform.Engine.Sizes
import BenchPlatform.Engine.Sysinfo
import BenchPlatform.Engine.Smaps
import BenchPlatform.Engine.Runner.Keys
import BenchPlatform.Engine.Runner.Budget
import BenchPlatform.Engine.Runner.WriteGate
import BenchPlatform.Engine.Runner.Interleave
import BenchPlatform.Engine.DiskIo
import BenchPlatform.Engine.LatencyTrials
import BenchPlatform.Engine.Transfers
import BenchPlatform.Engine.EnsureTestFile
import BenchPlatform.Engine.Runner.TestFile
import BenchPlatform.Engine.Sha256
import BenchPlatform.Engine.MachineId
import BenchPlatform.Engine.Url
import BenchPlatform.Engine.Http
import BenchPlatform.Engine.Post
import BenchPlatform.Api.Strings
import BenchPlatform.Api.Number
import BenchPlatform.Api.Float
import BenchPlatform.Api.Errors
import BenchPlatform.Api.Json
import BenchPlatform.Api.Model.Enums
import BenchPlatform.Api.Model.Timestamp
import BenchPlatform.Api.Model.Basic
import BenchPlatform.Api.Model.Stream
import BenchPlatform.Api.Model.Deliveries
import BenchPlatform.Api.Model.FieldOrder
import BenchPlatform.Api.Model.Validation
import BenchPlatform.Api.Model.RepeatedResults
import BenchPlatform.Api.Schema
import BenchPlatform.Api.Model.Reads
import BenchPlatform.Api.Model.Conforms
import BenchPlatform.Api.Model.Problems
import BenchPlatform.Api.Store.Postgres
import BenchPlatform.Api.Store.Ingest
import BenchPlatform.Api.Store.IngestSpec
import BenchPlatform.Api.Store.IngestTotal
import BenchPlatform.Api.Store.SetSemantics
import BenchPlatform.Api.Store.Atomicity
import BenchPlatform.Api.Store.RunArguments
import BenchPlatform.Api.Store.StreamAgrees
import BenchPlatform.Api.Store.Encoded
import BenchPlatform.Api.Store.History
import BenchPlatform.Api.Store.Repost
import BenchPlatform.Api.Store.Chunks
import BenchPlatform.Api.Cache.Redis
import BenchPlatform.Api.Cache.Basic
import BenchPlatform.Api.Cache.Freshness
import BenchPlatform.Api.Cache.Registration
import BenchPlatform.Api.Cache.Isolation
import BenchPlatform.Api.Cache.Sequential
import BenchPlatform.Api.Http.Analytics
import BenchPlatform.Api.Http.CacheKey
import BenchPlatform.Api.Store.Queries
import BenchPlatform.Api.Store.Placeholders
import BenchPlatform.Api.Store.Sql
import BenchPlatform.Api.Store.Aggregates
import BenchPlatform.Api.Http.Measurements
import BenchPlatform.Api.Lttb
import BenchPlatform.Api.Lttb.Over
import BenchPlatform.Api.Lttb.Exact
import BenchPlatform.Api.Http.Trials
import BenchPlatform.Api.Http.Middleware
import BenchPlatform.Api.Http.Ingest
import BenchPlatform.Api.Store.Pending
import BenchPlatform.Api.Store.Blameless
import BenchPlatform.Api.Http.Refusals
import BenchPlatform.Api.Migrations
import BenchPlatform.Api.Seed.Machines
import BenchPlatform.Api.Seed.Model
import BenchPlatform.Api.Seed.Generate
import BenchPlatform.Wire.Literal
import BenchPlatform.Wire.Dump
import BenchPlatform.Wire.Sent
import BenchPlatform.Wire.Streamed
import BenchPlatform.Wire.Double
import BenchPlatform.Wire.Patterns
import BenchPlatform.Wire.Accepted
import BenchPlatform.Wire.Upload
import BenchPlatform.Wire.RunId
import BenchPlatform.Wire.Timestamp
import BenchPlatform.Wire.Produced
import BenchPlatform.Wire.Reply
import BenchPlatform.Wire.Exchange
import BenchPlatform.Wire.Command
