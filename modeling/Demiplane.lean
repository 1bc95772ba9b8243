import Demiplane.Disruptor.BlockingWait
import Demiplane.Scroll.Shutdown
import Demiplane.Postgres.Completion
import Demiplane.Postgres.Waiters
import Demiplane.Postgres.Fairness
import Demiplane.Postgres.Shutdown
import Demiplane.Postgres.LockFree.ConnectionPool
import Demiplane.Postgres.LockFree.Exclusivity
import Demiplane.Postgres.LockFree.SlotSearch
import Demiplane.Postgres.Capabilities.World
import Demiplane.Postgres.Capabilities.Steps
import Demiplane.Postgres.Capabilities.Ownership
import Demiplane.Postgres.Capabilities.Protocol
import Demiplane.Postgres.Capabilities.Blocks
import Demiplane.Postgres.Capabilities.Savepoints
import Demiplane.Postgres.Capabilities.Nesting
import Demiplane.Sql.Lexer
import Demiplane.Query.Dialect
import Demiplane.Query.Params
import Demiplane.Query.Expression
import Demiplane.Query.Visitor
import Demiplane.Postgres.Executors
import Demiplane.Query.Aliases
import Demiplane.Query.Conditions
import Demiplane.Query.Injection
import Demiplane.Query.Numbering
import Demiplane.Query.SetOperations
import Demiplane.Query.Modes
import Demiplane.Postgres.RoundTrip
import Demiplane.Postgres.BoundParameters
import Demiplane.Postgres.Bytea
import Demiplane.Postgres.ConnectionStrings
import Demiplane.Algorithms.SlidingWindowSorter
import Demiplane.Algorithms.SortedBag
import Demiplane.Nexus.Histories
import Demiplane.Nexus.Reregistration
import Demiplane.Nexus.Construction
import Demiplane.Multithread.Tasks
import Demiplane.Multithread.Cleanup
import Demiplane.Disruptor.RemainingCapacity
import Demiplane.Postgres.LockFree.CleanupQueries
import Demiplane.Postgres.ConfigJson
import Demiplane.Query.StaticTables
import Demiplane.Http.RoutePatterns
import Demiplane.Gears.InlineString
import Demiplane.Gears.DigitBuffer
import Demiplane.Ink.Table
import Demiplane.Postgres.LockFree.Connections
import Demiplane.Nexus.Progress
import Demiplane.Http.Links
import Demiplane.Scroll.Durability
