import RelStore.Catalog
import RelStore.Config
import RelStore.Console.Session
import RelStore.Engine.Session
import RelStore.Files.Directory.Update
import RelStore.Index.BPlusTree
import RelStore.Json.Reader
import RelStore.Locks
import RelStore.Main
import RelStore.Sql.Statement.Opening
import RelStore.Sql.Statement.Render
import RelStore.Table.Table
import RelStore.Proofs.Config
import RelStore.Proofs.Console.ResultTable
import RelStore.Proofs.Engine.Agreement
import RelStore.Proofs.Engine.Commuting
import RelStore.Proofs.Engine.Durable
import RelStore.Proofs.Engine.Isolation
import RelStore.Proofs.Engine.Orders
import RelStore.Proofs.Engine.Reachable
import RelStore.Proofs.Engine.Relational
import RelStore.Proofs.Engine.Reopening
import RelStore.Proofs.Engine.Waiting
import RelStore.Proofs.Files.Appending
import RelStore.Proofs.Index.Arena.Cursor
import RelStore.Proofs.Index.Arena.Repair
import RelStore.Proofs.Index.Arena.Runs
import RelStore.Proofs.Index.Height
import RelStore.Proofs.Locks.Guards
import RelStore.Proofs.Sql.Announcement
import RelStore.Proofs.Sql.Constraints
import RelStore.Proofs.Sql.Printing
import RelStore.Proofs.Sql.Steps
import RelStore.Proofs.Table.Fresh
import RelStore.Proofs.Table.Replay
import RelStore.Proofs.Table.Torn
