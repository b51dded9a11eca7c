import CxxLab.Lib.Bisect
import CxxLab.Lib.Exec
import CxxLab.Lib.Run
import CxxLab.Lib.BigEndian
import CxxLab.Lib.KVStore
import CxxLab.Lib.Hoare
import CxxLab.Lib.Table
import CxxLab.Lib.Split
import CxxLab.Lib.CString
import CxxLab.Lib.Decimal
import CxxLab.Lib.Walk
import CxxLab.Lib.Tally
import CxxLab.Lib.Draws
import CxxLab.Lib.Block
import CxxLab.Lib.Lookahead
import CxxLab.Lib.Layout
import CxxLab.Lib.Monitor
import CxxLab.Lib.Simulation
import CxxLab.Lib.Grammar
import CxxLab.Lib.Pattern
import CxxLab.Lib.Scanner
import CxxLab.DbLab.Pager
import CxxLab.DbLab.Node
import CxxLab.DbLab.Search
import CxxLab.DbLab.Table
import CxxLab.DbLab.Leaf
import CxxLab.DbLab.Tree
import CxxLab.DbLab.Scan
import CxxLab.DbLab.Splice
import CxxLab.DbLab.Ingest
import CxxLab.DbLab.Repeats
import CxxLab.DbLab.Faults
import CxxLab.DbLab.Tokener
import CxxLab.DbLab.Rows
import CxxLab.DbLab.Command
import CxxLab.DbLab.Layout
import CxxLab.DbLab.FileTable
import CxxLab.DbLab.OnDisk
import CxxLab.DbLab.Programs
import CxxLab.DbLab.Ledger
import CxxLab.CkLab.Port
import CxxLab.CkLab.Exchange
import CxxLab.CkLab.Asserts
import CxxLab.CkLab.Pipe
import CxxLab.CkLab.Pipeline
import CxxLab.CkLab.Sink
import CxxLab.CkLab.AddSink
import CxxLab.CkLab.Merge
import CxxLab.CkLab.Graph
import CxxLab.CkLab.ToString
import CxxLab.CkLab.HierarchyGuard
import CxxLab.NewMetaLab.Resources
import CxxLab.NewMetaLab.Snapshots
import CxxLab.NewMetaLab.Calls
import CxxLab.NewMetaLab.Versions
import CxxLab.NewMetaLab.Shutdown
import CxxLab.NewMetaLab.Proxy
import CxxLab.NewMetaLab.Names
import CxxLab.RocksdbLab.Keys
import CxxLab.RocksdbLab.Comparator
import CxxLab.RocksdbLab.AdvancedDoc
import CxxLab.RocksdbLab.Schema
import CxxLab.RocksdbLab.Values
import CxxLab.RocksdbLab.Building
import CxxLab.RocksdbLab.Copies
import CxxLab.RocksdbLab.Impl
import CxxLab.RocksdbLab.Writes
import CxxLab.RocksdbLab.Catalog
import CxxLab.RocksdbLab.Runs
import CxxLab.RocksdbLab.Recovery
import CxxLab.RocksdbLab.Index
import CxxLab.RocksdbLab.Locations
import CxxLab.RocksdbLab.Documents
import CxxLab.RocksdbLab.Batch
import CxxLab.RocksdbLab.Readers
import CxxLab.RocksdbLab.Filters
import CxxLab.RocksdbLab.GetDoc
import CxxLab.RocksdbLab.GetDocs
import CxxLab.RocksdbLab.Columns
import CxxLab.RocksdbLab.Listing
import CxxLab.RocksdbLab.Workers
import CxxLab.RocksdbLab.Reports
import CxxLab.RocksdbLab.Stop
import CxxLab.RocksdbService.Tables
import CxxLab.RocksdbService.Server
import CxxLab.DuckdbLab.Tpcc
import CxxLab.DuckdbLab.Driver
import CxxLab.DuckdbLab.Consistency
import CxxLab.DuckdbLab.IdGenerator
import CxxLab.DuckdbLab.Factory
import CxxLab.DuckdbLab.Payment
import CxxLab.DuckdbLab.Collector
import CxxLab.DuckdbLab.Tasks
import CxxLab.DuckdbLab.ThreadPool
import CxxLab.AsioLab.Connection
import CxxLab.AsioLab.Pool
import CxxLab.JustLab.Load
import CxxLab.HomeLab.Lexer
import CxxLab.YaccLab.Parser
import CxxLab.YaccLab.Heater
import CxxLab.YaccLab.Flex
import CxxLab.YaccLab.Scan
import CxxLab.YaccLab.Example6
import CxxLab.Compiler.Tokens
