import TupleStone.Lib.Outcome
import TupleStone.Lib.OrderedMap
import TupleStone.Lib.ByteDigits
import TupleStone.Lib.Attempt
import TupleStone.Lib.Cursor
import TupleStone.Lib.Binary64
import TupleStone.Lib.OpProgram
import TupleStone.Lib.Files
import TupleStone.Lib.Platform
import TupleStone.Lib.FrameLog
import TupleStone.Lib.Flag
import TupleStone.Lib.RandomAccess
import TupleStone.Lib.LinkedChain
import TupleStone.Lib.Unroll
import TupleStone.Lib.Lockstep
import TupleStone.Lib.Wildcard
import TupleStone.Lib.Kleene
import TupleStone.Lib.StableSort
import TupleStone.Lib.Firsts
import TupleStone.Lib.Terminated
import TupleStone.Lib.LexOrder
import TupleStone.Lib.BigEndian
import TupleStone.Lib.PaddedGroups
import TupleStone.Lib.Simulation
import TupleStone.Lib.ShiftRegister
import TupleStone.Lib.OrderedSet
import TupleStone.Lib.Buckets
import TupleStone.Lib.KeyedLog
import TupleStone.Lib.DecimalText
import TupleStone.Lib.DecimalRounding
import TupleStone.Lib.RoundingOrder
import TupleStone.Lib.NearestInteger
import TupleStone.Lib.OptimisticCommit
import TupleStone.Common.Bytes
import TupleStone.Common.Status
import TupleStone.Common.Value
import TupleStone.Common.Crc32c
import TupleStone.Common.Key
import TupleStone.Common.KeyOrder
import TupleStone.Common.KeyRoundTrip
import TupleStone.Common.KeyNumbers
import TupleStone.Api.Tables
import TupleStone.Api.Snapshot
import TupleStone.Api.SnapshotCodec
import TupleStone.Api.Tokenize
import TupleStone.Api.TokenText
import TupleStone.Api.Parser
import TupleStone.Api.ParserTotality
import TupleStone.Api.Eval
import TupleStone.Api.ParserResults
import TupleStone.Api.Diagnostics
import TupleStone.Api.Statement
import TupleStone.Api.StatementEffect
import TupleStone.Wal.LogManager
import TupleStone.Wal.LogFrames
import TupleStone.Wal.LogRuns
import TupleStone.Wal.LogReopen
import TupleStone.Wal.LogState
import TupleStone.Wal.TornAppend
import TupleStone.Wal.Watermark
import TupleStone.Api.Database
import TupleStone.Api.SaveFailure
import TupleStone.Api.Connection
import TupleStone.Api.Calls
import TupleStone.Api.Store
import TupleStone.Api.Recovery
import TupleStone.Api.OpenFailure
import TupleStone.Api.CommitFailure
import TupleStone.Common.Endian
import TupleStone.Disk.Page
import TupleStone.Disk.DiskManager
import TupleStone.Disk.Header
import TupleStone.Disk.PageStore
import TupleStone.Disk.PageRuns
import TupleStone.Disk.DoubleFree
import TupleStone.Disk.RejectedFile
import TupleStone.Buffer.BufferPool
import TupleStone.Buffer.PoolUse
import TupleStone.Buffer.PoolSteps
import TupleStone.Buffer.Transparency
import TupleStone.Buffer.PageCounter
import TupleStone.Api.WideTable
import TupleStone.Api.ProcessRuns
import TupleStone.Api.SnapshotLimits
import TupleStone.Disk.FailedUpdate
import TupleStone.Disk.TornWrite
import TupleStone.Api.ParsedTree
import TupleStone.Api.FrontEnd
import TupleStone.Api.EvalArguments
import TupleStone.Api.IntegerArithmetic
import TupleStone.Api.ParserRules
import TupleStone.Api.Reading
import TupleStone.Api.StringLiteral
import TupleStone.Api.Printing
import TupleStone.Buffer.PoolHistory
import TupleStone.Buffer.Eviction
import TupleStone.Api.Scan
import TupleStone.Api.ScanRuns
import TupleStone.Api.Like
import TupleStone.Api.StatementWords
import TupleStone.Api.RowValues
import TupleStone.Api.SimultaneousUpdate
import TupleStone.Api.ThreeValued
import TupleStone.Api.Membership
import TupleStone.Api.SelectRows
import TupleStone.Api.Scripts
import TupleStone.Api.SelectAll
import TupleStone.Api.OrderBy
import TupleStone.Api.SelectOrder
import TupleStone.Api.Count
import TupleStone.Api.DistinctKey
import TupleStone.Api.Enclosing
import TupleStone.Api.DeleteSelect
import TupleStone.Api.Catalog
import TupleStone.Api.Substitution
import TupleStone.Api.CatalogChange
import TupleStone.Api.Autocommit
import TupleStone.Common.CrcRegister
import TupleStone.Common.Rid
import TupleStone.Table.TableHeap
import TupleStone.Index.BPlusTree
import TupleStone.Index.Removal
import TupleStone.Txn.TransactionManager
import TupleStone.Txn.SnapshotStability
import TupleStone.Txn.EndsOnce
import TupleStone.Buffer.LRUKReplacer
import TupleStone.Buffer.VictimChoice
import TupleStone.Sql.Lexer
import TupleStone.Sql.LexerPositions
import TupleStone.Api.IntegerComparison
import TupleStone.Api.Connectives
import TupleStone.Api.NotPrecedence
import TupleStone.Api.StatementFrame
import TupleStone.Api.SerialRuns
import TupleStone.Api.FileHistory
import TupleStone.Api.Durability
import TupleStone.Api.Constraints
import TupleStone.Api.HandleRuns
