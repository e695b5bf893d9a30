import Prinbee.Lib.Splice
import Prinbee.Lib.Forest
import Prinbee.Lib.Run
import Prinbee.Lib.Copies
import Prinbee.Lib.Crc
import Prinbee.Lib.LinkedList
import Prinbee.Lib.Traversal
import Prinbee.Lib.Walks
import Prinbee.Lib.JavaScript
import Prinbee.Lib.StringLiteral
import Prinbee.Lib.NestedComment
import Prinbee.Lib.Limbs
import Prinbee.Lib.BinarySearch
import Prinbee.Lib.Blocks
import Prinbee.Lib.TokenStream
import Prinbee.Lib.Precedence
import Prinbee.Basic
import Prinbee.State
import Prinbee.BigInt.UInt512
import Prinbee.BigInt.Int512
import Prinbee.BigInt.UInt512Arithmetic
import Prinbee.BigInt.Int512Arithmetic
import Prinbee.BigInt.Int512Division
import Prinbee.BigInt.Text
import Prinbee.BigInt.Int512Bits
import Prinbee.Data.Convert
import Prinbee.Data.ConvertRoundTrip
import Prinbee.Data.ConvertRange
import Prinbee.Data.ConvertNarrow
import Prinbee.Data.VirtualBuffer
import Prinbee.Data.VirtualBufferChunks
import Prinbee.Data.VirtualBufferRefinement
import Prinbee.Data.VirtualBufferBounds
import Prinbee.Data.Structure
import Prinbee.Data.StructureLayout
import Prinbee.Data.StructureSafety
import Prinbee.Data.BitFields
import Prinbee.Data.Bits
import Prinbee.Data.StructureEdit
import Prinbee.Data.StructureValues
import Prinbee.Data.StructureDefaults
import Prinbee.Data.StructureFresh
import Prinbee.Data.StructureUsable
import Prinbee.Data.TableModel
import Prinbee.Data.ComplexType
import Prinbee.Data.ComplexTypeFile
import Prinbee.Data.DbFile
import Prinbee.File.Hash
import Prinbee.Block.FreeSpace
import Prinbee.Block.FreeSpaceLayout
import Prinbee.Block.FreeSpaceInvariant
import Prinbee.Block.FreeSpaceRelease
import Prinbee.Block.FreeSpaceTables
import Prinbee.Block.Schema
import Prinbee.Block.SchemaList
import Prinbee.Pbql.Node
import Prinbee.Pbql.Temporaries
import Prinbee.Pbql.Literals
import Prinbee.Pbql.Like
import Prinbee.Pbql.Input
import Prinbee.Pbql.Comment
import Prinbee.Pbql.Lexer
import Prinbee.Pbql.LexerLiterals
import Prinbee.Pbql.Tokens
import Prinbee.Pbql.Command
import Prinbee.Pbql.Parser
import Prinbee.Pbql.Transaction
import Prinbee.Pbql.Grammar
import Prinbee.Pbql.Select
import Prinbee.Pbql.SelectAgreement
import Prinbee.Pbql.CreateContext
import Prinbee.Pbql.ContextAgreement
import Prinbee.Pbql.ExpressionParser
import Prinbee.Pbql.ExpressionComplete
import Prinbee.Pbql.ExpressionSound
import Prinbee.Pbql.ExpressionMeaning
import Prinbee.Block.Calls
import Prinbee.Database.BlockAllocation
import Prinbee.Database.BlockAllocationSafety
import Prinbee.Database.References
import Prinbee.Database.IndirectIndex
import Prinbee.Database.IndirectIndexArray
import Prinbee.Database.IndirectIndexInsert
import Prinbee.Database.PrimaryIndex
import Prinbee.Database.Cell
import Prinbee.Database.Row
import Prinbee.Database.CellConversion
import Prinbee.Database.CellOrder
import Prinbee.Database.Cursor
import Prinbee.Database.CellRoundTrip
import Prinbee.Database.RowRoundTrip
import Prinbee.Database.RowMigration
import Prinbee.Database.Context
import Prinbee.Database.ContextManager
import Prinbee.Database.ContextTypes
import Prinbee.Network.Crc16
import Prinbee.Network.MessageName
import Prinbee.Network.MessageHeader
import Prinbee.Network.Corruption
import Prinbee.Database.PrimaryIndexMap
import Prinbee.Journal.RequestId
import Prinbee.Journal.EventFile
import Prinbee.Journal.Journal
import Prinbee.Journal.FileIndex
import Prinbee.Journal.Tiling
import Prinbee.Journal.Loading
import Prinbee.Journal.Sound
import Prinbee.Journal.Objects
import Prinbee.Journal.FileSize
import Prinbee.Journal.EventRecord
import Prinbee.Journal.Compaction
import Prinbee.Journal.Consistency
import Prinbee.Journal.Replay
import Prinbee.Journal.Contents
import Prinbee.Journal.Durable
import Prinbee.Journal.Legible
import Prinbee.Journal.Reopening
import Prinbee.Journal.Unchanged
import Prinbee.Journal.Ledger
import Prinbee.Journal.Refinement
import Prinbee.Network.Acknowledgment
import Prinbee.Network.MessageStream
import Prinbee.Network.Expectations
import Prinbee.Network.MessageData
import Prinbee.Network.PingPong
import Prinbee.Network.PrinbeeConnection
import Prinbee.Network.Announcements
import Prinbee.Proxy.ContextList
import Prinbee.Daemon.Prinbeed
import Prinbee.Daemon.ClusterLock
import Prinbee.Daemon.ContextNames
import Prinbee.Daemon.Answers
import Prinbee.Daemon.ContextAgreement
