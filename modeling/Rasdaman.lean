import Rasdaman.Relindexif.HierIndexBlob
import Rasdaman.Indexmgr.MDDObjIx
import Rasdaman.Rasmgr.ServerGroupPorts
import Rasdaman.Rasmgr.CommandRights
import Rasdaman.Servercomm.Transactions
import Rasdaman.Servercomm.CapabilitiesRoundTrip
import Rasdaman.Rasmgr.ManagersConsistent
import Rasdaman.Rasmgr.ClientSessions
import Rasdaman.Rnprotocol.MessagesRoundTrip
import Rasdaman.Rnprotocol.MalformedMessages
import Rasdaman.Qlparser.BindingsSurvive
import Rasdaman.Qlparser.ScalarTypes
import Rasdaman.Rasnetprotocol.TransferIntact
import Rasdaman.Qlparser.UpdateWrites
import Rasdaman.Lockmgr.LockConnection
import Rasdaman.Petascope.GridIndexCache
import Rasdaman.Petascope.SlicesFound
import Rasdaman.Petascope.GridSubsets
import Rasdaman.Reladminif.TransactionIf
import Rasdaman.Relcatalogif.DBMinterval
import Rasdaman.Raslib.TypeDescriptions
import Rasdaman.Reladminif.StoredState
import Rasdaman.Reladminif.ReferenceCounts
import Rasdaman.Conversion.CsvRoundTrip
import Rasdaman.Conversion.CsvComplete
import Rasdaman.Conversion.MemfsChunk
import Rasdaman.Indexmgr.IndexLogic
import Rasdaman.Indexmgr.SRCIndexExact
import Rasdaman.Rasmgr.ConfigurationManager
import Rasdaman.Relcatalogif.StructLayout
import Rasdaman.Relcatalogif.StructSound
import Rasdaman.Rasmgr.DatabaseHostLocks
import Rasdaman.Rasmgr.ServerGroupCapacity
import Rasdaman.Catalogmgr.OperatorObjects
import Rasdaman.Catalogmgr.IntegerOps
import Rasdaman.Catalogmgr.Cast
import Rasdaman.Catalogmgr.CharOps
import Rasdaman.Tilemgr.PointLoops
import Rasdaman.Qlparser.JoinIterator
import Rasdaman.Qlparser.Scale
import Rasdaman.Qlparser.Extend
import Rasdaman.Qlparser.BinaryInduce
import Rasdaman.Qlparser.Concat
import Rasdaman.Petascope.MultipartQueries
import Rasdaman.Raslib.ParsePairs
import Rasdaman.Tilemgr.Tiler
import Rasdaman.Rasodmg.SizeTiling
import Rasdaman.Rasodmg.DirTiling
import Rasdaman.Rasodmg.InterestGrouping
import Rasdaman.Rasodmg.InterestAreas
import Rasdaman.Rasodmg.StatFilter
import Rasdaman.Raslib.CellPoint
import Rasdaman.Tilemgr.CopyTile
import Rasdaman.Tilemgr.SplitTile
import Rasdaman.Raslib.MiterCells
import Rasdaman.Raslib.MiterStep
import Rasdaman.Raslib.MiterArea
import Rasdaman.Raslib.MiterFloat
import Rasdaman.Raslib.MintervalText
import Rasdaman.Raslib.SintervalSets
import Rasdaman.Rasj.Agreement
import Rasdaman.Relblobif.BlobFSAtomicity
import Rasdaman.Server.HttpRequest
import Rasdaman.Servercomm.TransferEncoding
import Rasdaman.Servercomm.HttpResponse
import Rasdaman.Machinery.Records
import Rasdaman.Rasmgr.AuthFile
import Rasdaman.Rasmgr.AuthFileSaved
