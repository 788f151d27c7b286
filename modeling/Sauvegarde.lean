import Sauvegarde.Lib.Prog
import Sauvegarde.Lib.Base64
import Sauvegarde.Lib.Decimal
import Sauvegarde.Lib.Utf8
import Sauvegarde.Lib.Runs
import Sauvegarde.Lib.Scan
import Sauvegarde.Lib.Memory
import Sauvegarde.Lib.LastWrite
import Sauvegarde.Lib.StableSort
import Sauvegarde.Lib.FileSystem
import Sauvegarde.Lib.Worklist
import Sauvegarde.Lib.Slices
import Sauvegarde.Extern.Glib
import Sauvegarde.Extern.Jansson
import Sauvegarde.Extern.KeyFile
import Sauvegarde.Extern.Microhttpd
import Sauvegarde.Extern.Gio
import Sauvegarde.Extern.Sorting
import Sauvegarde.Extern.DateTime
import Sauvegarde.Extern.LocalFiles
import Sauvegarde.Extern.Enumerate
import Sauvegarde.Libcdpfgl.Compress
import Sauvegarde.Libcdpfgl.Files
import Sauvegarde.Libcdpfgl.Packing
import Sauvegarde.Libcdpfgl.Unpacking
import Sauvegarde.Libcdpfgl.Communique
import Sauvegarde.Libcdpfgl.Database
import Sauvegarde.Libcdpfgl.Strings
import Sauvegarde.Libcdpfgl.Query
import Sauvegarde.Libcdpfgl.FileLists
import Sauvegarde.Libcdpfgl.Dates
import Sauvegarde.Libcdpfgl.HashHeader
import Sauvegarde.Libcdpfgl.LocalFiles
import Sauvegarde.Server.MongodbBackend
import Sauvegarde.Server.Get
import Sauvegarde.Server.MinioBackend
import Sauvegarde.Server.FileMeta
import Sauvegarde.Server.FileData
import Sauvegarde.Server.Post
import Sauvegarde.Server.BlockThreads
import Sauvegarde.Server.Upload
import Sauvegarde.Server.MetaLines
import Sauvegarde.Server.ListRequest
import Sauvegarde.Server.MetaFilename
import Sauvegarde.Server.FileList
import Sauvegarde.Server.MongodbSearch
import Sauvegarde.Restore.Request
import Sauvegarde.Restore.Files
import Sauvegarde.Restore.CreateFile
import Sauvegarde.Client.Save
import Sauvegarde.Client.Carving
import Sauvegarde.Client.Requests
import Sauvegarde.Client.Selection
import Sauvegarde.Client.Files
import Sauvegarde.System
import Sauvegarde.Theorems.Wire
import Sauvegarde.Theorems.Mongodb
import Sauvegarde.Theorems.RequestMethod
import Sauvegarde.Theorems.Streams
import Sauvegarde.Theorems.Batch
import Sauvegarde.Theorems.Restoring
import Sauvegarde.Theorems.Minio
import Sauvegarde.Theorems.Buffers
import Sauvegarde.Theorems.FlatFile
import Sauvegarde.Theorems.Saving
import Sauvegarde.Theorems.Cached
import Sauvegarde.Theorems.BigFile
import Sauvegarde.Theorems.Sending
import Sauvegarde.Theorems.Dedup
import Sauvegarde.Theorems.BlockStore
import Sauvegarde.Theorems.Needed
import Sauvegarde.Theorems.Retrieving
import Sauvegarde.Theorems.Uploads
import Sauvegarde.Theorems.OneRecord
import Sauvegarde.Theorems.QueryTransport
import Sauvegarde.Theorems.MetaDirectory
import Sauvegarde.Theorems.MinioFallback
import Sauvegarde.Theorems.Newest
import Sauvegarde.Theorems.MetaBackends
import Sauvegarde.Theorems.RestoreTree
import Sauvegarde.Theorems.Carving
import Sauvegarde.Theorems.BatchSize
import Sauvegarde.Theorems.Acknowledged
import Sauvegarde.Theorems.WholeHashs
import Sauvegarde.Theorems.DamagedFile
import Sauvegarde.Theorems.Latest
import Sauvegarde.Libcdpfgl.HashPieces
import Sauvegarde.Libcdpfgl.DateText
import Sauvegarde.Theorems.IncompleteDates
import Sauvegarde.Theorems.ShortOutput
import Sauvegarde.Server.Subdirectories
import Sauvegarde.Theorems.Directories
import Sauvegarde.Restore.FreeNames
import Sauvegarde.Theorems.NeverOverwrites
import Sauvegarde.Restore.AllVersions
import Sauvegarde.Theorems.AllVersions
import Sauvegarde.Client.Exclude
import Sauvegarde.Theorems.Exclusion
import Sauvegarde.Lib.Comparison
import Sauvegarde.Libcdpfgl.Comparisons
import Sauvegarde.Server.Handler
import Sauvegarde.Theorems.Statistics
import Sauvegarde.Lib.Loop
import Sauvegarde.Server.MetaReads
import Sauvegarde.Theorems.MetaReads
import Sauvegarde.Client.Monitored
import Sauvegarde.Theorems.Monitored
import Sauvegarde.Lib.Retry
import Sauvegarde.Server.Retries
import Sauvegarde.Theorems.Retries
import Sauvegarde.Libcdpfgl.Configuration
import Sauvegarde.Client.Options
import Sauvegarde.Theorems.Options
import Sauvegarde.Theorems.Origin
import Sauvegarde.Theorems.RoundTrip
import Sauvegarde.Libcdpfgl.FilesTable
import Sauvegarde.Client.Cache
import Sauvegarde.Theorems.Incremental
import Sauvegarde.Restore.Main
import Sauvegarde.Theorems.EndToEnd
import Sauvegarde.Theorems.RestoreAll
import Sauvegarde.Theorems.Growbuffer
import Sauvegarde.Lib.Ring
import Sauvegarde.Server.Growbuffer
import Sauvegarde.Backup
import Sauvegarde.Theorems.Backup
import Sauvegarde.Lib.Transactions
import Sauvegarde.Libcdpfgl.Transactions
import Sauvegarde.Theorems.Transactions
