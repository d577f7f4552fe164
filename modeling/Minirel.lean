import Minirel.Utility
import Minirel.Page.Reach
import Minirel.BufMgr.Flush
import Minirel.BufMgr.HashTbl
import Minirel.Disk.Disposal
import Minirel.DB.OpenFiles
import Minirel.DB.Close
import Minirel.Store.Coherence
import Minirel.Sort.TempFile
import Minirel.Sort.Mark
import Minirel.JoinHT.FullWidth
import Minirel.HeapFile.Rescan
import Minirel.HeapFile.Lengths
import Minirel.HeapFile.Construct
import Minirel.HeapFile.Extend
import Minirel.Catalog.Dropped
import Minirel.Sort.Preorder
import Minirel.Sort.Verdict
import Minirel.Catalog.Names
import Minirel.Catalog.RelInfo
import Minirel.Select.Projection
import Minirel.HeapFile.Exists
import Minirel.Catalog.ScanErrors
import Minirel.Catalog.Whole
import Minirel.Catalog.Reopened
import Minirel.Catalog.Resources
import Minirel.Tables.NestedLoops
import Minirel.Tables.Printed
import Minirel.Tables.Lost
