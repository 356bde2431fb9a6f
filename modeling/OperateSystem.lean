import OperateSystem.Accounting
import OperateSystem.Bitmap
import OperateSystem.BlockSync
import OperateSystem.DescriptorsSound
import OperateSystem.DirDelete
import OperateSystem.DirRace
import OperateSystem.DirRaceSound
import OperateSystem.FileRunSound
import OperateSystem.Fork
import OperateSystem.ForkPages
import OperateSystem.ForkSound
import OperateSystem.FsCache
import OperateSystem.Heap
import OperateSystem.HeapSound
import OperateSystem.Load
import OperateSystem.LoadSound
import OperateSystem.Lock
import OperateSystem.LockSound
import OperateSystem.PipesSound
import OperateSystem.UserHeap
import OperateSystem.Writers
import OperateSystem.FsIo
import OperateSystem.FsIoSound
import OperateSystem.IoQueueSound
import OperateSystem.IdeSound
import OperateSystem.PidSound
import OperateSystem.ReapSound
import OperateSystem.PageDirSound
import OperateSystem.DirListing
import OperateSystem.DirRead
import OperateSystem.BitmapScan
import OperateSystem.TaskName
import OperateSystem.FsFail
import OperateSystem.GetcwdSound
import OperateSystem.FsBalance
import OperateSystem.CwdSound
import OperateSystem.DirFound
import OperateSystem.NameBufSound
import OperateSystem.PathWalk
import OperateSystem.RmdirSound
import OperateSystem.FormatSound
import OperateSystem.IoBuf
import OperateSystem.PoolLayout
import OperateSystem.PageAdd
import OperateSystem.AllocFail
import OperateSystem.ForkVm
import OperateSystem.ForkFail
import OperateSystem.SegmentMap
import OperateSystem.Spaces
import OperateSystem.ForkCopy
import OperateSystem.LoadReads
import OperateSystem.LoadImage
import OperateSystem.Execv
import OperateSystem.PipeCalls
import OperateSystem.PrintfSound
import OperateSystem.IdeDriver
import OperateSystem.BuildinCmd
import OperateSystem.Timer
import OperateSystem.PagesRefine
