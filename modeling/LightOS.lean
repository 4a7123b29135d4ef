import LightOS.Vmm.HeapBreak
import LightOS.Vmm.MapPlace
import LightOS.Vmm.WriteProtect
import LightOS.Vmm.MemCacheFail
import LightOS.Ipc.MsgQueueBound
import LightOS.Ipc.PortRequest
import LightOS.Ipc.LpcBounds
import LightOS.Ipc.PipeWake
import LightOS.Ipc.PipeWrite
import LightOS.Ipc.ShareMemUnmap
import LightOS.Task.RwLock
import LightOS.Pthread.Semaphore
import LightOS.Pthread.MutexKinds
import LightOS.Pthread.Cond
import LightOS.Task.Semaphore
import LightOS.Task.CloseThread
import LightOS.Task.ElfHeap
import LightOS.Task.ArgBlock
import LightOS.Kern.ExceptionQueue
import LightOS.Task.Pid
import LightOS.Task.WaitReport
import LightOS.Task.ThreadJoin
import LightOS.Task.TimedWait
import LightOS.Task.Sleep
import LightOS.Kern.Timer
import LightOS.Mm.EarlyMap
import LightOS.Mm.MemPoolFree
import LightOS.Acct.PathCheck
import LightOS.Acct.SconfRead
import LightOS.Acct.AccountFile
import LightOS.Acct.PermissionFile
import LightOS.Fs.FsalRoute
import LightOS.Fs.FsalTable
import LightOS.Fs.PipeId
import LightOS.Fs.FdDup2
import LightOS.Fs.BuildPath
import LightOS.Vmm.VirMemFree
import LightOS.Kern.FifoIo
import LightOS.Ipc.FifoLock
import LightOS.Ipc.FifoLife
import LightOS.Kern.DeviceOpen
import LightOS.Kern.DeviceQueue
import LightOS.Kern.Softirq
import LightOS.View.RenderLine
import LightOS.View.Env
import LightOS.View.ViewLock
import LightOS.View.LayerLife
import LightOS.Kern.BitmapScan
import LightOS.Vmm.MemAlign
import LightOS.Kern.InputEvent
import LightOS.Kern.BlockDevice
import LightOS.Kern.UserStr
import LightOS.Kern.Vsprintf
import LightOS.Kern.WeekDay
import LightOS.Kern.Timestamp
import LightOS.View.MoveNext
import LightOS.View.CalcResize
import LightOS.View.RefreshBounds
import LightOS.View.Bitblt
import LightOS.Kern.Alarm
