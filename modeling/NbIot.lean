import NbIot.Uart.RxRing
import NbIot.At.Dialogue
import NbIot.Ipc.MutexExclusion
import NbIot.Ipc.MutexPriority
import NbIot.Heap.Aligned
import NbIot.Ipc.MailboxWake
import NbIot.Mempool.Blocks
import NbIot.Ipc.MessageQueueRuns
import NbIot.Timer.Flags
import NbIot.Ipc.WaitOrder
import NbIot.Device.RefCount
import NbIot.Kernel.Reap
import NbIot.Kernel.Resume
import NbIot.Kservice.Conversions
import NbIot.Kservice.MemOps
import NbIot.Kservice.StringOrder
import NbIot.Finsh.CodeSize
import NbIot.Finsh.Evaluate
import NbIot.Finsh.Increment
import NbIot.Finsh.Literals
import NbIot.Finsh.Msh
import NbIot.Finsh.Resolve
import NbIot.Ipc.ThreadTimers
import NbIot.Memheap.Requests
import NbIot.Driver.DataQueue
import NbIot.Driver.Pipe
import NbIot.Finsh.Auth
import NbIot.Finsh.Lines
import NbIot.Dfs.Romfs
import NbIot.Dfs.RamfsData
import NbIot.Driver.Alarm
import NbIot.Driver.Completion
import NbIot.Driver.WorkQueue
import NbIot.Utilities.Ymodem
import NbIot.At.Crc
import NbIot.At.Hex
import NbIot.At.Replies
import NbIot.Memheap.System
import NbIot.Kernel.Schedule
import NbIot.Timer.Check
import NbIot.Libc.ClockTime
