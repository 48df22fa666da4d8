import Xv6.ArrayList
import Xv6.BalancedCalls
import Xv6.Bitmap
import Xv6.BlockOwnership
import Xv6.BufferLaws
import Xv6.DirMap
import Xv6.ExecLaws
import Xv6.Find
import Xv6.Grep
import Xv6.InodeLaws
import Xv6.LinkRuns
import Xv6.LogAdmission
import Xv6.LostBytes
import Xv6.Memmove
import Xv6.MkfsFiles
import Xv6.PageRuns
import Xv6.Pids
import Xv6.PipeLaws
import Xv6.Recovery
import Xv6.ShLine
import Xv6.SleepLoops
import Xv6.SleepWakeup
import Xv6.Spinlock
import Xv6.Syscall
import Xv6.ThreadStack
import Xv6.Uart
import Xv6.UmallocBreak
import Xv6.VirtioLaws
import Xv6.WriteBudget
import Xv6.WriteFailures
