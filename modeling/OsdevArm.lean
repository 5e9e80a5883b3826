import OsdevArm.Sched.Consistency
import OsdevArm.Sched.Run
import OsdevArm.Sched.Priority
import OsdevArm.Sched.Queue
import OsdevArm.Sched.Wakeup
import OsdevArm.Sched.Lock
import OsdevArm.Sched.Nesting
import OsdevArm.Mailbox.Ring
import OsdevArm.Mailbox.Waiters
import OsdevArm.Process.Basic
import OsdevArm.Process.Step
import OsdevArm.Process.Call
import OsdevArm.Process.Tree
import OsdevArm.Process.Wait
import OsdevArm.Process.WaitCall
import OsdevArm.Process.Pid
import OsdevArm.Process.Parent
import OsdevArm.Process.Load
import OsdevArm.Process.Exit
import OsdevArm.Spinlock
import OsdevArm.Loader
import OsdevArm.Interrupt
import OsdevArm.Libc
