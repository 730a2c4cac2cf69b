import Rtems.Heap.Inverse
import Rtems.Heap.DoubleFree
import Rtems.Watchdog.Adjust
import Rtems.Signal.Theorems
import Rtems.Tod.Alarm.Theorems
import Rtems.Tod.Clock
import Rtems.ThreadQueue.PriorityQueue
import Rtems.Creation.Failure
import Rtems.GlobalTask.Theorems
import Rtems.Region.Realloc
import Rtems.Mpci.Response
import Rtems.ThreadTimer.Theorems
import Rtems.Termios.Output
import Rtems.Termios.Devices
import Rtems.Shm.Theorems
import Rtems.Psignal.Counter
import Rtems.Psignal.Siginfo
import Rtems.Timeslice.Theorems
import Rtems.Tasks.Theorems
import Rtems.Objects.Classes
import Rtems.Objects.Ident
import Rtems.Objects.Next
import Rtems.Partition.Disjoint
import Rtems.Signal.Restore
import Rtems.Mpci.Callouts
import Rtems.CoreMsg.Theorems
import Rtems.Psignal.Receive
import Rtems.RateMonotonic.Lengths
import Rtems.RateMonotonic.Timers
import Rtems.Tod.Timespec
import Rtems.Tod.Difference
import Rtems.Pthread.Keys
import Rtems.Pthread.Join
import Rtems.StackCheck
import Rtems.Libio
import Rtems.Symbols
import Rtems.Region.Malloc
import Rtems.Termios.Read
import Rtems.Tftp.Slots
