import ToolsCxx.Lib.Machine
import ToolsCxx.Lib.Transitions
import ToolsCxx.Lib.Alarms
import ToolsCxx.Lib.RunQueue
import ToolsCxx.Lib.OrderedSet
import ToolsCxx.Lib.OrderedMap
import ToolsCxx.Lib.Lock
import ToolsCxx.Lib.SlotTable
import ToolsCxx.Lib.Sharing
import ToolsCxx.Lib.Sinks
import ToolsCxx.Lib.Numerals
import ToolsCxx.Lib.Streams
import ToolsCxx.Lib.Rounding
import ToolsCxx.Lib.LastIndex
import ToolsCxx.Lib.Blocks
import ToolsCxx.Lib.Counting
import ToolsCxx.Lib.Calendar
import ToolsCxx.Lib.FixedWidth
import ToolsCxx.Lib.ByteOrder
import ToolsCxx.Base.Integers
import ToolsCxx.Base.Timestamp
import ToolsCxx.Base.TimeText
import ToolsCxx.Base.SecondsText
import ToolsCxx.Base.Exception
import ToolsCxx.Base.CountDownLatch
import ToolsCxx.Base.Singleton
import ToolsCxx.TimerScheduler.Model
import ToolsCxx.TimerScheduler.Ownership
import ToolsCxx.TimerScheduler.Effects
import ToolsCxx.TimerScheduler.Frames
import ToolsCxx.TimerScheduler.Spent
import ToolsCxx.TimerScheduler.Store
import ToolsCxx.TimerScheduler.Cancel
import ToolsCxx.TimerScheduler.Alarm
import ToolsCxx.TimerScheduler.Completion
import ToolsCxx.TimerScheduler.Dispatch
import ToolsCxx.TimerScheduler.Arithmetic
import ToolsCxx.TimerScheduler.Lifetime
import ToolsCxx.TimerScheduler.Identity
import ToolsCxx.TimerScheduler.Loop
import ToolsCxx.TimerScheduler.Wakeup
import ToolsCxx.TimerScheduler.Service
import ToolsCxx.TimerScheduler.Teardown
import ToolsCxx.CoScheduler.Model
import ToolsCxx.CoScheduler.Steps
import ToolsCxx.CoScheduler.Tasks
import ToolsCxx.CoScheduler.Outside
import ToolsCxx.CoScheduler.Turns
import ToolsCxx.CoScheduler.Passes
import ToolsCxx.CoScheduler.Queue
import ToolsCxx.ThreadPool.Model
import ToolsCxx.ThreadPool.Steps
import ToolsCxx.ThreadPool.Stop
import ToolsCxx.ThreadPool.Delivery
import ToolsCxx.ThreadPool.Join
import ToolsCxx.ThreadPool.Ready
import ToolsCxx.ThreadPool.Work
import ToolsCxx.ThreadPool.Finish
import ToolsCxx.ThreadPool.Serving
import ToolsCxx.SchedulerThread.Model
import ToolsCxx.SchedulerThread.Steps
import ToolsCxx.SchedulerThread.Shutdown
import ToolsCxx.SchedulerThread.Lifetime
import ToolsCxx.SchedulerThread.Startup
import ToolsCxx.Pollers.Base
import ToolsCxx.Pollers.Poll
import ToolsCxx.Pollers.EPoll
import ToolsCxx.Pollers.Abstract
import ToolsCxx.Pollers.Slots
import ToolsCxx.Pollers.Kernel
import ToolsCxx.Pollers.Agreement
import ToolsCxx.Pollers.Table
import ToolsCxx.Pollers.HangUp
import ToolsCxx.Pollers.Growth
import ToolsCxx.Pollers.Exact
import ToolsCxx.TimerScheduler.Reactor
import ToolsCxx.Socket.Model
import ToolsCxx.Socket.Counts
import ToolsCxx.Socket.Address
import ToolsCxx.Socket.Ports
import ToolsCxx.Logging.Buffer
import ToolsCxx.Logging.Print
import ToolsCxx.Logging.Format
import ToolsCxx.Logging.Steps
import ToolsCxx.Logging.Overrun
import ToolsCxx.Logging.Compose
import ToolsCxx.Logging.Logger
import ToolsCxx.Logging.Record
import ToolsCxx.Logging.Lines
import ToolsCxx.Logging.Fields
import ToolsCxx.Logging.Integers
import ToolsCxx.Logging.Fractions
import ToolsCxx.Logging.File
import ToolsCxx.Logging.Rolling
import ToolsCxx.Logging.Lag
import ToolsCxx.Logging.Pipeline
import ToolsCxx.Logging.Names
import ToolsCxx.Logging.Directory
import ToolsCxx.Config.Model
import ToolsCxx.Config.Format
import ToolsCxx.Config.Load
import ToolsCxx.Config.Values
