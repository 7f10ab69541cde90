import Daemonpp.Config.RoundTrip
import Daemonpp.Config.Layout
import Daemonpp.Config.ReadFailure
import Daemonpp.Config.Stream
import Daemonpp.Config.Expressible
import Daemonpp.Lib.Path
import Daemonpp.Process.Step
import Daemonpp.Process.Stack
import Daemonpp.Lifecycle.Automaton
import Daemonpp.Lifecycle.Phase
import Daemonpp.Process.Launch
import Daemonpp.Lifecycle.Order
import Daemonpp.Lifecycle.Term
import Daemonpp.Signals.Overlap
import Daemonpp.Signals.Reload
import Daemonpp.Signals.Deadlock
import Daemonpp.Lifecycle.ExitCode
import Daemonpp.Process.ConfigFile
import Daemonpp.Process.Descriptors
import Daemonpp.Process.Locks
import Daemonpp.Lifecycle.Identity
import Daemonpp.Lifecycle.Reentry
import Daemonpp.Lifecycle.Wakeup
import Daemonpp.Process.WorkingDirectory
import Daemonpp.Lifecycle.Startup
import Daemonpp.Lifecycle.Family
import Daemonpp.Lifecycle.Pacing
import Daemonpp.Lib.Budget
import Daemonpp.Lifecycle.Progress
import Daemonpp.Lifecycle.Complete
import Daemonpp.Lifecycle.Shutdown
import Daemonpp.Signals.Service
import Daemonpp.Signals.Depth
import Daemonpp.Process.Delivery
import Daemonpp.Process.OpenFiles
import Daemonpp.Lib.Ghost
import Daemonpp.Log.Dlog
import Daemonpp.Log.Journal
import Daemonpp.Log.Reports
import Daemonpp.Log.Tag
import Daemonpp.Program.Outcome
import Daemonpp.Program.Lines
