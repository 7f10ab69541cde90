import Daemonpp.Process.World

/-!
# The messages of the library

`dlog` hands a priority and a text to `syslog`; the functions of `daemon` report
errors and received signals through it. A text is cut at its first NUL, since
`syslog` is passed a C string. It is not a format.
-/

namespace Daemonpp

/-- The priorities of `syslog`, the most urgent one first. -/
inductive Priority where
  | LOG_EMERG
  | LOG_ALERT
  | LOG_CRIT
  | LOG_ERR
  | LOG_WARNING
  | LOG_NOTICE
  | LOG_INFO
  | LOG_DEBUG
  deriving DecidableEq, Repr

/-- What `syslog` is passed. -/
structure Message where
  priority : Priority
  text : Bytes
  deriving DecidableEq, Repr

instance : Nonempty Message := ⟨⟨.LOG_EMERG, []⟩⟩

/-- `c_str()`: what C sees of a string. -/
def cStr (s : Bytes) : Bytes := s.takeWhile (· ≠ 0)

namespace Dlog

/-- `dlog::log`. The message is the argument of `"%s"`. -/
def log (message : Bytes) (priority : Priority) : Message := ⟨priority, cStr message⟩

def debug (message : Bytes) : Message := log message .LOG_DEBUG

def info (message : Bytes) : Message := log message .LOG_INFO

def notice (message : Bytes) : Message := log message .LOG_NOTICE

def warning (message : Bytes) : Message := log message .LOG_WARNING

def error (message : Bytes) : Message := log message .LOG_ERR

def critical (message : Bytes) : Message := log message .LOG_CRIT

def alert (message : Bytes) : Message := log message .LOG_ALERT

def emergency (message : Bytes) : Message := log message .LOG_EMERG

end Dlog

/-- The number of a signal. -/
def Signal.number : Signal → Nat
  | .SIGHUP => 1
  | .SIGKILL => 9
  | .SIGTERM => 15

/-! ## What `daemon` says -/

/-- `run`, called while the daemon is running. -/
def alreadyRunning (name : Bytes) : Message :=
  Dlog.error (bytes "Daemon '" ++ name ++ bytes "' is already running.")

/-- `run`, where `--config` is the last argument. -/
def missingConfig : Message :=
  Dlog.error (bytes ("Missing config file. Did you forget to specify a config file in your .service file's " ++
    "ExecStart ?"))

/-- `signal_handler`. -/
def signalReceived (sig : Signal) : Message :=
  Dlog.info (bytes "Signal " ++ bytes (toString sig.number) ++ bytes " received.")

/-- `daemonize`, where `setsid` fails for the reason `err`. -/
def noSid (err : Bytes) : Message := Dlog.error (bytes "Could not set SID to child process: " ++ err)

/-- `daemonize` and `set_cwd`, where `chdir(path)` fails for the reason `err`. -/
def noCwd (path err : Bytes) : Message :=
  Dlog.error (bytes "Could not change current working directory to '" ++ path ++ bytes "': " ++ err)

end Daemonpp
