import Gallus.Basic
import Gallus.Lib.Mutex

/-!
# The logger (`logger.c`)

The settings of the logger are variables of the file, and one mutex is there for all of them. A
message that goes to a file of several processes takes the mutex, and a lock of the file besides.

* `Log`: the variables, and what has been written. `Gate`: the three tests of `s_lock`, which reads
  the settings without the mutex.
* `lock`, `unlock`, `doLog`, `logEmit`: the way of a message. `unlock` releases the mutex in any
  case.
* `logFinal`, `logInit`, `logReinit` and what calls them: the changes of the settings, under the
  mutex. What `stat`, `open` and `fdopen` say is a parameter.
* `Call`: the calls of a thread.
-/

namespace Gallus
namespace Logger

/-- `gallus_log_destination_t` -/
inductive Destination
  | unknown | file | syslog
  deriving DecidableEq, Repr

/-- `gallus_log_level_t` -/
inductive Level
  | unknown | debug | info | notice | warning | error | fatal
  deriving DecidableEq, Repr

/-- `s_syslog_priorities` -/
def Level.syslogPriority : Level → Nat
  | .unknown => 6
  | .debug => 7
  | .info => 6
  | .notice => 5
  | .warning => 4
  | .error => 3
  | .fatal => 2

/-- Where a message is written. -/
inductive Sink
  /-- A `FILE *`, which may be `NULL` by then. -/
  | stream (fd : Option Nat)
  | stderr
  | syslog (prio : Nat)
  deriving DecidableEq, Repr

/-- A message that has been written; `date` is whether its header has one. -/
structure Line where
  sink : Sink
  level : Level
  date : Bool
  msg : String
  deriving DecidableEq, Repr

/-- The variables. -/
structure Log where
  logFd : Option Nat
  logDst : Destination
  logArg : List UInt8
  doMultiProcess : Bool
  doDate : Bool
  dbgLevel : Nat
  isFdLocked : Bool
  /-- The process has the lock of the file, by `fcntl`. -/
  fileLock : Bool
  lines : List Line

/-- The tests of `s_lock`. -/
inductive Gate
  | multiProcess | toFile | opened
  deriving DecidableEq, Repr

abbrev LogM (α : Type) := Prog Log Gate α

open Prog

/-! ## A message -/

/-- `s_lock_fd(s_log_fd, cmd)` -/
def lockFd (cmd : Bool) : LogM Unit := do
  let opened ← get fun g => g.logFd.isSome
  when opened (change fun g => { g with fileLock := cmd })

/-- `s_lock`: the mutex is taken if all three tests pass. -/
def lock : LogM Unit := do
  let multiProcess ← check .multiProcess fun g => g.doMultiProcess
  when multiProcess do
    let toFile ← check .toFile fun g => g.logDst == .file
    when toFile do
      let opened ← check .opened fun g => g.logFd.isSome
      when opened do
        acquire
        let isFdLocked ← get fun g => g.isFdLocked
        when (!isFdLocked) do
          lockFd true
          change fun g => { g with isFdLocked := true }

/-- `s_unlock`: the mutex is released whether or not `s_lock` has taken it. -/
def unlock : LogM Unit := do
  let isFdLocked ← get fun g => g.isFdLocked
  when isFdLocked do
    lockFd false
    change fun g => { g with isFdLocked := false }
  release

/-- `(s_log_fd != NULL) ? s_log_fd : stderr` -/
def stream : LogM Sink := do
  let opened ← get fun g => g.logFd.isSome
  if opened = true then get fun g => .stream g.logFd else pure .stderr

def writeLine (line : Line) : LogM Unit := change fun g => { g with lines := g.lines ++ [line] }

/-- The `switch` of `s_do_log`. -/
def emitTo (l : Level) (date : Bool) (msg : String) : Destination → LogM Unit
  | .file | .unknown => do
    let sink ← stream
    writeLine ⟨sink, l, date, msg⟩
  | .syslog => writeLine ⟨.syslog l.syslogPriority, l, date, msg⟩

/-- `s_do_log` -/
def doLog (l : Level) (date : Bool) (msg : String) : LogM Unit := do
  lock
  let dst ← get fun g => g.logDst
  emitTo l date msg dst
  unlock

/-- Whether a message is for the debug level that is set. -/
def emits (lv : Level) (debugLevel : Nat) : LogM Bool :=
  if lv ≠ .debug then pure true else get fun g => decide (debugLevel % 2 ^ 16 ≤ g.dbgLevel)

/-- `gallus_log_emit` -/
def logEmit (lv : Level) (debugLevel : Nat) (msg : String) : LogM Unit := do
  let emitted ← emits lv debugLevel
  when emitted do
    let date ← get fun g => g.doDate
    doLog lv date msg

/-! ## The settings -/

/-- `s_log_final`. Neither `fflush` nor `closelog` changes any of the variables. -/
def logFinal (full : Bool) : LogM Unit := do
  let dst ← get fun g => g.logDst
  when (dst == .file) do
    let opened ← get fun g => g.logFd.isSome
    when opened do
      lockFd false
      change fun g => { g with logFd := none }
  when full (change fun g => { g with logDst := .unknown })

/-- The `arg` of an initialization: the text that a caller passes, or `s_log_arg` itself. -/
inductive Arg
  | text (s : Option (List UInt8))
  | own

/-- `IS_VALID_STRING(arg)` -/
def Arg.isValid : Arg → LogM Bool
  | .text s => pure (s.any fun bytes => !bytes.isEmpty)
  | .own => get fun g => !g.logArg.isEmpty

def pathMax : Nat := 4096

/-- `s_set_arg` -/
def setArg : Arg → LogM Unit
  | .text (some s) =>
    when (!s.isEmpty) (change fun g => { g with logArg := s.take (pathMax - 1) })
  | .text none | .own => pure ()

/-- What `open` and `fdopen` say. -/
inductive Opened
  | noFile
  | noStream
  | stream (fd : Nat)

/-- What `s_is_file` says, and they. -/
structure Files where
  isFile : Bool
  opened : Opened

def openLog : Opened → LogM Bool
  | .noFile => pure false
  | .noStream => do
    change fun g => { g with logFd := none }
    pure false
  | .stream fd => do
    change fun g => { g with logFd := some fd }
    pure true

/-- The part of `s_log_init` for a file. -/
def openFile (toFile : Bool) (arg : Arg) (files : Files) : LogM Bool :=
  if toFile = true then do
    setArg arg
    openLog files.opened
  else do
    change fun g => { g with logFd := none }
    pure true

/-- The part for the system's log. -/
def openSyslog (valid : Bool) (arg : Arg) : LogM Bool :=
  if valid = true then do
    logFinal true
    setArg arg
    pure true
  else pure false

/-- What `s_log_init` opens. -/
def openDst (dst : Destination) (arg : Arg) (full : Bool) (files : Files) : LogM Bool :=
  match dst with
  | .file | .unknown => do
    logFinal full
    let valid ← arg.isValid
    openFile (valid && dst == .file && files.isFile) arg files
  | .syslog => do
    let valid ← arg.isValid
    openSyslog valid arg

/-- The end of `s_log_init`: the settings, or `s_reset_arg`. -/
def setLog (ret : Bool) (dst : Destination) (multiProcess emitDate : Bool) (debugLevel : Nat) :
    LogM Unit :=
  if ret = true then do
    change fun g => { g with logDst := dst }
    change fun g => { g with doMultiProcess := multiProcess }
    change fun g => { g with doDate := emitDate }
    change fun g => { g with dbgLevel := debugLevel }
  else change fun g => { g with logArg := [] }

/-- `s_log_init`, but for the handler of `fork`. -/
def logInit (dst : Destination) (arg : Arg) (multiProcess emitDate : Bool) (debugLevel : Nat)
    (full : Bool) (files : Files) : LogM Bool := do
  let ret ← openDst dst arg full files
  setLog ret dst multiProcess emitDate debugLevel
  pure ret

/-- `s_log_reinit` -/
def logReinit (full : Bool) (files : Files) : LogM Bool := do
  let valid ← get fun g => !g.logArg.isEmpty
  let dst ← get fun g => g.logDst
  let multiProcess ← get fun g => g.doMultiProcess
  let date ← get fun g => g.doDate
  let debugLevel ← get fun g => g.dbgLevel
  logInit dst (if valid = true then .own else .text none) multiProcess date debugLevel full files

/-! ## The calls -/

/-- A region under the mutex. -/
def locked (p : LogM Unit) : LogM Unit := do
  acquire
  p
  release

/-- The same, with the result of a call. -/
def lockedResult (p : LogM Bool) : LogM Result := do
  acquire
  let ret ← p
  release
  pure (if ret = true then Result.ok else Result.anyFailures)

/-- `gallus_log_initialize` -/
def logInitialize (dst : Destination) (arg : Option (List UInt8)) (multiProcess emitDate : Bool)
    (debugLevel : Nat) (files : Files) : LogM Result :=
  lockedResult (logInit dst (.text arg) multiProcess emitDate debugLevel true files)

/-- `gallus_log_reinitialize` -/
def logReinitialize (files : Files) : LogM Result := do
  logEmit .debug 10 "Reinitialize the logger.\n"
  lockedResult (logReinit false files)

/-- `gallus_log_finalize` -/
def logFinalize : LogM Unit := do
  logEmit .debug 10 "Finalize the logger.\n"
  locked (logFinal true)

/-- `gallus_log_sync_for_fork` -/
def logSyncForFork : LogM Unit := do
  logEmit .debug 10 "Synching the logger.\n"
  locked (logFinal false)

/-- `gallus_log_set_debug_level` -/
def logSetDebugLevel (l : Nat) : LogM Unit := locked (change fun g => { g with dbgLevel := l })

/-- `gallus_log_set_multi_process` -/
def logSetMultiProcess (v : Bool) : LogM Unit := do
  let toFile ← get fun g => g.logDst == .file
  when toFile do
    locked (change fun g => { g with doMultiProcess := v })
    logEmit .debug 5 (if v = true then "set logger multi-process mode on.\n"
      else "set logger multi-process mode off.\n")

/-- A call of a thread. -/
inductive Call
  | emit (lv : Level) (debugLevel : Nat) (msg : String)
  | init (dst : Destination) (arg : Option (List UInt8)) (multiProcess emitDate : Bool)
    (debugLevel : Nat) (files : Files)
  | reinit (files : Files)
  | final
  | syncForFork
  | setDebugLevel (l : Nat)
  | setMultiProcess (v : Bool)

/-- What a call does. Its result is of no more use here. -/
def Call.prog : Call → LogM Unit
  | .emit lv debugLevel msg => logEmit lv debugLevel msg
  | .init dst arg multiProcess emitDate debugLevel files => do
    let _ ← logInitialize dst arg multiProcess emitDate debugLevel files
    pure ()
  | .reinit files => do
    let _ ← logReinitialize files
    pure ()
  | .final => logFinalize
  | .syncForFork => logSyncForFork
  | .setDebugLevel l => logSetDebugLevel l
  | .setMultiProcess v => logSetMultiProcess v

end Logger
end Gallus
