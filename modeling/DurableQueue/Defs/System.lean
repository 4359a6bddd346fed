import DurableQueue.Defs.Runtime
import DurableQueue.Defs.Recovered

/-! The system over its restarts: one log file, and a process that appends to it or none. -/

namespace DurableQueue

/-- The state of the system.  `past` is the joined journal of the processes that have ended;
a running process is given by the state it started in and the state it is in. -/
inductive Sys
  | down (past : List Event) (file : Option (List UInt8))
  | up (past : List Event) (start now : Coordinator)

namespace Coordinator

def logFile (s : Coordinator) : List UInt8 :=
  match s.storage with
  | .memory => []
  | .wal writer => writer.file

end Coordinator

/-- The file of a recovery that was cut off after `written` bytes of its reconciliation
frames; the torn tail is gone by then. -/
def interruptedRecovery (X : Crates) (env : RecoverEnv) (config : RuntimeConfig)
    (file : List UInt8) (written : Nat) : List UInt8 :=
  match scanWal X file with
  | .error _ => file
  | .ok scan =>
    let repaired :=
      if scan.hadTruncatedTail then repairTruncatedTail file scan.lastValidOffset else file
    (recover X env config (some file)).2.take (repaired.length + written)

/-- What may happen to the system, with persist calls failing only as `P` allows.  The
header of a new file is written whole or not at all. -/
inductive SysStep (X : Crates) (P : Fault → Prop) (config : RuntimeConfig) : Sys → Sys → Prop
  | boot {past : List Event} {file file' : Option (List UInt8)} {env : BootEnv}
      {s : Coordinator} (h : startWal X env config file = (.ok s, file')) :
      SysStep X P config (.down past file) (.up past s s)
  | bootFails {past : List Event} {file file' : Option (List UInt8)} {env : BootEnv}
      {e : Error} (h : startWal X env config file = (.error e, file')) :
      SysStep X P config (.down past file) (.down past file')
  | bootDies {past : List Event} {file : List UInt8} (hfile : file ≠ []) (env : BootEnv)
      (written : Nat) :
      SysStep X P config (.down past (some file))
        (.down past (some (interruptedRecovery X env.recovery config file written)))
  | create {past : List Event} : SysStep X P config (.down past none) (.down past (some []))
  | proc {past : List Event} {s₀ s s' : Coordinator} (h : ProcStep X P config s s') :
      SysStep X P config (.up past s₀ s) (.up past s₀ s')
  | stop {past : List Event} {s₀ s : Coordinator} :
      SysStep X P config (.up past s₀ s) (.down (past ++ s.journal) (some s.logFile))
  | dies {past : List Event} {s₀ s s' : Coordinator} {op : Op} {env : Env} {record : WalRecord}
      {file : List UInt8} (henabled : op.Enabled P env s)
      (h : Coordinator.exec X config env op s = .error (.append record file) s') :
      SysStep X P config (.up past s₀ s) (.down (past ++ s'.journal) (some file))
  /-- without its coordinator the rest of the process touches the file no more -/
  | panics {past : List Event} {s₀ s s' : Coordinator} {op : Op} {env : Env}
      (henabled : op.Enabled P env s)
      (h : Coordinator.exec X config env op s = .error .panic s') :
      SysStep X P config (.up past s₀ s) (.down (past ++ s'.journal) (some s'.logFile))

abbrev Reachable (X : Crates) (P : Fault → Prop) (config : RuntimeConfig) : Sys → Prop :=
  Relation.ReflTransGen (SysStep X P config) (.down [] none)

namespace Sys

def log (X : Crates) : Sys → List WalRecord
  | .down _ file => logOf X file
  | .up _ _ s => logOf X (some s.logFile)

def history : Sys → List Event
  | .down past _ => past
  | .up past _ s => past ++ s.journal

def acked (sys : Sys) : List WalRecord := sys.history.filterMap Event.asAcked

def ended (sys : Sys) : List LeaseId := sys.history.filterMap Event.asEnded

end Sys

end DurableQueue
