import DurableQueue.Defs.Wal.ScannerLaws

/-! The writer thread: it owns the open log file and appends one frame per request. -/

namespace DurableQueue

/-- Files end at the largest offset the system can address; a write beyond it fails. -/
def maxFileSize : Nat := isizeMax

/-- Where one append may fail.  A failing `write_all` has put some strict prefix of the
frame into the file; a failing `sync_data` comes after the whole frame was written. -/
inductive Fault
  | none
  | before (error : WalError)
  | write (error : WalError) (written : Nat)
  | sync (error : WalError)
  deriving DecidableEq

/-- The thread's state.  Its handle stands at the end of the file after every call, so
that the bytes written are appended. -/
structure WriterThread where
  file : List UInt8
  nextSeq : UInt64
  deriving DecidableEq

namespace WriterThread

variable (X : Crates)

/-- The part of an append after the frame is encoded: `write_all`, then `sync_data`. -/
def writeSync (w : WriterThread) (encoded : List UInt8) : Fault →
    WalResult UInt64 × WriterThread
  | .write e written => (.error e, { w with file := w.file ++ encoded.dropLast.take written })
  | .sync e => (.error e, { w with file := w.file ++ encoded })
  | _ => (.ok w.nextSeq, ⟨w.file ++ encoded, w.nextSeq + 1⟩)

def processWrite (w : WriterThread) (record : WalRecord) : Fault →
    WalResult UInt64 × WriterThread
  | .before e => (.error e, w)
  | fault =>
    match WalFrame.encode X ⟨w.nextSeq, record⟩ with
    | .error e => (.error e, w)
    | .ok encoded =>
      if w.file.length + encoded.length > maxFileSize then
        (.error (.io "File too large"), w)
      else w.writeSync encoded fault

/-- The file when the process dies during an append, `written` bytes into the frame. -/
def interrupted (w : WriterThread) (record : WalRecord) (written : Nat) : List UInt8 :=
  match WalFrame.encode X ⟨w.nextSeq, record⟩ with
  | .error _ => w.file
  | .ok encoded =>
    if w.file.length + encoded.length > maxFileSize then w.file
    else w.file ++ encoded.take written

/-- A sequence of requests; the acknowledged ones are returned with the sequence number
that their append was answered with. -/
def appendAll (w : WriterThread) : List (WalRecord × Fault) →
    WriterThread × List (WalRecord × UInt64)
  | [] => (w, [])
  | (record, fault) :: calls =>
    match w.processWrite X record fault with
    | (.ok seq, w') =>
      let (w'', acked) := w'.appendAll calls
      (w'', (record, seq) :: acked)
    | (.error _, w') => w'.appendAll calls

end WriterThread

end DurableQueue
