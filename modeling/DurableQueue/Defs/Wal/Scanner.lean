import DurableQueue.Defs.Wal.CodecLaws

/-! Sequential reading of the log, and the repair of a torn tail. -/

namespace DurableQueue

open Bytes

structure ScanResult where
  records : List WalRecord
  lastSequence : UInt64
  maxLeaseEpoch : UInt64
  lastValidOffset : Nat
  hadTruncatedTail : Bool
  deriving DecidableEq

/-- The scanner's loop variables: the result built so far, the read offset and the
sequence number expected next. -/
structure ScanState where
  records : List WalRecord
  lastSequence : UInt64
  maxLeaseEpoch : UInt64
  offset : Nat
  lastValidOffset : Nat
  expectedSeq : UInt64
  deriving DecidableEq

namespace ScanState

def init : ScanState := ⟨[], 0, 0, 0, 0, 1⟩

def finish (s : ScanState) (torn : Bool) : ScanResult :=
  ⟨s.records, s.lastSequence, s.maxLeaseEpoch, s.lastValidOffset, torn⟩

/-- Account for one decoded frame; fails when the sequence breaks or runs out. -/
def push (s : ScanState) (f : WalFrame) (consumed : Nat) : WalResult ScanState :=
  if f.sequence ≠ s.expectedSeq then
    .error (.sequenceViolation s.expectedSeq f.sequence)
  else if s.expectedSeq.toNat + 1 = 2 ^ 64 then
    .error (.sequenceViolation s.expectedSeq 0)
  else
    .ok { records := s.records ++ [f.record]
          lastSequence := f.sequence
          maxLeaseEpoch := max s.maxLeaseEpoch (f.record.leasedEpoch.getD 0)
          offset := s.offset + consumed
          lastValidOffset := s.offset + consumed
          expectedSeq := s.expectedSeq + 1 }

end ScanState

variable (X : Crates)

/-- The scanning loop over what remains of the buffer.  Every round consumes a whole
frame, so `fuel` rounds are enough for `fuel` bytes. -/
def scanLoop : Nat → List UInt8 → ScanState → WalResult ScanResult
  | _, [], s => .ok (s.finish false)
  | 0, _ :: _, s => .ok (s.finish false)
  | fuel + 1, b :: bs, s =>
    let remaining := b :: bs
    if remaining.length < 4 then .ok (s.finish true)
    else
      let payloadLen := fromLe (remaining.take 4)
      if payloadLen > maxRecordSize then .error (.recordTooLarge payloadLen)
      else if remaining.length < frameOverhead + payloadLen then .ok (s.finish true)
      else
        match WalFrame.decode X remaining with
        | .ok (f, consumed) =>
          match s.push f consumed with
          | .ok s' => scanLoop fuel (remaining.drop consumed) s'
          | .error e => .error e
        | .error .truncatedFrame => .ok (s.finish true)
        | .error e => .error e

def scanFrames (buf : List UInt8) : WalResult ScanResult :=
  scanLoop X buf.length buf ScanState.init

/-- Scan a whole file.  The file is not modified. -/
def scanWal (file : List UInt8) : WalResult ScanResult :=
  if file.length = 0 then .ok ⟨[], 0, 0, 0, false⟩
  else if file.length < headerSize then .error .invalidWalHeader
  else
    match WalHeader.decode (file.take headerSize) with
    | .error e => .error e
    | .ok _ => scanFrames X (file.drop headerSize)

/-- Cut the file back to the end of its last whole frame. -/
def repairTruncatedTail (file : List UInt8) (lastValidOffset : Nat) : List UInt8 :=
  if file.length ≤ headerSize + lastValidOffset then file
  else file.take (headerSize + lastValidOffset)

end DurableQueue
