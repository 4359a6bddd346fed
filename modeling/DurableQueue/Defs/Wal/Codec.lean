import DurableQueue.Lib.Bytes
import DurableQueue.Defs.Wal.Record

/-! The byte format of the log: file header and record frames. -/

namespace DurableQueue

open Bytes

def walMagic : List UInt8 := [82, 68, 81, 85, 69, 85, 69, 0]

def walVersion : UInt16 := 1

def headerSize : Nat := 10

def frameOverhead : Nat := 18

def maxRecordSize : Nat := 1024 * 1024

def recordVersion : UInt8 := 1

/-- What the log takes from other crates: the `postcard` serializer and `crc32fast`. -/
structure Crates where
  toAllocvec : WalRecord → Except String (List UInt8)
  fromBytes : List UInt8 → Except String WalRecord
  crc32 : List UInt8 → UInt32

namespace Crates

variable (X : Crates)

/-- `postcard` reads back what it wrote. -/
def Lawful : Prop := ∀ r bytes, X.toAllocvec r = .ok bytes → X.fromBytes bytes = .ok r

/-- The record serializes to a payload that a frame may carry. -/
def Encodes (r : WalRecord) : Prop :=
  ∃ payload, X.toAllocvec r = .ok payload ∧ payload.length ≤ maxRecordSize

/-- In `postcard`'s format every record but a submission has a small bounded size. -/
def Compact : Prop := ∀ r : WalRecord, r.isSubmitted = false → X.Encodes r

end Crates

structure WalHeader where
  magic : List UInt8
  version : UInt16
  deriving DecidableEq

namespace WalHeader

def new : WalHeader := ⟨walMagic, walVersion⟩

def encode (h : WalHeader) : List UInt8 := h.magic ++ toLe 2 h.version.toNat

def decode (buf : List UInt8) : WalResult WalHeader :=
  let magic := buf.take 8
  if magic ≠ walMagic then .error .invalidWalHeader
  else
    let version := UInt16.ofNat (fromLe ((buf.drop 8).take 2))
    if version ≠ walVersion then .error (.unsupportedWalVersion version)
    else .ok ⟨magic, version⟩

end WalHeader

def headerBytes : List UInt8 := WalHeader.new.encode

structure WalFrame where
  sequence : UInt64
  record : WalRecord
  deriving DecidableEq

namespace WalFrame

variable (X : Crates)

def covered (f : WalFrame) (payload : List UInt8) : List UInt8 :=
  toLe 4 payload.length ++
    (recordVersion :: f.record.recordType :: (toLe 8 f.sequence.toNat ++ payload))

def bytes (f : WalFrame) (payload : List UInt8) : List UInt8 :=
  f.covered payload ++ toLe 4 (X.crc32 (f.covered payload)).toNat

def encode (f : WalFrame) : WalResult (List UInt8) :=
  match X.toAllocvec f.record with
  | .error e => .error (.serialization e)
  | .ok payload =>
    if payload.length > maxRecordSize then .error (.recordTooLarge payload.length)
    else .ok (f.bytes X payload)

def decode (buf : List UInt8) : WalResult (WalFrame × Nat) :=
  if buf.length < frameOverhead then .error .truncatedFrame
  else
    let payloadLen := fromLe (buf.take 4)
    if payloadLen > maxRecordSize then .error (.recordTooLarge payloadLen)
    else
      let totalSize := frameOverhead + payloadLen
      if buf.length < totalSize then .error .truncatedFrame
      else
        let version := buf.getD 4 0
        if version ≠ recordVersion then .error (.unsupportedRecordVersion version)
        else
          -- byte 5, the record type, is read and not used
          let sequence := UInt64.ofNat (fromLe ((buf.drop 6).take 8))
          let payloadEnd := 14 + payloadLen
          let payload := (buf.drop 14).take payloadLen
          let storedCrc := UInt32.ofNat (fromLe ((buf.drop payloadEnd).take 4))
          let computedCrc := X.crc32 (buf.take payloadEnd)
          if storedCrc ≠ computedCrc then .error (.checksumMismatch storedCrc computedCrc)
          else
            match X.fromBytes payload with
            | .error e => .error (.serialization e)
            | .ok record => .ok (⟨sequence, record⟩, totalSize)

end WalFrame

/-- The frame of a record with sequence number `seq` (empty if it does not serialize). -/
def frame (X : Crates) (seq : UInt64) (r : WalRecord) : List UInt8 :=
  match X.toAllocvec r with
  | .error _ => []
  | .ok payload => WalFrame.bytes X ⟨seq, r⟩ payload

def frames (X : Crates) : Nat → List WalRecord → List UInt8
  | _, [] => []
  | k, r :: rs => frame X (UInt64.ofNat k) r ++ frames X (k + 1) rs

def logBytes (X : Crates) (log : List WalRecord) : List UInt8 := headerBytes ++ frames X 1 log

end DurableQueue
