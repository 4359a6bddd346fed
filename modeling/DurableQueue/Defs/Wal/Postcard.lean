import DurableQueue.Lib.Wire
import DurableQueue.Defs.Wal.Codec

/-! `postcard` and `crc32fast` after their documented formats.  The development keeps both
crates abstract; this instance shows that what it asks of them can be met, and is what the
concrete runs below are evaluated with. -/

namespace DurableQueue.Postcard

open Bytes Wire

def putId (id : JobId) : List UInt8 := block (toLe 16 id.uuid.toNat).reverse

def putQueue (queue : QueueName) : List UInt8 := block queue.asStr.toByteArray.data.toList

def putU32 (n : UInt32) : List UInt8 := varint 5 n.toNat

def putLease (l : LeaseId) : List UInt8 := varint 10 l.epoch.toNat

def putTime (t : UnixMillis) : List UInt8 := varint 10 (zigzag t.asMillis.toInt)

def put : WalRecord → List UInt8
  | .jobSubmitted id queue spec t =>
    0 :: (putId id ++ (putQueue queue ++ (block spec.payload ++
      (putU32 spec.maxAttempts ++ putTime t))))
  | .jobLeased id l n t => 1 :: (putId id ++ (putLease l ++ (putU32 n ++ putTime t)))
  | .jobRetryScheduled id l n t => 2 :: (putId id ++ (putLease l ++ (putU32 n ++ putTime t)))
  | .jobCompleted id l t => 3 :: (putId id ++ (putLease l ++ putTime t))
  | .jobDead id l t => 4 :: (putId id ++ (putLease l ++ putTime t))
  | .jobCancelled id t => 5 :: (putId id ++ putTime t)

/-- Lengths are `usize`: nothing longer can exist. -/
def fits : WalRecord → Bool
  | .jobSubmitted _ queue spec _ =>
    queue.asStr.toByteArray.data.toList.length < 2 ^ 64 && spec.payload.length < 2 ^ 64
  | _ => true

def toAllocvec (r : WalRecord) : Except String (List UInt8) :=
  if fits r then .ok (put r) else .error "serialize buffer full"

def getId : Reader JobId := fun bs => do
  let (raw, bs) ← readBlock bs
  if raw.length = 16 then some (⟨BitVec.ofNat 128 (fromLe raw.reverse)⟩, bs) else none

def getQueue : Reader QueueName := fun bs => do
  let (raw, bs) ← readBlock bs
  let s ← String.fromUTF8? ⟨raw.toArray⟩
  some (⟨s⟩, bs)

def getU32 : Reader UInt32 := fun bs => do
  let (n, bs) ← readVarint 5 bs
  if n < 2 ^ 32 then some (UInt32.ofNat n, bs) else none

def getU64 : Reader Nat := fun bs => do
  let (n, bs) ← readVarint 10 bs
  if n < 2 ^ 64 then some (n, bs) else none

def getLease : Reader LeaseId := fun bs => do
  let (n, bs) ← getU64 bs
  some (⟨UInt64.ofNat n⟩, bs)

def getTime : Reader UnixMillis := fun bs => do
  let (n, bs) ← getU64 bs
  some (⟨Int64.ofInt (unzigzag n)⟩, bs)

/-- The fields of the variant with the given index. -/
def getFields : Nat → Reader WalRecord
  | 0, bs => do
    let (id, bs) ← getId bs
    let (queue, bs) ← getQueue bs
    let (payload, bs) ← readBlock bs
    let (maxAttempts, bs) ← getU32 bs
    let (t, bs) ← getTime bs
    some (.jobSubmitted id queue ⟨payload, maxAttempts⟩ t, bs)
  | 1, bs => do
    let (id, bs) ← getId bs
    let (l, bs) ← getLease bs
    let (n, bs) ← getU32 bs
    let (t, bs) ← getTime bs
    some (.jobLeased id l n t, bs)
  | 2, bs => do
    let (id, bs) ← getId bs
    let (l, bs) ← getLease bs
    let (n, bs) ← getU32 bs
    let (t, bs) ← getTime bs
    some (.jobRetryScheduled id l n t, bs)
  | 3, bs => do
    let (id, bs) ← getId bs
    let (l, bs) ← getLease bs
    let (t, bs) ← getTime bs
    some (.jobCompleted id l t, bs)
  | 4, bs => do
    let (id, bs) ← getId bs
    let (l, bs) ← getLease bs
    let (t, bs) ← getTime bs
    some (.jobDead id l t, bs)
  | 5, bs => do
    let (id, bs) ← getId bs
    let (t, bs) ← getTime bs
    some (.jobCancelled id t, bs)
  | _, _ => none

/-- The index of the variant is read like any other `u32`, overlong ones included. -/
def getRecord : Reader WalRecord := fun bs => do
  let (variant, bs) ← getU32 bs
  getFields variant.toNat bs

/-- Unused bytes behind the record are ignored. -/
def fromBytes (bs : List UInt8) : Except String WalRecord :=
  match getRecord bs with
  | some (r, _) => .ok r
  | none => .error "deserialization failed"

@[simp] theorem getId_putId (id : JobId) (rest : List UInt8) :
    getId (putId id ++ rest) = some (id, rest) := by
  have hlt : id.uuid.toNat < 256 ^ 16 := by simpa using id.uuid.isLt
  have hblock : (toLe 16 id.uuid.toNat).reverse.length < 128 ^ 10 := by simp
  simp [getId, putId, readBlock_block _ _ hblock, fromLe_toLe 16 _ hlt]

@[simp] theorem getQueue_putQueue (queue : QueueName) (rest : List UInt8)
    (h : queue.asStr.toByteArray.data.toList.length < 2 ^ 64) :
    getQueue (putQueue queue ++ rest) = some (queue, rest) := by
  have hblock : queue.asStr.toByteArray.data.toList.length < 128 ^ 10 := by omega
  simp [getQueue, putQueue, readBlock_block _ _ hblock, String.fromUTF8?, String.fromUTF8,
    queue.asStr.isValidUTF8]

@[simp] theorem getU32_putU32 (n : UInt32) (rest : List UInt8) :
    getU32 (putU32 n ++ rest) = some (n, rest) := by
  have hlt := n.toNat_lt
  have hv : n.toNat < 128 ^ 5 := by omega
  simp [getU32, putU32, readVarint_varint 4 _ hv, hlt]

theorem getU64_varint (n : Nat) (h : n < 2 ^ 64) (rest : List UInt8) :
    getU64 (varint 10 n ++ rest) = some (n, rest) := by
  have hv : n < 128 ^ 10 := by omega
  simp [getU64, readVarint_varint 9 _ hv]
  omega

@[simp] theorem getLease_putLease (l : LeaseId) (rest : List UInt8) :
    getLease (putLease l ++ rest) = some (l, rest) := by
  simp [getLease, putLease, getU64_varint _ l.epoch.toNat_lt]

@[simp] theorem getTime_putTime (t : UnixMillis) (rest : List UInt8) :
    getTime (putTime t ++ rest) = some (t, rest) := by
  have hlt := t.asMillis.toInt_lt
  have hle := t.asMillis.le_toInt
  have hz : zigzag t.asMillis.toInt < 2 ^ 64 := by
    unfold zigzag
    split <;> omega
  simp [getTime, putTime, getU64_varint _ hz, unzigzag_zigzag]

@[simp] theorem getTime_putTime_nil (t : UnixMillis) : getTime (putTime t) = some (t, []) := by
  simpa using getTime_putTime t []

theorem getRecord_cons {b : UInt8} (h : b.toNat < 128) (bs : List UInt8) :
    getRecord (b :: bs) = getFields b.toNat bs := by
  have hlt : b.toNat < 4294967296 := by omega
  simp [getRecord, getU32, readVarint, h, hlt]

theorem fromBytes_toAllocvec (r : WalRecord) (bytes : List UInt8)
    (h : toAllocvec r = .ok bytes) : fromBytes bytes = .ok r := by
  unfold toAllocvec at h
  split at h
  · rename_i hfits
    cases h
    cases r with
    | jobSubmitted id queue spec t =>
      simp only [fits, Bool.and_eq_true, decide_eq_true_eq] at hfits
      have hblock : spec.payload.length < 128 ^ 10 := by omega
      simp [fromBytes, put, getRecord_cons, getFields, getQueue_putQueue queue _ hfits.1,
        readBlock_block _ _ hblock]
    | jobLeased | jobRetryScheduled | jobCompleted | jobDead | jobCancelled =>
      simp [fromBytes, put, getRecord_cons, getFields]
  · cases h

theorem length_putId (id : JobId) : (putId id).length ≤ 26 := by
  have := length_block_le (toLe 16 id.uuid.toNat).reverse
  simpa [putId] using this

theorem length_put_le (r : WalRecord) (h : r.isSubmitted = false) : (put r).length ≤ 64 := by
  have hu (n : UInt32) : (putU32 n).length ≤ 5 := length_varint_le 5 _
  have hl (l : LeaseId) : (putLease l).length ≤ 10 := length_varint_le 10 _
  have ht (t : UnixMillis) : (putTime t).length ≤ 10 := length_varint_le 10 _
  cases r with
  | jobSubmitted => cases h
  | jobLeased id l n t =>
    have := length_putId id; have := hl l; have := hu n; have := ht t
    simp [put]; omega
  | jobRetryScheduled id l n t =>
    have := length_putId id; have := hl l; have := hu n; have := ht t
    simp [put]; omega
  | jobCompleted id l t =>
    have := length_putId id; have := hl l; have := ht t
    simp [put]; omega
  | jobDead id l t =>
    have := length_putId id; have := hl l; have := ht t
    simp [put]; omega
  | jobCancelled id t =>
    have := length_putId id; have := ht t
    simp [put]; omega

def crates : Crates where
  toAllocvec := toAllocvec
  fromBytes := fromBytes
  crc32 := Wire.crc32

theorem crates_lawful : crates.Lawful := fromBytes_toAllocvec

theorem crates_compact : crates.Compact := by
  intro r h
  refine ⟨put r, ?_, ?_⟩
  · cases r with
    | jobSubmitted => cases h
    | _ => rfl
  · have := length_put_le r h
    simp only [maxRecordSize]
    omega

end DurableQueue.Postcard
