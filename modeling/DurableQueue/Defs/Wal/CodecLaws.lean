import DurableQueue.Defs.Wal.Codec

/-! What the frame codec guarantees on the encoder's own output. -/

namespace DurableQueue

open Bytes

variable {X : Crates}

namespace WalFrame

@[simp] theorem length_covered (f : WalFrame) (payload : List UInt8) :
    (f.covered payload).length = 14 + payload.length := by
  simp [covered]
  omega

@[simp] theorem length_bytes (f : WalFrame) (payload : List UInt8) :
    (f.bytes X payload).length = frameOverhead + payload.length := by
  simp [bytes, frameOverhead]
  omega

theorem take_four_bytes (f : WalFrame) (payload rest : List UInt8) :
    (f.bytes X payload ++ rest).take 4 = toLe 4 payload.length := by
  simp [bytes, covered]

theorem announced_bytes (f : WalFrame) {payload : List UInt8} (rest : List UInt8)
    (h : payload.length ≤ maxRecordSize) :
    fromLe ((f.bytes X payload ++ rest).take 4) = payload.length := by
  rw [take_four_bytes]
  apply fromLe_toLe
  simp only [maxRecordSize] at h
  omega

theorem take_covered (f : WalFrame) (payload rest : List UInt8) :
    (f.bytes X payload ++ rest).take (14 + payload.length) = f.covered payload := by
  rw [bytes, List.append_assoc]
  exact List.take_left' (by simp)

theorem drop_covered (f : WalFrame) (payload rest : List UInt8) :
    (f.bytes X payload ++ rest).drop (14 + payload.length) =
      toLe 4 (X.crc32 (f.covered payload)).toNat ++ rest := by
  rw [bytes, List.append_assoc]
  exact List.drop_left' (by simp)

theorem drop_payload (f : WalFrame) (payload rest : List UInt8) :
    ((f.bytes X payload ++ rest).drop 14).take payload.length = payload := by
  simp [bytes, covered, List.drop_append, List.take_append]

theorem drop_sequence (f : WalFrame) (payload rest : List UInt8) :
    ((f.bytes X payload ++ rest).drop 6).take 8 = toLe 8 f.sequence.toNat := by
  simp [bytes, covered, List.drop_append, List.take_append]

theorem getD_version (f : WalFrame) (payload rest : List UInt8) :
    (f.bytes X payload ++ rest).getD 4 0 = recordVersion := by
  simp [bytes, covered, List.getD]

theorem decode_bytes (hX : X.Lawful) {f : WalFrame} {payload : List UInt8}
    (hp : X.toAllocvec f.record = .ok payload) (hlen : payload.length ≤ maxRecordSize)
    (rest : List UInt8) :
    decode X (f.bytes X payload ++ rest) = .ok (f, frameOverhead + payload.length) := by
  have hseq : UInt64.ofNat (fromLe (toLe 8 f.sequence.toNat)) = f.sequence := by
    rw [fromLe_toLe 8 _ (by simpa using f.sequence.toNat_lt), UInt64.ofNat_toNat]
  have hcrc : UInt32.ofNat (fromLe (toLe 4 (X.crc32 (f.covered payload)).toNat)) =
      X.crc32 (f.covered payload) := by
    rw [fromLe_toLe 4 _ (by simpa using (X.crc32 (f.covered payload)).toNat_lt),
      UInt32.ofNat_toNat]
  have hlong : ¬ (f.bytes X payload ++ rest).length < frameOverhead := by
    rw [List.length_append, length_bytes]
    omega
  have htotal : ¬ (f.bytes X payload ++ rest).length < frameOverhead + payload.length := by
    rw [List.length_append, length_bytes]
    omega
  have hstored : ((toLe 4 (X.crc32 (f.covered payload)).toNat ++ rest).take 4) =
      toLe 4 (X.crc32 (f.covered payload)).toNat := List.take_left' (by simp)
  simp only [decode, hlong, if_false, announced_bytes f rest hlen, Nat.not_lt.mpr hlen, htotal,
    getD_version, ne_eq, not_true_eq_false, drop_sequence, drop_payload, drop_covered,
    take_covered, hseq, hstored, hcrc, hX _ _ hp]

/-- Every strict prefix of a frame is reported as a truncated frame. -/
theorem decode_bytes_prefix {f : WalFrame} {payload p : List UInt8}
    (hlen : payload.length ≤ maxRecordSize) (hp : p <+: f.bytes X payload)
    (hlt : p.length < (f.bytes X payload).length) :
    decode X p = .error .truncatedFrame := by
  rw [length_bytes] at hlt
  unfold decode
  split
  · rfl
  rename_i hlong
  have htake : p.take 4 = (f.bytes X payload ++ []).take 4 := by
    obtain ⟨q, hq⟩ := hp
    rw [List.append_nil, ← hq, List.take_append_of_le_length]
    simp only [frameOverhead] at hlong
    omega
  rw [htake, announced_bytes f [] hlen, if_neg (Nat.not_lt.mpr hlen), if_pos hlt]

end WalFrame

theorem encode_eq_ok_iff (f : WalFrame) (bytes : List UInt8) :
    f.encode X = .ok bytes ↔ X.Encodes f.record ∧ bytes = frame X f.sequence f.record := by
  unfold WalFrame.encode frame Crates.Encodes
  cases h : X.toAllocvec f.record with
  | error e => simp
  | ok payload =>
    by_cases hlen : payload.length > maxRecordSize
    · simp [hlen]
    · simp [hlen, Nat.not_lt.mp hlen, eq_comm]

theorem length_frame_pos (seq : UInt64) {r : WalRecord} (h : X.Encodes r) :
    frameOverhead ≤ (frame X seq r).length := by
  obtain ⟨payload, hp, _⟩ := h
  simp [frame, hp]

theorem announced_frame (seq : UInt64) {r : WalRecord} (h : X.Encodes r)
    (rest : List UInt8) :
    fromLe ((frame X seq r ++ rest).take 4) ≤ maxRecordSize ∧
      frameOverhead + fromLe ((frame X seq r ++ rest).take 4) = (frame X seq r).length := by
  obtain ⟨payload, hp, hlen⟩ := h
  simp [frame, hp, WalFrame.announced_bytes _ rest hlen, hlen]

theorem decode_frame (hX : X.Lawful) (seq : UInt64) {r : WalRecord} (h : X.Encodes r)
    (rest : List UInt8) :
    WalFrame.decode X (frame X seq r ++ rest) = .ok (⟨seq, r⟩, (frame X seq r).length) := by
  obtain ⟨payload, hp, hlen⟩ := h
  simp only [frame, hp, WalFrame.length_bytes]
  exact WalFrame.decode_bytes hX (f := ⟨seq, r⟩) hp hlen rest

theorem decode_frame_prefix (seq : UInt64) {r : WalRecord} (h : X.Encodes r)
    {p : List UInt8} (hp : p <+: frame X seq r) (hlt : p.length < (frame X seq r).length) :
    WalFrame.decode X p = .error .truncatedFrame := by
  obtain ⟨payload, hr, hlen⟩ := h
  simp only [frame, hr] at hp hlt
  exact WalFrame.decode_bytes_prefix hlen hp hlt

@[simp] theorem frames_nil (k : Nat) : frames X k [] = [] := rfl

theorem frames_append (k : Nat) (rs rs' : List WalRecord) :
    frames X k (rs ++ rs') = frames X k rs ++ frames X (k + rs.length) rs' := by
  induction rs generalizing k with
  | nil => simp [frames]
  | cons r rs ih =>
    simp only [List.cons_append, frames, ih, List.append_assoc, List.length_cons]
    rw [Nat.add_right_comm k 1, Nat.add_assoc]

theorem frames_snoc (k : Nat) (rs : List WalRecord) (r : WalRecord) :
    frames X k (rs ++ [r]) = frames X k rs ++ frame X (UInt64.ofNat (k + rs.length)) r := by
  simp [frames_append, frames]

theorem logBytes_snoc (log : List WalRecord) (r : WalRecord) :
    logBytes X (log ++ [r]) = logBytes X log ++ frame X (UInt64.ofNat (log.length + 1)) r := by
  rw [logBytes, logBytes, frames_snoc, List.append_assoc, Nat.add_comm 1]

theorem length_frames_ge (k : Nat) {rs : List WalRecord} (h : ∀ r ∈ rs, X.Encodes r) :
    frameOverhead * rs.length ≤ (frames X k rs).length := by
  induction rs generalizing k with
  | nil => simp
  | cons r rs ih =>
    have hr := length_frame_pos (UInt64.ofNat k) (h r (by simp))
    have hrs := ih (k + 1) (fun r' hr' => h r' (by simp [hr']))
    simp only [frames, List.length_cons, List.length_append, Nat.mul_succ]
    omega

@[simp] theorem length_headerBytes : headerBytes.length = headerSize := by decide

theorem decode_headerBytes : WalHeader.decode headerBytes = .ok WalHeader.new := by decide

end DurableQueue
