import DurableQueue.Defs.Wal.Reading

/-! Scanning with every index and slice checked, as the program runs it: a panic or a loop
that does not end would show up as `none`. -/

namespace DurableQueue

open Bytes

variable {X : Crates}

/-- `WalFrame::decode` with its reads checked. -/
def WalFrame.decode? (X : Crates) (buf : List UInt8) : Option (WalResult (WalFrame × Nat)) :=
  if buf.length < frameOverhead then some (.error .truncatedFrame)
  else do
    let payloadLen ← word? buf 4 0
    if payloadLen > maxRecordSize then return .error (.recordTooLarge payloadLen)
    else
      let totalSize := frameOverhead + payloadLen
      if buf.length < totalSize then return .error .truncatedFrame
      else
        let version ← buf[4]?
        if version ≠ recordVersion then return .error (.unsupportedRecordVersion version)
        else
          let _recordType ← buf[5]?
          let sequence ← word? buf 8 6
          let payloadEnd := 14 + payloadLen
          let payload ← slice? buf 14 payloadEnd
          let storedCrc ← word? buf 4 payloadEnd
          let covered ← slice? buf 0 payloadEnd
          let computedCrc := X.crc32 covered
          if UInt32.ofNat storedCrc ≠ computedCrc then
            return .error (.checksumMismatch (UInt32.ofNat storedCrc) computedCrc)
          else
            match X.fromBytes payload with
            | .error e => return .error (.serialization e)
            | .ok record => return .ok (⟨UInt64.ofNat sequence, record⟩, totalSize)

/-- The `while` loop of `scan_frames`, for at most the given number of rounds. -/
def scanLoop? (X : Crates) (buf : List UInt8) : Nat → ScanState → Option (WalResult ScanResult)
  | 0, _ => none
  | rounds + 1, s =>
    if s.offset < buf.length then do
      let remaining ← slice? buf s.offset buf.length
      if remaining.length < 4 then return .ok (s.finish true)
      else
        let payloadLen ← word? remaining 4 0
        if payloadLen > maxRecordSize then return .error (.recordTooLarge payloadLen)
        else if remaining.length < frameOverhead + payloadLen then return .ok (s.finish true)
        else
          match ← WalFrame.decode? X remaining with
          | .ok (f, consumed) =>
            match s.push f consumed with
            | .ok s' => scanLoop? X buf rounds s'
            | .error e => return .error e
          | .error .truncatedFrame => return .ok (s.finish true)
          | .error e => return .error e
    else some (.ok (s.finish false))

def scanFrames? (X : Crates) (buf : List UInt8) (rounds : Nat) : Option (WalResult ScanResult) :=
  scanLoop? X buf rounds .init

/-- No read of the decoder leaves the buffer. -/
theorem WalFrame.decode?_eq (buf : List UInt8) : decode? X buf = some (decode X buf) := by
  unfold decode? decode
  split
  · rfl
  rename_i hover
  simp only [frameOverhead] at hover
  have hfour : word? buf 4 0 = some (fromLe (buf.take 4)) := word?_eq (i := 0) (by omega)
  simp only [hfour, Option.bind_eq_bind, Option.bind_some]
  by_cases hbig : fromLe (buf.take 4) > maxRecordSize
  · rw [if_pos hbig, if_pos hbig]
    rfl
  by_cases hlong : buf.length < frameOverhead + fromLe (buf.take 4)
  · rw [if_neg hbig, if_neg hbig, if_pos hlong, if_pos hlong]
    rfl
  rw [if_neg hbig, if_neg hbig, if_neg hlong, if_neg hlong]
  simp only [frameOverhead] at hlong
  have hversion : buf[4]? = some (buf.getD 4 0) := by
    rw [List.getD_eq_getElem?_getD, List.getElem?_eq_getElem (by omega), Option.getD_some]
  have htype : buf[5]? = some (buf.getD 5 0) := by
    rw [List.getD_eq_getElem?_getD, List.getElem?_eq_getElem (by omega), Option.getD_some]
  have hsequence := @word?_eq buf 8 6 (by omega)
  have hpayload := @slice?_eq buf 14 (fromLe (buf.take 4)) (by omega)
  have hstored := @word?_eq buf 4 (14 + fromLe (buf.take 4)) (by omega)
  have hcovered := @slice?_eq buf 0 (14 + fromLe (buf.take 4)) (by omega)
  rw [Nat.zero_add, List.drop_zero] at hcovered
  simp only [hversion, htype, hsequence, hpayload, hstored, hcovered, Option.bind_some]
  split
  · rfl
  split
  · rfl
  cases X.fromBytes ((buf.drop 14).take (fromLe (buf.take 4))) <;> rfl

theorem ScanState.offset_push {s s' : ScanState} {f : WalFrame} {consumed : Nat}
    (h : s.push f consumed = .ok s') : s'.offset = s.offset + consumed := by
  unfold push at h
  split at h
  · cases h
  split at h
  · cases h
  cases h
  rfl

/-- No read of the loop leaves the buffer, and the loop ends: each round takes a whole frame,
so there are no more rounds than bytes. -/
theorem scanLoop?_eq {buf : List UInt8} {fuel rounds : Nat} {s : ScanState}
    (hoffset : s.offset ≤ buf.length) (hfuel : (buf.drop s.offset).length ≤ fuel)
    (hrounds : (buf.drop s.offset).length < rounds) :
    scanLoop? X buf rounds s = some (scanLoop X fuel (buf.drop s.offset) s) := by
  induction rounds generalizing fuel s with
  | zero => omega
  | succ rounds ih =>
    rw [List.length_drop] at hfuel hrounds
    unfold scanLoop?
    split
    · rename_i hlt
      obtain ⟨fuel, rfl⟩ : ∃ n, fuel = n + 1 := ⟨fuel - 1, by omega⟩
      have hlength : (buf.drop s.offset).length = buf.length - s.offset := List.length_drop
      have hslice : slice? buf s.offset buf.length = some (buf.drop s.offset) := by
        have h := @slice?_eq buf s.offset (buf.length - s.offset) (by omega)
        rwa [Nat.add_sub_cancel' hoffset, ← hlength, List.take_length] at h
      have hnil : buf.drop s.offset ≠ [] := by
        rw [← List.length_pos_iff, hlength]
        omega
      rw [hslice, Option.bind_eq_bind, Option.bind_some, scanLoop_succ fuel hnil]
      split
      · rfl
      rename_i hfour
      have hword : word? (buf.drop s.offset) 4 0 = some (fromLe ((buf.drop s.offset).take 4)) :=
        word?_eq (i := 0) (by omega)
      rw [hword, Option.bind_eq_bind, Option.bind_some]
      split
      · rfl
      split
      · rfl
      rename_i hlong
      rw [WalFrame.decode?_eq, Option.bind_eq_bind, Option.bind_some]
      cases hdecode : WalFrame.decode X (buf.drop s.offset) with
      | error e => cases e <;> rfl
      | ok p =>
        obtain ⟨f, consumed⟩ := p
        obtain ⟨-, hconsumed⟩ := WalFrame.decode_eq_ok_iff.mp hdecode
        cases hpush : s.push f consumed with
        | error e =>
          dsimp only
          rw [hpush]
          rfl
        | ok s' =>
          have hoff := ScanState.offset_push hpush
          simp only [frameOverhead] at hconsumed hlong
          have hdrop : (buf.drop s.offset).drop consumed = buf.drop s'.offset := by
            rw [List.drop_drop, hoff]
          dsimp only
          rw [hpush, hdrop]
          refine ih ?_ ?_ ?_ <;> rw [hoff]
          · omega
          · rw [List.length_drop]
            omega
          · rw [List.length_drop]
            omega
    · rename_i hge
      rw [List.drop_eq_nil_of_le (Nat.not_lt.mp hge), scanLoop_nil]

theorem WholeFrames.exists_parts {buf : List UInt8} {rs : List WalRecord}
    (h : WholeFrames X buf rs) :
    ∃ parts : List (List UInt8), parts.flatten = buf ∧ parts.length = rs.length ∧
      ∀ (i : Nat) (part : List UInt8) (r : WalRecord), parts[i]? = some part → rs[i]? = some r →
        IsFrame X (UInt64.ofNat (i + 1)) r part := by
  induction h with
  | nil => exact ⟨[], rfl, rfl, fun i part r hpart => by simp at hpart⟩
  | @snoc buf bytes rs r h hframe _ ih =>
    obtain ⟨parts, hflatten, hlength, hparts⟩ := ih
    refine ⟨parts ++ [bytes], by simp [hflatten], by simp [hlength], fun i part r' hpart hr' => ?_⟩
    by_cases hi : i < rs.length
    · rw [List.getElem?_append_left (by omega)] at hpart
      rw [List.getElem?_append_left hi] at hr'
      exact hparts i part r' hpart hr'
    · rw [List.getElem?_append_right (by omega), List.getElem?_singleton] at hpart hr'
      split at hpart
      · rename_i hzero
        obtain rfl : i = rs.length := by omega
        rw [if_pos (by omega)] at hr'
        cases hpart
        cases hr'
        exact hframe
      · cases hpart

/-- Scanning any bytes ends without a read outside of them.  When it succeeds, the bytes up
to the reported offset are whole frames of the records, numbered from 1, and the rest, if
there is any, is reported and could be the beginning of a frame. -/
theorem scanFrames_sound (buf : List UInt8) :
    (∀ rounds, buf.length < rounds → scanFrames? X buf rounds = some (scanFrames X buf)) ∧
    ∀ res, scanFrames X buf = .ok res →
      (∃ parts : List (List UInt8), parts.flatten = buf.take res.lastValidOffset ∧
        parts.length = res.records.length ∧
        ∀ (i : Nat) (part : List UInt8) (r : WalRecord), parts[i]? = some part →
          res.records[i]? = some r →
          WalFrame.decode X part = .ok (⟨UInt64.ofNat (i + 1), r⟩, part.length) ∧
            WalFrame.Accepts X part ⟨UInt64.ofNat (i + 1), r⟩) ∧
      res.lastSequence.toNat = res.records.length ∧
      res.lastValidOffset ≤ buf.length ∧
      (res.hadTruncatedTail = true ↔ res.lastValidOffset < buf.length) ∧
      (res.hadTruncatedTail = true → Cut (buf.drop res.lastValidOffset)) := by
  constructor
  · intro rounds hrounds
    exact scanLoop?_eq (s := .init) (Nat.zero_le _) (Nat.le_refl _) hrounds
  · intro res h
    obtain ⟨whole, torn, rs, rfl, hwhole, hcut, rfl⟩ := scanLoop_ok .nil (Nat.le_refl _) h
    rw [List.nil_append] at hwhole ⊢
    obtain ⟨parts, hflatten, hlength, hparts⟩ := hwhole.exists_parts
    refine ⟨⟨parts, ?_, hlength, fun i part r hpart hr => ?_⟩, ?_, ?_, ?_, ?_⟩
    · exact hflatten.trans List.take_left.symm
    · have hframe := hparts i part r hpart hr
      exact ⟨hframe.decode, (WalFrame.decode_eq_ok_iff.mp hframe.decode).1⟩
    · exact UInt64.toNat_ofNat_of_lt' (Nat.lt_of_succ_lt hwhole.length_lt)
    · exact List.length_append ▸ Nat.le_add_right _ _
    · simp [ScanState.finish, ScanState.after, List.length_pos_iff]
    · intro _
      have hdrop : (whole ++ torn).drop whole.length = torn := List.drop_left
      exact hdrop.symm ▸ hcut

end DurableQueue
