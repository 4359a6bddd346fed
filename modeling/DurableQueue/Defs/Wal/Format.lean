import DurableQueue.Defs.Wal.CodecLaws
import DurableQueue.Defs.Wal.Postcard

/-! The frame format: what the decoder accepts, against what the encoder writes. -/

namespace DurableQueue

open Bytes

variable {X : Crates}

namespace WalFrame

/-! ## The decoder on any bytes -/

structure Accepts (X : Crates) (buf : List UInt8) (f : WalFrame) : Prop where
  small : fromLe (buf.take 4) ≤ maxRecordSize
  long : frameOverhead + fromLe (buf.take 4) ≤ buf.length
  version : buf.getD 4 0 = recordVersion
  sequence : UInt64.ofNat (fromLe ((buf.drop 6).take 8)) = f.sequence
  checksum : UInt32.ofNat (fromLe ((buf.drop (14 + fromLe (buf.take 4))).take 4)) =
    X.crc32 (buf.take (14 + fromLe (buf.take 4)))
  payload : X.fromBytes ((buf.drop 14).take (fromLe (buf.take 4))) = .ok f.record

theorem decode_eq_ok_iff {buf : List UInt8} {f : WalFrame} {n : Nat} :
    decode X buf = .ok (f, n) ↔ Accepts X buf f ∧ n = frameOverhead + fromLe (buf.take 4) := by
  constructor
  · intro h
    unfold decode at h
    simp only at h
    split at h
    · cases h
    split at h
    · cases h
    split at h
    · cases h
    split at h
    · cases h
    split at h
    · cases h
    rename_i hsmall hlong hversion hcrc
    split at h
    · cases h
    · rename_i record hrecord
      cases h
      exact ⟨⟨Nat.not_lt.mp hsmall, Nat.not_lt.mp hlong, not_not.mp hversion, rfl,
        not_not.mp hcrc, hrecord⟩, rfl⟩
  · rintro ⟨h, rfl⟩
    have hlong := h.long
    have hover : ¬ buf.length < frameOverhead := by omega
    simp only [decode, hover, if_false, Nat.not_lt.mpr h.small, Nat.not_lt.mpr h.long, h.version,
      ne_eq, not_true_eq_false, h.checksum, h.payload, h.sequence]

theorem take_fields {buf : List UInt8} {n : Nat} (h : 14 + n ≤ buf.length) :
    buf.take (14 + n) = buf.take 4 ++
      (buf.getD 4 0 :: buf.getD 5 0 :: ((buf.drop 6).take 8 ++ (buf.drop 14).take n)) := by
  have hbyte : ∀ i, i < buf.length → buf.drop i = buf.getD i 0 :: buf.drop (i + 1) := by
    intro i hi
    rw [List.drop_eq_getElem_cons hi, List.getD_eq_getElem?_getD, List.getElem?_eq_getElem hi,
      Option.getD_some]
  rw [show 14 + n = 4 + (1 + (1 + (8 + n))) by omega, List.take_add, hbyte 4 (by omega),
    Nat.add_comm 1, List.take_succ_cons, hbyte 5 (by omega), Nat.add_comm 1, List.take_succ_cons,
    List.take_add, List.drop_drop]

namespace Accepts

variable {buf : List UInt8} {f : WalFrame}

theorem take_frame (buf : List UInt8) : buf.take (frameOverhead + fromLe (buf.take 4)) =
    buf.take (14 + fromLe (buf.take 4)) ++ (buf.drop (14 + fromLe (buf.take 4))).take 4 := by
  rw [← List.take_add, show frameOverhead + fromLe (buf.take 4) =
    14 + fromLe (buf.take 4) + 4 by simp only [frameOverhead]; omega]

theorem length_payload (h : Accepts X buf f) :
    ((buf.drop 14).take (fromLe (buf.take 4))).length = fromLe (buf.take 4) := by
  have hlong := h.long
  simp only [frameOverhead] at hlong
  rw [List.length_take, List.length_drop]
  omega

theorem covered_eq (h : Accepts X buf f) (htype : buf.getD 5 0 = f.record.recordType) :
    f.covered ((buf.drop 14).take (fromLe (buf.take 4))) = buf.take (14 + fromLe (buf.take 4)) := by
  have hlong := h.long
  simp only [frameOverhead] at hlong
  have hfour : toLe 4 (fromLe (buf.take 4)) = buf.take 4 := by
    have hlength : (buf.take 4).length = 4 := List.length_take_of_le (by omega)
    simpa only [hlength] using toLe_fromLe (buf.take 4)
  have hseq : toLe 8 f.sequence.toNat = (buf.drop 6).take 8 := by
    have hlength : ((buf.drop 6).take 8).length = 8 := by
      rw [List.length_take, List.length_drop]
      omega
    have hlt := fromLe_lt ((buf.drop 6).take 8)
    rw [hlength] at hlt
    rw [← h.sequence, UInt64.toNat_ofNat_of_lt' hlt]
    simpa only [hlength] using toLe_fromLe ((buf.drop 6).take 8)
  rw [take_fields (by omega), covered, h.length_payload, hfour, hseq, h.version, htype]

theorem record_eq {p a b : List UInt8} {g : WalFrame} (h : Accepts X (p ++ a) f)
    (h' : Accepts X (p ++ b) g) (hcover : 14 + fromLe (p.take 4) ≤ p.length) :
    f.record = g.record := by
  have hslice : ∀ rest, (((p ++ rest).drop 14).take (fromLe ((p ++ rest).take 4))) =
      (p.drop 14).take (fromLe (p.take 4)) := by
    intro rest
    rw [List.take_append_of_le_length (show 4 ≤ p.length by omega),
      List.drop_append_of_le_length (by omega),
      List.take_append_of_le_length (by rw [List.length_drop]; omega)]
  have hread := h.payload
  rw [hslice, ← hslice b, h'.payload] at hread
  exact (Except.ok.inj hread).symm

theorem crc_eq (h : Accepts X buf f) :
    toLe 4 (X.crc32 (buf.take (14 + fromLe (buf.take 4)))).toNat =
      (buf.drop (14 + fromLe (buf.take 4))).take 4 := by
  have hlong := h.long
  simp only [frameOverhead] at hlong
  have hlength : ((buf.drop (14 + fromLe (buf.take 4))).take 4).length = 4 := by
    rw [List.length_take, List.length_drop]
    omega
  have hlt := fromLe_lt ((buf.drop (14 + fromLe (buf.take 4))).take 4)
  rw [hlength] at hlt
  rw [← h.checksum, UInt32.toNat_ofNat_of_lt' hlt]
  simpa only [hlength] using toLe_fromLe ((buf.drop (14 + fromLe (buf.take 4))).take 4)

end Accepts

/-! ## Against the encoder -/

/-- A frame reads back with anything behind it, and no strict beginning of it is more than a
truncated frame. -/
theorem decode_encode (hX : X.Lawful) {f : WalFrame} {bytes : List UInt8}
    (h : f.encode X = .ok bytes) :
    (∀ rest, decode X (bytes ++ rest) = .ok (f, bytes.length)) ∧
      ∀ p, p <+: bytes → p ≠ bytes → decode X p = .error .truncatedFrame := by
  obtain ⟨hencodes, rfl⟩ := (encode_eq_ok_iff f bytes).mp h
  constructor
  · exact decode_frame hX f.sequence hencodes
  · intro p hp hne
    have hlt : p.length < (frame X f.sequence f.record).length :=
      lt_of_le_of_ne hp.length_le fun hlength => hne (hp.eq_of_length hlength)
    exact decode_frame_prefix f.sequence hencodes hp hlt

theorem decode_encode_submitted :
    decode Postcard.crates
      ((⟨18446744073709551615, .jobSubmitted ⟨1⟩ ⟨"mail"⟩ ⟨[7], 3⟩ ⟨-1⟩⟩ : WalFrame).bytes
        Postcard.crates (Postcard.put (.jobSubmitted ⟨1⟩ ⟨"mail"⟩ ⟨[7], 3⟩ ⟨-1⟩)) ++ [0]) =
      .ok (⟨18446744073709551615, .jobSubmitted ⟨1⟩ ⟨"mail"⟩ ⟨[7], 3⟩ ⟨-1⟩⟩, 45) :=
  (decode_encode Postcard.crates_lawful (by decide +kernel)).1 [0]

theorem Accepts.encode_iff {buf : List UInt8} {f : WalFrame} (hacc : Accepts X buf f) :
    f.encode X = .ok (buf.take (frameOverhead + fromLe (buf.take 4))) ↔
      buf.getD 5 0 = f.record.recordType ∧
        X.toAllocvec f.record = .ok ((buf.drop 14).take (fromLe (buf.take 4))) := by
  constructor
  · intro hencode
    unfold encode at hencode
    split at hencode
    · cases hencode
    rename_i payload hpayload
    split at hencode
    · cases hencode
    have hbytes := Except.ok.inj hencode
    have hlong := hacc.long
    have hlength : payload.length = fromLe (buf.take 4) := by
      have := congrArg List.length hbytes
      rw [length_bytes, List.length_take_of_le hlong] at this
      omega
    -- compare the covered bytes field by field
    rw [Accepts.take_frame, bytes] at hbytes
    simp only [frameOverhead] at hlong
    obtain ⟨hcovered, _⟩ := List.append_inj hbytes (by
      rw [length_covered, hlength, List.length_take_of_le (by omega)])
    rw [take_fields (by omega), covered] at hcovered
    obtain ⟨_, hfields⟩ := List.append_inj hcovered (by
      rw [length_toLe, List.length_take_of_le (by omega)])
    obtain ⟨_, hfields⟩ := List.cons.inj hfields
    obtain ⟨htype, hfields⟩ := List.cons.inj hfields
    obtain ⟨_, hrest⟩ := List.append_inj hfields (by
      rw [length_toLe, List.length_take, List.length_drop]
      omega)
    exact ⟨htype.symm, hpayload.trans (congrArg Except.ok hrest)⟩
  · rintro ⟨htype, hpayload⟩
    have hsmall := hacc.small
    simp only [encode, hpayload, hacc.length_payload, Nat.not_lt.mpr hsmall, if_false]
    rw [bytes, hacc.covered_eq htype, hacc.crc_eq, ← Accepts.take_frame]

/-- The payload that the buffer announces is the serialization of a record, with nothing
behind it, and the type byte is the type of that record. -/
def Canonical (X : Crates) (buf : List UInt8) : Prop :=
  ∃ r, X.toAllocvec r = .ok ((buf.drop 14).take (fromLe (buf.take 4))) ∧
    buf.getD 5 0 = r.recordType

/-- An accepted frame is the encoder's frame of what was read from it iff the bytes are
canonical.  The decoder does not check that. -/
theorem decode_canonical_iff (hX : X.Lawful) {buf : List UInt8} {f : WalFrame} {n : Nat}
    (h : decode X buf = .ok (f, n)) : f.encode X = .ok (buf.take n) ↔ Canonical X buf := by
  obtain ⟨hacc, rfl⟩ := decode_eq_ok_iff.mp h
  rw [hacc.encode_iff]
  constructor
  · rintro ⟨htype, hpayload⟩
    exact ⟨f.record, hpayload, htype⟩
  · rintro ⟨r, hpayload, htype⟩
    -- what reads back from the payload is the record it was written from
    have hread := hX r _ hpayload
    rw [hacc.payload] at hread
    cases hread
    exact ⟨htype, hpayload⟩

def sealed (covered : List UInt8) : List UInt8 := covered ++ toLe 4 (Wire.crc32 covered).toNat

def cancelFrame : WalFrame := ⟨1, .jobCancelled ⟨1⟩ ⟨5⟩⟩

theorem decode_canonical_cancel :
    cancelFrame.encode Postcard.crates =
      .ok ((sealed (cancelFrame.covered (Postcard.put cancelFrame.record)) ++ [9]).take 37) :=
  (decode_canonical_iff Postcard.crates_lawful (by decide +kernel)).mpr
    ⟨cancelFrame.record, by decide +kernel, by decide +kernel⟩

/-- A cancellation under the type byte of a submission. -/
def mistypedFrame : List UInt8 :=
  sealed (toLe 4 19 ++ (recordVersion :: 1 :: (toLe 8 1 ++ Postcard.put cancelFrame.record)))

/-- A cancellation with one byte more in the payload. -/
def paddedFrame : List UInt8 :=
  sealed (toLe 4 20 ++ (recordVersion :: 6 :: (toLe 8 1 ++ (Postcard.put cancelFrame.record ++ [0]))))

/-- The decoder accepts both as frames of the cancellation, which encodes otherwise. -/
theorem decode_accepts_noncanonical :
    (decode Postcard.crates mistypedFrame = .ok (cancelFrame, mistypedFrame.length) ∧
      cancelFrame.encode Postcard.crates ≠ .ok mistypedFrame) ∧
    (decode Postcard.crates paddedFrame = .ok (cancelFrame, paddedFrame.length) ∧
      cancelFrame.encode Postcard.crates ≠ .ok paddedFrame) := by
  decide +kernel

end WalFrame

end DurableQueue
