import DurableQueue.Defs.Wal.Format
import DurableQueue.Defs.Wal.Scanner

/-! What the scanner makes of any file, also of one that this program did not write. -/

namespace DurableQueue

open Bytes

variable {X : Crates}

namespace WalFrame

theorem decode_append {buf : List UInt8} (h : frameOverhead + fromLe (buf.take 4) ≤ buf.length)
    (rest : List UInt8) : decode X (buf ++ rest) = decode X buf := by
  simp only [frameOverhead] at h
  have hfour : (buf ++ rest).take 4 = buf.take 4 := List.take_append_of_le_length (by omega)
  have hversion : (buf ++ rest).getD 4 0 = buf.getD 4 0 := by
    rw [List.getD_eq_getElem?_getD, List.getElem?_append_left (by omega),
      ← List.getD_eq_getElem?_getD]
  have hdrop : ∀ n m, n + m ≤ buf.length → ((buf ++ rest).drop n).take m = (buf.drop n).take m := by
    intro n m hnm
    rw [List.drop_append_of_le_length (by omega), List.take_append_of_le_length (by simp; omega)]
  have hcovered : (buf ++ rest).take (14 + fromLe (buf.take 4)) =
      buf.take (14 + fromLe (buf.take 4)) := List.take_append_of_le_length (by omega)
  unfold decode
  simp only [hfour, hversion, hcovered, hdrop 6 8 (by omega),
    hdrop 14 (fromLe (buf.take 4)) (by omega), hdrop (14 + fromLe (buf.take 4)) 4 (by omega),
    List.length_append, frameOverhead, Nat.not_lt.mpr h, 
    show ¬ buf.length + rest.length < 18 by omega, show ¬ buf.length < 18 by omega,
    show ¬ buf.length + rest.length < 18 + fromLe (buf.take 4) by omega]

theorem decode_ne_truncated {buf : List UInt8}
    (h : frameOverhead + fromLe (buf.take 4) ≤ buf.length) :
    decode X buf ≠ .error .truncatedFrame := by
  intro htrunc
  unfold decode at htrunc
  simp only [Nat.not_lt.mpr h, if_false] at htrunc
  rw [if_neg (by simp only [frameOverhead] at h ⊢; omega)] at htrunc
  repeat' split at htrunc
  all_goals cases htrunc

end WalFrame

/-! ## Whole frames -/

structure IsFrame (X : Crates) (seq : UInt64) (r : WalRecord) (bytes : List UInt8) : Prop where
  small : fromLe (bytes.take 4) ≤ maxRecordSize
  length : bytes.length = frameOverhead + fromLe (bytes.take 4)
  decode : WalFrame.decode X bytes = .ok (⟨seq, r⟩, bytes.length)

theorem isFrame_frame (hX : X.Lawful) (seq : UInt64) {r : WalRecord} (hr : X.Encodes r) :
    IsFrame X seq r (frame X seq r) := by
  obtain ⟨hsmall, hlength⟩ := announced_frame seq hr []
  have hdecode := decode_frame hX seq hr []
  rw [List.append_nil] at hsmall hlength hdecode
  exact ⟨hsmall, hlength.symm, hdecode⟩

inductive WholeFrames (X : Crates) : List UInt8 → List WalRecord → Prop
  | nil : WholeFrames X [] []
  | snoc {buf bytes : List UInt8} {rs : List WalRecord} {r : WalRecord}
      (h : WholeFrames X buf rs) (hframe : IsFrame X (UInt64.ofNat (rs.length + 1)) r bytes)
      (hlt : rs.length + 2 < 2 ^ 64) : WholeFrames X (buf ++ bytes) (rs ++ [r])

theorem WholeFrames.length_ge {buf : List UInt8} {rs : List WalRecord}
    (h : WholeFrames X buf rs) : frameOverhead * rs.length ≤ buf.length := by
  induction h with
  | nil => exact Nat.le_refl 0
  | snoc h hframe _ ih =>
    rw [List.length_append, List.length_append, List.length_singleton, Nat.mul_succ,
      hframe.length]
    omega

theorem WholeFrames.length_lt {buf : List UInt8} {rs : List WalRecord}
    (h : WholeFrames X buf rs) : rs.length + 1 < 2 ^ 64 := by
  cases h with
  | nil => decide
  | snoc _ _ hlt =>
    rw [List.length_append, List.length_singleton]
    exact hlt

def ScanState.after (rs : List WalRecord) (n : Nat) : ScanState where
  records := rs
  lastSequence := UInt64.ofNat rs.length
  maxLeaseEpoch := maxEpoch rs
  offset := n
  lastValidOffset := n
  expectedSeq := UInt64.ofNat (rs.length + 1)

theorem ScanState.push_after {rs : List WalRecord} {n : Nat} {f : WalFrame} {consumed : Nat}
    {s : ScanState} (hlt : rs.length + 1 < 2 ^ 64) :
    (ScanState.after rs n).push f consumed = .ok s ↔
      f.sequence = UInt64.ofNat (rs.length + 1) ∧ rs.length + 2 < 2 ^ 64 ∧
        s = .after (rs ++ [f.record]) (n + consumed) := by
  have hnat : (UInt64.ofNat (rs.length + 1)).toNat = rs.length + 1 := by
    rw [UInt64.toNat_ofNat']
    exact Nat.mod_eq_of_lt hlt
  simp only [push, after, ne_eq, ite_not, hnat]
  by_cases hseq : f.sequence = UInt64.ofNat (rs.length + 1)
  · rw [if_pos hseq]
    by_cases hmax : rs.length + 1 + 1 = 2 ^ 64
    · rw [if_pos hmax]
      constructor
      · intro h
        cases h
      · rintro ⟨_, hlt', _⟩
        omega
    · rw [if_neg hmax, Except.ok.injEq]
      have hlt' : rs.length + 2 < 2 ^ 64 := by omega
      simp only [hseq, hlt', true_and, maxEpoch_append_singleton, List.length_append,
        List.length_singleton]
      constructor
      · rintro rfl
        simp
      · rintro rfl
        simp
  · rw [if_neg hseq]
    constructor
    · intro h
      cases h
    · rintro ⟨h, _⟩
      exact absurd h hseq

/-! ## Scanning -/

theorem scanLoop_nil (fuel : Nat) (s : ScanState) :
    scanLoop X fuel [] s = .ok (s.finish false) := by
  cases fuel <;> rfl

theorem scanLoop_succ (fuel : Nat) {buf : List UInt8} (hbuf : buf ≠ []) (s : ScanState) :
    scanLoop X (fuel + 1) buf s =
      if buf.length < 4 then .ok (s.finish true)
      else if fromLe (buf.take 4) > maxRecordSize then
        .error (.recordTooLarge (fromLe (buf.take 4)))
      else if buf.length < frameOverhead + fromLe (buf.take 4) then .ok (s.finish true)
      else
        match WalFrame.decode X buf with
        | .ok (f, consumed) =>
          match s.push f consumed with
          | .ok s' => scanLoop X fuel (buf.drop consumed) s'
          | .error e => .error e
        | .error .truncatedFrame => .ok (s.finish true)
        | .error e => .error e := by
  cases buf with
  | nil => exact absurd rfl hbuf
  | cons b bs => rfl

theorem ScanState.push_records {s s' : ScanState} {f : WalFrame} {consumed : Nat}
    (h : s.push f consumed = .ok s') : s'.records = s.records ++ [f.record] := by
  unfold push at h
  split at h
  · cases h
  split at h
  · cases h
  · cases h
    rfl

theorem scanLoop_records {fuel : Nat} {buf : List UInt8} {s : ScanState} {res : ScanResult}
    (h : scanLoop X fuel buf s = .ok res) : s.records <+: res.records := by
  induction fuel generalizing buf s with
  | zero =>
    cases buf <;> cases h <;> exact List.prefix_rfl
  | succ fuel ih =>
    by_cases hnil : buf = []
    · subst hnil
      cases h
      exact List.prefix_rfl
    rw [scanLoop_succ fuel hnil] at h
    split at h
    · cases h
      exact List.prefix_rfl
    split at h
    · cases h
    split at h
    · cases h
      exact List.prefix_rfl
    split at h
    · split at h
      · rename_i hpush
        exact (ScanState.push_records hpush ▸ List.prefix_append _ _).trans (ih h)
      · cases h
    · cases h
      exact List.prefix_rfl
    · cases h

theorem IsFrame.ne_nil {seq : UInt64} {r : WalRecord} {bytes : List UInt8}
    (h : IsFrame X seq r bytes) : bytes ≠ [] := by
  rintro rfl
  have hlength := h.length
  simp only [List.length_nil, frameOverhead] at hlength
  omega

theorem isFrame_take {buf : List UInt8} {f : WalFrame} {n : Nat}
    (hsmall : fromLe (buf.take 4) ≤ maxRecordSize)
    (hlong : frameOverhead + fromLe (buf.take 4) ≤ buf.length)
    (h : WalFrame.decode X buf = .ok (f, n)) :
    IsFrame X f.sequence f.record (buf.take n) ∧ (buf.take n).length = n := by
  obtain ⟨-, rfl⟩ := WalFrame.decode_eq_ok_iff.mp h
  have hlength : (buf.take (frameOverhead + fromLe (buf.take 4))).length =
      frameOverhead + fromLe (buf.take 4) := List.length_take_of_le hlong
  have hfour : (buf.take (frameOverhead + fromLe (buf.take 4))).take 4 = buf.take 4 := by
    rw [List.take_take, Nat.min_eq_left]
    simp only [frameOverhead]
    omega
  refine ⟨⟨by rwa [hfour], by rw [hlength, hfour], ?_⟩, hlength⟩
  have hdecode := @WalFrame.decode_append X (buf.take (frameOverhead + fromLe (buf.take 4)))
    (by rw [hlength, hfour]) (buf.drop (frameOverhead + fromLe (buf.take 4)))
  rw [List.take_append_drop, h] at hdecode
  rw [← hdecode, hlength]

theorem scanLoop_isFrame {rs : List WalRecord} {r : WalRecord} {bytes : List UInt8}
    (h : IsFrame X (UInt64.ofNat (rs.length + 1)) r bytes) (hlt : rs.length + 2 < 2 ^ 64)
    (fuel n : Nat) (rest : List UInt8) :
    scanLoop X (fuel + 1) (bytes ++ rest) (.after rs n) =
      scanLoop X fuel rest (.after (rs ++ [r]) (n + bytes.length)) := by
  have hlength := h.length
  have hsmall := h.small
  have hfour : (bytes ++ rest).take 4 = bytes.take 4 := by
    simp only [frameOverhead] at hlength
    exact List.take_append_of_le_length (by omega)
  have hpush : (ScanState.after rs n).push ⟨UInt64.ofNat (rs.length + 1), r⟩ bytes.length =
      .ok (.after (rs ++ [r]) (n + bytes.length)) :=
    (ScanState.push_after (by omega)).mpr ⟨rfl, hlt, rfl⟩
  rw [scanLoop_succ fuel (List.append_ne_nil_of_left_ne_nil h.ne_nil rest), hfour, if_neg,
    if_neg (Nat.not_lt.mpr hsmall), if_neg, WalFrame.decode_append hlength.ge, h.decode]
  · simp only [hpush, List.drop_left]
  · rw [List.length_append]
    omega
  · rw [List.length_append]
    simp only [frameOverhead] at hlength
    omega

theorem WholeFrames.scanLoop {buf : List UInt8} {rs : List WalRecord} (h : WholeFrames X buf rs)
    (fuel : Nat) (rest : List UInt8) :
    scanLoop X (fuel + rs.length) (buf ++ rest) .init =
      scanLoop X fuel rest (.after rs buf.length) := by
  induction h generalizing fuel rest with
  | nil => rfl
  | @snoc buf bytes rs r h hframe hlt ih =>
    rw [List.length_append, List.length_singleton, List.append_assoc, Nat.add_comm rs.length,
      ← Nat.add_assoc, ih, scanLoop_isFrame hframe hlt, List.length_append]

def Cut (torn : List UInt8) : Prop :=
  torn.length < 4 ∨ fromLe (torn.take 4) ≤ maxRecordSize ∧
    torn.length < frameOverhead + fromLe (torn.take 4)

theorem Cut.nil : Cut [] := .inl (Nat.zero_lt_succ 3)

theorem scanLoop_cut {torn : List UInt8} (h : Cut torn) {fuel : Nat} (hfuel : torn.length ≤ fuel)
    (s : ScanState) : scanLoop X fuel torn s = .ok (s.finish (decide (torn ≠ []))) := by
  by_cases hnil : torn = []
  · subst hnil
    exact scanLoop_nil fuel s
  obtain ⟨fuel, rfl⟩ : ∃ n, fuel = n + 1 := by
    have := List.length_pos_of_ne_nil hnil
    exact ⟨fuel - 1, by omega⟩
  rw [scanLoop_succ fuel hnil, decide_eq_true hnil]
  split
  · rfl
  · rename_i hfour
    obtain ⟨hsmall, hshort⟩ := h.resolve_left hfour
    rw [if_neg (Nat.not_lt.mpr hsmall), if_pos hshort]

theorem WholeFrames.scanFrames {buf torn : List UInt8} {rs : List WalRecord}
    (h : WholeFrames X buf rs) (hcut : Cut torn) :
    scanFrames X (buf ++ torn) =
      .ok ((ScanState.after rs buf.length).finish (decide (torn ≠ []))) := by
  have hge := h.length_ge
  simp only [frameOverhead] at hge
  obtain ⟨fuel, hfuel⟩ : ∃ n, (buf ++ torn).length = n + rs.length :=
    ⟨(buf ++ torn).length - rs.length, by rw [List.length_append]; omega⟩
  rw [DurableQueue.scanFrames, hfuel, h.scanLoop]
  rw [List.length_append] at hfuel
  exact scanLoop_cut hcut (by omega) _

theorem scanLoop_ok {fuel : Nat} {buf done : List UInt8} {rs : List WalRecord}
    {res : ScanResult} (hdone : WholeFrames X done rs) (hfuel : buf.length ≤ fuel)
    (h : scanLoop X fuel buf (.after rs done.length) = .ok res) :
    ∃ whole torn rs', buf = whole ++ torn ∧ WholeFrames X (done ++ whole) rs' ∧ Cut torn ∧
      res = (ScanState.after rs' (done ++ whole).length).finish (decide (torn ≠ [])) := by
  -- `done` grows by one frame in each round
  induction fuel generalizing buf done rs with
  | zero =>
    obtain rfl := List.eq_nil_of_length_eq_zero (Nat.le_zero.mp hfuel)
    cases h
    exact ⟨[], [], rs, rfl, by rwa [List.append_nil], .nil, by simp⟩
  | succ fuel ih =>
    by_cases hnil : buf = []
    · subst hnil
      cases h
      exact ⟨[], [], rs, rfl, by rwa [List.append_nil], .nil, by simp⟩
    have htorn : Cut buf → res = (ScanState.after rs done.length).finish true →
        ∃ whole torn rs', buf = whole ++ torn ∧ WholeFrames X (done ++ whole) rs' ∧ Cut torn ∧
          res = (ScanState.after rs' (done ++ whole).length).finish (decide (torn ≠ [])) := by
      rintro hcut rfl
      exact ⟨[], buf, rs, rfl, by rwa [List.append_nil], hcut, by simp [hnil]⟩
    rw [scanLoop_succ fuel hnil] at h
    split at h
    · rename_i hfour
      exact htorn (.inl hfour) (Except.ok.inj h).symm
    split at h
    · cases h
    rename_i hfour hsmall
    split at h
    · rename_i hshort
      exact htorn (.inr ⟨Nat.not_lt.mp hsmall, hshort⟩) (Except.ok.inj h).symm
    rename_i hlong
    split at h
    · rename_i f consumed hdecode
      split at h
      · rename_i s' hpush
        obtain ⟨hseq, hlt, rfl⟩ := (ScanState.push_after hdone.length_lt).mp hpush
        obtain ⟨hframe, hlength⟩ :=
          isFrame_take (Nat.not_lt.mp hsmall) (Nat.not_lt.mp hlong) hdecode
        have hpos := hframe.length
        rw [hseq] at hframe
        have hnext : (done ++ buf.take consumed).length = done.length + consumed := by
          rw [List.length_append, hlength]
        rw [← hnext] at h
        simp only [hlength, frameOverhead] at hpos
        obtain ⟨whole, torn, rs', hbuf, hwhole, hcut, hres⟩ :=
          ih (hdone.snoc hframe hlt) (by rw [List.length_drop]; omega) h
        rw [List.append_assoc] at hwhole hres
        refine ⟨buf.take consumed ++ whole, torn, rs', ?_, hwhole, hcut, hres⟩
        rw [List.append_assoc, ← hbuf, List.take_append_drop]
      · cases h
    · rename_i htrunc
      exact absurd htrunc (WalFrame.decode_ne_truncated (Nat.not_lt.mp hlong))
    · cases h

/-! ## Files -/

structure Reads (X : Crates) (file : List UInt8) (log : List WalRecord) : Prop where
  long : headerSize ≤ file.length
  header : ∃ h, WalHeader.decode (file.take headerSize) = .ok h
  frames : WholeFrames X (file.drop headerSize) log

theorem reads_headerBytes : Reads X headerBytes [] :=
  ⟨by decide, ⟨_, decode_headerBytes⟩, .nil⟩

namespace Reads

variable {file torn : List UInt8} {log : List WalRecord}

theorem length_lt (h : Reads X file log) : log.length + 1 < 2 ^ 64 := h.frames.length_lt

theorem ne_nil (h : Reads X file log) : file ≠ [] := by
  rintro rfl
  exact absurd h.long (by decide)

theorem snoc (h : Reads X file log) {r : WalRecord} {bytes : List UInt8}
    (hframe : IsFrame X (UInt64.ofNat (log.length + 1)) r bytes)
    (hlt : log.length + 2 < 2 ^ 64) : Reads X (file ++ bytes) (log ++ [r]) where
  long := h.long.trans (by simp)
  header := by
    rw [List.take_append_of_le_length h.long]
    exact h.header
  frames := by
    rw [List.drop_append_of_le_length h.long]
    exact h.frames.snoc hframe hlt

theorem scan (h : Reads X file log) (hcut : Cut torn) :
    scanWal X (file ++ torn) =
      .ok ((ScanState.after log (file.length - headerSize)).finish (decide (torn ≠ []))) := by
  have hlong := h.long
  obtain ⟨hdr, hheader⟩ := h.header
  simp only [headerSize] at hlong
  have hlength : (file ++ torn).length = file.length + torn.length := List.length_append
  rw [scanWal, if_neg (by omega), if_neg (by simp only [headerSize]; omega),
    List.take_append_of_le_length h.long, hheader, List.drop_append_of_le_length h.long]
  simp only [h.frames.scanFrames hcut, List.length_drop]

theorem scan_behind (h : Reads X file log) {buf : List UInt8} {res : ScanResult}
    (hbuf : buf ≠ []) (hscan : scanWal X (file ++ buf) = .ok res)
    (hmore : res.records ≠ log) :
    ∃ f, WalFrame.Accepts X buf f ∧ log ++ [f.record] <+: res.records := by
  have hlong := h.long
  obtain ⟨hdr, hheader⟩ := h.header
  simp only [headerSize] at hlong
  have hlength : (file ++ buf).length = file.length + buf.length := List.length_append
  rw [scanWal, if_neg (by omega), if_neg (by simp only [headerSize]; omega),
    List.take_append_of_le_length h.long, hheader, List.drop_append_of_le_length h.long] at hscan
  simp only [DurableQueue.scanFrames] at hscan
  have hpos := List.length_pos_of_ne_nil hbuf
  have hge := h.frames.length_ge
  simp only [frameOverhead] at hge
  obtain ⟨fuel, hfuel⟩ : ∃ n, (file.drop headerSize ++ buf).length = n + 1 + log.length :=
    ⟨(file.drop headerSize ++ buf).length - 1 - log.length, by rw [List.length_append]; omega⟩
  rw [hfuel, h.frames.scanLoop, scanLoop_succ fuel hbuf] at hscan
  split at hscan
  · exact absurd (congrArg ScanResult.records (Except.ok.inj hscan).symm) hmore
  split at hscan
  · cases hscan
  split at hscan
  · exact absurd (congrArg ScanResult.records (Except.ok.inj hscan).symm) hmore
  split at hscan
  · rename_i f consumed hdecode
    split at hscan
    · rename_i s' hpush
      obtain ⟨-, -, rfl⟩ := (ScanState.push_after h.length_lt).mp hpush
      exact ⟨f, (WalFrame.decode_eq_ok_iff.mp hdecode).1, scanLoop_records hscan⟩
    · cases hscan
  · exact absurd (congrArg ScanResult.records (Except.ok.inj hscan).symm) hmore
  · cases hscan

theorem repair (h : Reads X file log) (torn : List UInt8) :
    repairTruncatedTail (file ++ torn) (file.length - headerSize) = file := by
  rw [repairTruncatedTail, Nat.add_sub_cancel' h.long]
  split
  · rename_i hle
    rw [List.length_append] at hle
    rw [List.eq_nil_of_length_eq_zero (show torn.length = 0 by omega), List.append_nil]
  · exact List.take_left

end Reads

/-- The scanner accepts no other files, but for the empty one. -/
theorem scanWal_ok {file : List UInt8} (hfile : file ≠ []) {res : ScanResult}
    (h : scanWal X file = .ok res) :
    ∃ whole torn, file = whole ++ torn ∧ Reads X whole res.records ∧ Cut torn ∧
      res = (ScanState.after res.records (whole.length - headerSize)).finish
        (decide (torn ≠ [])) := by
  rw [scanWal, if_neg (by simpa using hfile)] at h
  split at h
  · cases h
  rename_i hlong
  split at h
  · cases h
  · rename_i hdr hheader
    obtain ⟨whole, torn, rs, hbuf, hwhole, hcut, rfl⟩ := scanLoop_ok .nil (Nat.le_refl _) h
    have htake : (file.take headerSize).length = headerSize :=
      List.length_take_of_le (Nat.not_lt.mp hlong)
    refine ⟨file.take headerSize ++ whole, torn, ?_, ⟨?_, ?_, ?_⟩, hcut, ?_⟩
    · rw [List.append_assoc, ← hbuf, List.take_append_drop]
    · rw [List.length_append, htake]
      exact Nat.le_add_right _ _
    · exact ⟨hdr, by rw [List.take_left' htake, hheader]⟩
    · rw [List.drop_left' htake]
      exact hwhole
    · have hsize : (file.take headerSize ++ whole).length - headerSize = whole.length := by
        rw [List.length_append, htake, Nat.add_sub_cancel_left]
      rw [hsize]
      rfl

end DurableQueue
