import DurableQueue.Defs.Wal.Reading
import DurableQueue.Defs.Wal.Postcard

/-! Scanning a log that the encoder wrote, whole or cut at any byte. -/

namespace DurableQueue

open Bytes

/-- No slice in memory is longer than `isize::MAX` bytes. -/
def isizeMax : Nat := 2 ^ 63 - 1

variable {X : Crates}

def scanned (X : Crates) (rs : List WalRecord) : ScanState where
  records := rs
  lastSequence := UInt64.ofNat rs.length
  maxLeaseEpoch := maxEpoch rs
  offset := (frames X 1 rs).length
  lastValidOffset := (frames X 1 rs).length
  expectedSeq := UInt64.ofNat (rs.length + 1)

/-- What a crash may leave behind the last whole frame: a strict prefix of some frame. -/
def Torn (X : Crates) (torn : List UInt8) : Prop :=
  torn = [] ∨ ∃ seq r, X.Encodes r ∧ torn <+: frame X seq r ∧ torn.length < (frame X seq r).length

theorem Torn.nil : Torn X [] := Or.inl rfl

theorem Torn.isCut {torn : List UInt8} (h : Torn X torn) : Cut torn := by
  rcases h with rfl | ⟨seq, r, hr, hp, hlt⟩
  · exact .inl (by simp)
  by_cases hfour : torn.length < 4
  · exact .inl hfour
  obtain ⟨hsmall, hsize⟩ := announced_frame seq hr []
  have htake : torn.take 4 = (frame X seq r ++ []).take 4 := by
    obtain ⟨q, hq⟩ := hp
    rw [List.append_nil, ← hq, List.take_append_of_le_length (by omega)]
  rw [← htake] at hsmall hsize
  exact .inr ⟨hsmall, by omega⟩

theorem wholeFrames_frames (hX : X.Lawful) {rs : List WalRecord} (hrs : ∀ r ∈ rs, X.Encodes r)
    (hlt : rs.length + 1 < 2 ^ 64) : WholeFrames X (frames X 1 rs) rs := by
  induction rs using List.reverseRecOn with
  | nil => exact .nil
  | append_singleton rs r ih =>
    rw [List.length_append, List.length_singleton] at hlt
    have hwhole := ih (fun r' hr' => hrs r' (by simp [hr'])) (by omega)
    have hframe := isFrame_frame hX (UInt64.ofNat (rs.length + 1)) (hrs r (by simp))
    rw [frames_snoc, Nat.add_comm 1]
    exact hwhole.snoc hframe hlt

theorem length_lt_of_frames {rs : List WalRecord} (hrs : ∀ r ∈ rs, X.Encodes r)
    (hlen : (frames X 1 rs).length ≤ isizeMax) : rs.length + 1 < 2 ^ 64 := by
  have hge := length_frames_ge 1 hrs
  simp only [frameOverhead, isizeMax] at hge hlen
  omega

/-- A log of whole frames with a torn tail scans to exactly its records. -/
theorem scanFrames_frames (hX : X.Lawful) {rs : List WalRecord} (hrs : ∀ r ∈ rs, X.Encodes r)
    {torn : List UInt8} (ht : Torn X torn)
    (hlen : (frames X 1 rs ++ torn).length ≤ isizeMax) :
    scanFrames X (frames X 1 rs ++ torn) = .ok ((scanned X rs).finish (decide (torn ≠ []))) := by
  rw [List.length_append] at hlen
  have hlt := length_lt_of_frames hrs ((Nat.le_add_right _ _).trans hlen)
  exact (wholeFrames_frames hX hrs hlt).scanFrames ht.isCut

theorem reads_logBytes (hX : X.Lawful) {log : List WalRecord} (hlog : ∀ r ∈ log, X.Encodes r)
    (hlen : (logBytes X log).length ≤ isizeMax) : Reads X (logBytes X log) log := by
  rw [logBytes, List.length_append] at hlen
  have hlt := length_lt_of_frames hlog ((Nat.le_add_left _ _).trans hlen)
  refine ⟨?_, ⟨WalHeader.new, ?_⟩, ?_⟩
  · rw [logBytes, List.length_append, length_headerBytes]
    exact Nat.le_add_right _ _
  · rw [logBytes, List.take_left' length_headerBytes, decode_headerBytes]
  · rw [logBytes, List.drop_left' length_headerBytes]
    exact wholeFrames_frames hX hlog hlt

theorem length_logBytes (log : List WalRecord) :
    (logBytes X log).length - headerSize = (frames X 1 log).length := by
  rw [logBytes, List.length_append, length_headerBytes, Nat.add_sub_cancel_left]

theorem scanWal_logBytes (hX : X.Lawful) {log : List WalRecord} (hlog : ∀ r ∈ log, X.Encodes r)
    {torn : List UInt8} (ht : Torn X torn)
    (hlen : (logBytes X log ++ torn).length ≤ isizeMax) :
    scanWal X (logBytes X log ++ torn) = .ok ((scanned X log).finish (decide (torn ≠ []))) := by
  rw [List.length_append] at hlen
  have hscan := (reads_logBytes hX hlog ((Nat.le_add_right _ _).trans hlen)).scan ht.isCut
  rw [length_logBytes] at hscan
  exact hscan

theorem frames_take_prefix (rs : List WalRecord) (k n : Nat) :
    frames X k (rs.take n) <+: frames X k rs := by
  conv_rhs => rw [← List.take_append_drop n rs, frames_append]
  exact List.prefix_append _ _

/-- A prefix of the frame area is some whole frames followed by a torn one. -/
theorem frames_prefix_cases {rs : List WalRecord} (hrs : ∀ r ∈ rs, X.Encodes r) {k : Nat}
    {p : List UInt8} (hp : p <+: frames X k rs) :
    ∃ n ≤ rs.length, ∃ torn, p = frames X k (rs.take n) ++ torn ∧ Torn X torn ∧
      (n < rs.length → p.length < (frames X k (rs.take (n + 1))).length) := by
  induction rs generalizing k p with
  | nil =>
    refine ⟨0, le_rfl, [], ?_, Torn.nil, by simp⟩
    simpa using hp
  | cons r rs ih =>
    rw [frames] at hp
    rcases prefix_append_cases hp with ⟨hpre, hlt⟩ | ⟨q, rfl, hq⟩
    · refine ⟨0, Nat.zero_le _, p, by simp, Or.inr ⟨_, r, hrs r (by simp), hpre, hlt⟩, ?_⟩
      intro _
      simpa [frames] using hlt
    · obtain ⟨n, hn, torn, rfl, htorn, hmax⟩ := ih (fun r' hr' => hrs r' (by simp [hr'])) hq
      refine ⟨n + 1, by simpa using hn, torn, by simp [frames], htorn, ?_⟩
      intro hlt
      have := hmax (by simpa using hlt)
      simp only [List.length_append, List.take_succ_cons, frames] at this ⊢
      omega

/-- Cut the frame area at any byte: the scan returns the records of the frames that lie
wholly before the cut, and reports a truncated tail iff the cut falls inside a frame. -/
theorem scanFrames_of_prefix (hX : X.Lawful) {rs : List WalRecord}
    (hrs : ∀ r ∈ rs, X.Encodes r) {p : List UInt8} (hp : p <+: frames X 1 rs)
    (hlen : p.length ≤ isizeMax) :
    ∃ n ≤ rs.length, (frames X 1 (rs.take n)).length ≤ p.length ∧
      (n < rs.length → p.length < (frames X 1 (rs.take (n + 1))).length) ∧
      scanFrames X p = .ok
        { records := rs.take n
          lastSequence := UInt64.ofNat n
          maxLeaseEpoch := maxEpoch (rs.take n)
          lastValidOffset := (frames X 1 (rs.take n)).length
          hadTruncatedTail := decide ((frames X 1 (rs.take n)).length < p.length) } := by
  obtain ⟨n, hn, torn, rfl, htorn, hmax⟩ := frames_prefix_cases hrs hp
  refine ⟨n, hn, by simp, hmax, ?_⟩
  rw [scanFrames_frames hX (fun r hr => hrs r (List.mem_of_mem_take hr)) htorn hlen]
  have htail : decide (torn ≠ []) =
      decide ((frames X 1 (rs.take n)).length < (frames X 1 (rs.take n) ++ torn).length) := by
    simp [List.length_pos_iff]
  simp only [ScanState.finish, scanned, List.length_take, Nat.min_eq_left hn, htail]

def leaseThenCancel : List WalRecord := [.jobLeased ⟨1⟩ ⟨4⟩ 1 ⟨0⟩, .jobCancelled ⟨1⟩ ⟨5⟩]

/-- Two frames, cut inside the second one: the scan returns the first record. -/
theorem scanFrames_of_prefix_fifty :
    scanFrames Postcard.crates ((frames Postcard.crates 1 leaseThenCancel).take 50) = .ok
      { records := [.jobLeased ⟨1⟩ ⟨4⟩ 1 ⟨0⟩]
        lastSequence := 1
        maxLeaseEpoch := 4
        lastValidOffset := 39
        hadTruncatedTail := true } := by
  have hrs : ∀ r ∈ leaseThenCancel, Postcard.crates.Encodes r := by
    intro r hr
    apply Postcard.crates_compact
    fin_cases hr <;> rfl
  have hlen : ((frames Postcard.crates 1 leaseThenCancel).take 50).length = 50 := by
    decide +kernel
  obtain ⟨n, hn, hle, hlt, hscan⟩ := scanFrames_of_prefix Postcard.crates_lawful hrs
    (List.take_prefix 50 _) (by rw [hlen]; simp [isizeMax])
  rw [hlen] at hle hlt hscan
  have hne₀ : n ≠ 0 := by
    rintro rfl
    exact absurd (hlt (by decide)) (by decide +kernel)
  have hne₂ : n ≠ 2 := by
    rintro rfl
    exact absurd hle (by decide +kernel)
  have hone : n = 1 := by
    have : n ≤ 2 := hn
    omega
  subst hone
  rw [hscan]
  decide +kernel

end DurableQueue
