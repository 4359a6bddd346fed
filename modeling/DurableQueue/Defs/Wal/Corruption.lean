import DurableQueue.Defs.Wal.ScannerLaws

/-! Damage in place: a log whose bytes changed while its length did not.  The scanner
trusts the length field of a frame before it has checked anything, and that decides which
damage it reports and which it takes for the tail of a crash. -/

namespace DurableQueue

open Bytes

variable {X : Crates}

def announced (buf : List UInt8) (offset : Nat) : Nat := fromLe ((buf.drop offset).take 4)

def coveredAt (buf : List UInt8) (offset : Nat) : List UInt8 :=
  (buf.drop offset).take (14 + announced buf offset)

def storedAt (buf : List UInt8) (offset : Nat) : UInt32 :=
  UInt32.ofNat (fromLe ((buf.drop (offset + (14 + announced buf offset))).take 4))

def frameStart (X : Crates) (rs : List WalRecord) (i : Nat) : Nat :=
  (frames X 1 (rs.take i)).length

def FirstDamaged (X : Crates) (rs : List WalRecord) (damaged : List UInt8) (i : Nat) : Prop :=
  i < rs.length ∧
    damaged.take (frameStart X rs i) = (frames X 1 rs).take (frameStart X rs i) ∧
    damaged.take (frameStart X rs (i + 1)) ≠ (frames X 1 rs).take (frameStart X rs (i + 1))

/-- The checksum does its work on this damage: the checksum of a frame of the damaged log
differs from the stored one whenever the bytes it covers differ from those written. -/
def CrcDetects (X : Crates) (rs : List WalRecord) (damaged : List UInt8) : Prop :=
  ∀ i < rs.length,
    coveredAt damaged (frameStart X rs i) ≠
      ((frames X 1 rs).drop (frameStart X rs i)).take
        (14 + announced damaged (frameStart X rs i)) →
    X.crc32 (coveredAt damaged (frameStart X rs i)) ≠ storedAt damaged (frameStart X rs i)

def RunsPastEnd (damaged : List UInt8) (offset : Nat) : Prop :=
  announced damaged offset ≤ maxRecordSize ∧
    damaged.length < offset + (frameOverhead + announced damaged offset)

/-- A buffer that holds the frame it announces is never called truncated, and it decodes
only if its checksum holds. -/
theorem decode_complete {buf : List UInt8} (hmax : announced buf 0 ≤ maxRecordSize)
    (hfit : frameOverhead + announced buf 0 ≤ buf.length) :
    (∃ f n, WalFrame.decode X buf = .ok (f, n) ∧ X.crc32 (coveredAt buf 0) = storedAt buf 0) ∨
      ∃ e, WalFrame.decode X buf = .error e ∧ e ≠ .truncatedFrame := by
  simp only [announced, coveredAt, storedAt, List.drop_zero, Nat.zero_add] at hmax hfit ⊢
  unfold WalFrame.decode
  rw [if_neg (by omega)]
  simp only [gt_iff_lt, Nat.not_lt.mpr hmax, Nat.not_lt.mpr hfit, if_false]
  split
  · exact Or.inr ⟨_, rfl, by simp⟩
  split
  · exact Or.inr ⟨_, rfl, by simp⟩
  rename_i _ hcrc
  split
  · exact Or.inr ⟨_, rfl, by simp⟩
  · exact Or.inl ⟨_, _, rfl, (not_not.mp hcrc).symm⟩

theorem announced_drop (buf : List UInt8) (o : Nat) :
    announced (buf.drop o) 0 = announced buf o := by
  simp [announced]

theorem coveredAt_drop (buf : List UInt8) (o : Nat) :
    coveredAt (buf.drop o) 0 = coveredAt buf o := by
  simp [coveredAt, announced_drop]

theorem storedAt_drop (buf : List UInt8) (o : Nat) :
    storedAt (buf.drop o) 0 = storedAt buf o := by
  simp [storedAt, announced_drop]

theorem frames_take_succ (rs : List WalRecord) {i : Nat} (hi : i < rs.length) :
    frames X 1 (rs.take (i + 1)) =
      frames X 1 (rs.take i) ++ frame X (UInt64.ofNat (i + 1)) rs[i] := by
  rw [List.take_succ_eq_append_getElem hi, frames_snoc, List.length_take,
    Nat.min_eq_left hi.le, Nat.add_comm 1]

theorem frames_split (rs : List WalRecord) {i : Nat} (hi : i < rs.length) :
    ∃ rest, frames X 1 rs =
      frames X 1 (rs.take i) ++ (frame X (UInt64.ofNat (i + 1)) rs[i] ++ rest) := by
  obtain ⟨rest, hrest⟩ := frames_take_prefix (X := X) rs 1 (i + 1)
  exact ⟨rest, by rw [← hrest, frames_take_succ rs hi, List.append_assoc]⟩

theorem exists_firstDamaged {rs : List WalRecord} {damaged : List UInt8}
    (hlen : damaged.length = (frames X 1 rs).length) (hne : damaged ≠ frames X 1 rs) :
    ∃ i, FirstDamaged X rs damaged i := by
  let differs i := damaged.take (frameStart X rs i) ≠ (frames X 1 rs).take (frameStart X rs i)
  have hend : differs rs.length := by
    have hstart : frameStart X rs rs.length = (frames X 1 rs).length := by simp [frameStart]
    simp only [differs, hstart]
    rw [← hlen, List.take_length, hlen, List.take_length]
    exact hne
  -- the least boundary at which the prefixes differ is not the first one
  have hex : ∃ i, differs i := ⟨_, hend⟩
  classical
  obtain ⟨i, hi⟩ : ∃ i, Nat.find hex = i + 1 := by
    apply Nat.exists_eq_succ_of_ne_zero
    intro h0
    have := Nat.find_spec hex
    rw [h0] at this
    exact this (by simp [frameStart])
  refine ⟨i, ?_, ?_, ?_⟩
  · have := Nat.find_min' hex hend
    omega
  · exact not_not.mp (Nat.find_min hex (show i < Nat.find hex by omega))
  · have := Nat.find_spec hex
    rwa [hi] at this

/-- The scan of a damaged log reaches its first damaged frame with all frames before it read. -/
theorem scanFrames_damaged (hX : X.Lawful) {rs : List WalRecord}
    (hrs : ∀ r ∈ rs, X.Encodes r) {damaged : List UInt8}
    (hlen : damaged.length = (frames X 1 rs).length) (hsize : damaged.length ≤ isizeMax)
    {i : Nat} (hi : i < rs.length)
    (hpre : damaged.take (frameStart X rs i) = (frames X 1 rs).take (frameStart X rs i)) :
    ∃ fuel, scanFrames X damaged =
      scanLoop X (fuel + 1) (damaged.drop (frameStart X rs i)) (scanned X (rs.take i)) := by
  obtain ⟨rest, hrest⟩ := frames_split (X := X) rs hi
  have hpos := length_frame_pos (UInt64.ofNat (i + 1)) (hrs rs[i] (List.getElem_mem hi))
  have hencodes : ∀ r ∈ rs.take i, X.Encodes r := fun r hr => hrs r (List.mem_of_mem_take hr)
  have hge := length_frames_ge 1 hencodes
  simp only [List.length_take, Nat.min_eq_left hi.le, frameOverhead] at hge
  have htotal := congrArg List.length hrest
  simp only [List.length_append, frameOverhead] at htotal hpos
  simp only [isizeMax] at hsize
  have hsplit : damaged = frames X 1 (rs.take i) ++ damaged.drop (frameStart X rs i) := by
    have htake : (frames X 1 rs).take (frameStart X rs i) = frames X 1 (rs.take i) := by
      rw [hrest]
      exact List.take_left
    rw [← htake, ← hpre, List.take_append_drop]
  refine ⟨damaged.length - i - 1, ?_⟩
  have hfuel : damaged.length - i - 1 + 1 + (rs.take i).length = damaged.length := by
    rw [List.length_take, Nat.min_eq_left hi.le]
    omega
  have hwhole := wholeFrames_frames hX hencodes
    (by rw [List.length_take, Nat.min_eq_left hi.le]; omega)
  have hscan := hwhole.scanLoop (damaged.length - i - 1 + 1) (damaged.drop (frameStart X rs i))
  rw [hfuel, ← hsplit] at hscan
  exact hscan

theorem frame_of_covered {seq : UInt64} {r : WalRecord} (hr : X.Encodes r)
    {buf rest : List UInt8} (hfit : frameOverhead + announced buf 0 ≤ buf.length)
    (hcov : coveredAt buf 0 = (frame X seq r ++ rest).take (14 + announced buf 0))
    (hcrc : X.crc32 (coveredAt buf 0) = storedAt buf 0) :
    buf.take (frame X seq r).length = frame X seq r := by
  obtain ⟨payload, hp, hlen⟩ := hr
  simp only [frame, hp] at hcov ⊢
  simp only [frameOverhead] at hfit
  have hann : announced buf 0 = payload.length := by
    have htake := congrArg (List.take 4) hcov
    rw [coveredAt, List.take_take, List.take_take, Nat.min_eq_left (by omega)] at htake
    rw [announced, htake]
    exact WalFrame.announced_bytes _ rest hlen
  rw [hann, WalFrame.take_covered] at hcov
  have hstored : (buf.drop (14 + payload.length)).take 4 =
      toLe 4 (X.crc32 (WalFrame.covered ⟨seq, r⟩ payload)).toNat := by
    have hlen4 : ((buf.drop (14 + payload.length)).take 4).length = 4 := by
      simp
      omega
    have hlt := fromLe_lt ((buf.drop (14 + payload.length)).take 4)
    rw [hlen4] at hlt
    have hnat := congrArg UInt32.toNat hcrc
    rw [hcov, storedAt, hann, Nat.zero_add, UInt32.toNat_ofNat',
      Nat.mod_eq_of_lt (by simpa using hlt)] at hnat
    have hback := toLe_fromLe ((buf.drop (14 + payload.length)).take 4)
    rw [hlen4] at hback
    rw [hnat, hback]
  rw [coveredAt, List.drop_zero, hann] at hcov
  rw [WalFrame.length_bytes, WalFrame.bytes, ← hstored, ← hcov, frameOverhead,
    show 18 + payload.length = 14 + payload.length + 4 by omega, List.take_add]

/-- Damage in place is reported exactly when the length field of the first damaged frame
does not announce an admissible frame running past the end of the log.  In that one case
the damaged frame and all frames behind it are dropped as if a crash had torn them. -/
theorem scanFrames_damaged_iff (hX : X.Lawful) {rs : List WalRecord}
    (hrs : ∀ r ∈ rs, X.Encodes r) {damaged : List UInt8}
    (hlen : damaged.length = (frames X 1 rs).length) (hsize : damaged.length ≤ isizeMax)
    (hne : damaged ≠ frames X 1 rs) (hcrc : CrcDetects X rs damaged) :
    ∃ i, FirstDamaged X rs damaged i ∧
      ((∀ res, scanFrames X damaged = .ok res → rs.length ≤ res.records.length) ↔
        ¬ RunsPastEnd damaged (frameStart X rs i)) := by
  obtain ⟨i, hfirst⟩ := exists_firstDamaged hlen hne
  refine ⟨i, hfirst, ?_⟩
  obtain ⟨hi, hpre, hdiff⟩ := hfirst
  obtain ⟨fuel, hscan⟩ := scanFrames_damaged hX hrs hlen hsize hi hpre
  obtain ⟨rest, hrest⟩ := frames_split (X := X) rs hi
  have hpos := length_frame_pos (UInt64.ofNat (i + 1)) (hrs rs[i] (List.getElem_mem hi))
  simp only [frameOverhead] at hpos
  have hstart : (frames X 1 (rs.take i)).length = frameStart X rs i := rfl
  have hroom : frameStart X rs i + 18 ≤ damaged.length := by
    rw [hlen, hrest, List.length_append, List.length_append, hstart]
    omega
  have hbuf : (damaged.drop (frameStart X rs i)).length =
      damaged.length - frameStart X rs i := List.length_drop
  have hcount : (scanned X (rs.take i)).records.length < rs.length := by
    simp [scanned, hi]
  rw [scanLoop_succ _ (List.ne_nil_of_length_pos (by omega)), if_neg (by omega)] at hscan
  have hann : fromLe ((damaged.drop (frameStart X rs i)).take 4) =
      announced damaged (frameStart X rs i) := rfl
  rw [hann, hbuf] at hscan
  unfold RunsPastEnd
  by_cases hmax : announced damaged (frameStart X rs i) > maxRecordSize
  · rw [if_pos hmax] at hscan
    simp only [hscan, reduceCtorEq, false_implies, implies_true, true_iff, not_and]
    omega
  rw [if_neg hmax] at hscan
  by_cases hpast : damaged.length <
      frameStart X rs i + (frameOverhead + announced damaged (frameStart X rs i))
  · -- the frame is taken for a torn tail, with fewer records than were written
    rw [if_pos (by omega)] at hscan
    refine iff_of_false ?_ (not_not.mpr ⟨by omega, hpast⟩)
    intro h
    exact absurd (h _ hscan) (by simpa [ScanState.finish] using hcount)
  · rw [if_neg (by omega)] at hscan
    refine iff_of_true ?_ (fun h => hpast h.2)
    have hfit : frameOverhead + announced (damaged.drop (frameStart X rs i)) 0 ≤
        (damaged.drop (frameStart X rs i)).length := by
      rw [announced_drop, hbuf]
      omega
    rcases decode_complete (X := X) (by rw [announced_drop]; omega) hfit with
      ⟨f, n, _, hsum⟩ | ⟨e, hdec, he⟩
    · -- a frame that still carries its checksum would be undamaged
      exfalso
      have hdrop : (frames X 1 rs).drop (frameStart X rs i) =
          frame X (UInt64.ofNat (i + 1)) rs[i] ++ rest := by
        rw [hrest]
        exact List.drop_left
      have hcov := not_imp_not.mp (hcrc i hi) (by rwa [coveredAt_drop, storedAt_drop] at hsum)
      rw [hdrop] at hcov
      have hframe := frame_of_covered (hrs rs[i] (List.getElem_mem hi)) hfit
        (by rwa [coveredAt_drop, announced_drop]) hsum
      apply hdiff
      have hnext : frameStart X rs (i + 1) =
          frameStart X rs i + (frame X (UInt64.ofNat (i + 1)) rs[i]).length := by
        rw [frameStart, frames_take_succ rs hi, List.length_append]
        rfl
      rw [hnext, List.take_add, List.take_add, hpre, hframe, hdrop, List.take_left]
    · intro res hres
      rw [hdec] at hscan
      cases e with
      | truncatedFrame => exact absurd rfl he
      | _ => rw [hscan] at hres; cases hres

def twoCancels : List WalRecord := [.jobCancelled ⟨1⟩ ⟨5⟩, .jobCancelled ⟨2⟩ ⟨7⟩]

/-- One byte of the second length field changed: 19 becomes 275. -/
def lengthDamage : List UInt8 := (frames Postcard.crates 1 twoCancels).set 38 1

def payloadDamage : List UInt8 := (frames Postcard.crates 1 twoCancels).set 20 9

theorem twoCancels_encode : ∀ r ∈ twoCancels, Postcard.crates.Encodes r := by
  intro r hr
  apply Postcard.crates_compact
  fin_cases hr <;> rfl

/-- The second frame is dropped without an error. -/
theorem lengthDamage_accepted :
    lengthDamage.length = (frames Postcard.crates 1 twoCancels).length ∧
      lengthDamage ≠ frames Postcard.crates 1 twoCancels ∧
      CrcDetects Postcard.crates twoCancels lengthDamage ∧
      scanFrames Postcard.crates lengthDamage =
        .ok ⟨[.jobCancelled ⟨1⟩ ⟨5⟩], 1, 0, 37, true⟩ := by
  refine ⟨by simp [lengthDamage], by decide +kernel, ?_, by decide +kernel⟩
  intro i hi
  have hi : i < 2 := hi
  interval_cases i <;> decide +kernel

theorem payloadDamage_reported :
    ∃ i, FirstDamaged Postcard.crates twoCancels payloadDamage i ∧
      ((∀ res, scanFrames Postcard.crates payloadDamage = .ok res →
          twoCancels.length ≤ res.records.length) ↔
        ¬ RunsPastEnd payloadDamage (frameStart Postcard.crates twoCancels i)) := by
  apply scanFrames_damaged_iff Postcard.crates_lawful twoCancels_encode
  · simp [payloadDamage]
  · decide +kernel
  · decide +kernel
  · intro i hi
    have hi : i < 2 := hi
    interval_cases i <;> decide +kernel

end DurableQueue
