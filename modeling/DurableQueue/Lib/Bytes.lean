import Mathlib.Tactic

/-! Little-endian integers and prefixes of concatenated byte blocks. -/

namespace DurableQueue.Bytes

def toLe : Nat → Nat → List UInt8
  | 0, _ => []
  | w + 1, n => UInt8.ofNat n :: toLe w (n / 256)

def fromLe : List UInt8 → Nat
  | [] => 0
  | b :: bs => b.toNat + 256 * fromLe bs

@[simp] theorem length_toLe (w n : Nat) : (toLe w n).length = w := by
  induction w generalizing n with
  | zero => rfl
  | succ w ih => simp [toLe, ih]

theorem fromLe_toLe (w n : Nat) (h : n < 256 ^ w) : fromLe (toLe w n) = n := by
  induction w generalizing n with
  | zero => simp [toLe, fromLe] at *; omega
  | succ w ih =>
    have hdiv : n / 256 < 256 ^ w := by
      rw [Nat.div_lt_iff_lt_mul (by decide)]
      simpa [Nat.pow_succ] using h
    simp only [toLe, fromLe, ih _ hdiv, UInt8.toNat_ofNat']
    omega

theorem fromLe_lt (bs : List UInt8) : fromLe bs < 256 ^ bs.length := by
  induction bs with
  | nil => simp [fromLe]
  | cons b bs ih =>
    have hb := b.toNat_lt
    simp only [fromLe, List.length_cons, Nat.pow_succ]
    omega

theorem fromLe_append (as bs : List UInt8) :
    fromLe (as ++ bs) = fromLe as + 256 ^ as.length * fromLe bs := by
  induction as with
  | nil => simp [fromLe]
  | cons a as ih =>
    simp only [List.cons_append, fromLe, ih, List.length_cons, Nat.pow_succ]
    ring

theorem toLe_fromLe (bs : List UInt8) : toLe bs.length (fromLe bs) = bs := by
  induction bs with
  | nil => rfl
  | cons b bs ih =>
    have hb := b.toNat_lt
    have hdiv : (b.toNat + 256 * fromLe bs) / 256 = fromLe bs := by omega
    have hlow : UInt8.ofNat (b.toNat + 256 * fromLe bs) = b := by
      apply UInt8.toNat.inj
      rw [UInt8.toNat_ofNat']
      omega
    simp only [List.length_cons, fromLe, toLe, hdiv, hlow, ih]

/-! ## Reads that can leave the buffer -/

def slice? (buf : List UInt8) (i j : Nat) : Option (List UInt8) :=
  if i ≤ j ∧ j ≤ buf.length then some ((buf.drop i).take (j - i)) else none

/-- The little-endian number in the `w` bytes from `i` on, each of them indexed. -/
def word? (buf : List UInt8) : Nat → Nat → Option Nat
  | 0, _ => some 0
  | w + 1, i => do
    let b ← buf[i]?
    let n ← word? buf w (i + 1)
    return b.toNat + 256 * n

theorem slice?_eq {buf : List UInt8} {i n : Nat} (h : i + n ≤ buf.length) :
    slice? buf i (i + n) = some ((buf.drop i).take n) := by
  rw [slice?, if_pos ⟨Nat.le_add_right i n, h⟩, Nat.add_sub_cancel_left]

theorem word?_eq {buf : List UInt8} {w i : Nat} (h : i + w ≤ buf.length) :
    word? buf w i = some (fromLe ((buf.drop i).take w)) := by
  induction w generalizing i with
  | zero => simp [word?, fromLe]
  | succ w ih =>
    have hi : i < buf.length := by omega
    rw [List.drop_eq_getElem_cons hi, List.take_succ_cons, fromLe]
    simp [word?, List.getElem?_eq_getElem hi, ih (i := i + 1) (by omega)]

variable {α : Type*}

theorem prefix_append_cases {p a b : List α} (h : p <+: a ++ b) :
    (p <+: a ∧ p.length < a.length) ∨ ∃ q, p = a ++ q ∧ q <+: b := by
  by_cases hlen : p.length < a.length
  · exact Or.inl ⟨List.prefix_of_prefix_length_le h (List.prefix_append a b) hlen.le, hlen⟩
  · have ha : a <+: p :=
      List.prefix_of_prefix_length_le (List.prefix_append a b) h (by omega)
    obtain ⟨q, rfl⟩ := ha
    exact Or.inr ⟨q, rfl, (List.prefix_append_right_inj a).mp h⟩

end DurableQueue.Bytes
