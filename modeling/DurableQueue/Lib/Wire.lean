import DurableQueue.Lib.Bytes
import Mathlib.Tactic

/-! Variable-length integers, length-prefixed blocks and a bitwise CRC-32: the pieces of
the wire formats behind the serializer and the checksum. -/

namespace DurableQueue.Wire

open Bytes

abbrev Reader (α : Type) := List UInt8 → Option (α × List UInt8)

def varint : Nat → Nat → List UInt8
  | 0, _ => []
  | fuel + 1, n =>
    if n < 128 then [UInt8.ofNat n]
    else UInt8.ofNat (n % 128 + 128) :: varint fuel (n / 128)

def readVarint : Nat → Reader Nat
  | 0, _ => none
  | _ + 1, [] => none
  | fuel + 1, b :: bs =>
    if b.toNat < 128 then some (b.toNat, bs)
    else (readVarint fuel bs).map (fun p => (b.toNat - 128 + 128 * p.1, p.2))

theorem readVarint_varint (fuel n : Nat) (h : n < 128 ^ (fuel + 1)) (rest : List UInt8) :
    readVarint (fuel + 1) (varint (fuel + 1) n ++ rest) = some (n, rest) := by
  induction fuel generalizing n with
  | zero =>
    have hn : n < 128 := by simpa using h
    have hb : n % 256 = n := Nat.mod_eq_of_lt (by omega)
    simp [varint, readVarint, hn, hb]
  | succ fuel ih =>
    by_cases hn : n < 128
    · have hb : n % 256 = n := Nat.mod_eq_of_lt (by omega)
      simp [varint, readVarint, hn, hb]
    · have hb : (n % 128 + 128) % 256 = n % 128 + 128 := Nat.mod_eq_of_lt (by omega)
      have hdiv : n / 128 < 128 ^ (fuel + 1) := by
        rw [Nat.div_lt_iff_lt_mul (by decide)]
        simpa [Nat.pow_succ] using h
      have hmod : n % 128 + 128 * (n / 128) = n := Nat.mod_add_div n 128
      rw [varint, if_neg hn, List.cons_append, readVarint]
      simp [hb, ih _ hdiv, hmod]

theorem length_varint_le (fuel n : Nat) : (varint fuel n).length ≤ fuel := by
  induction fuel generalizing n with
  | zero => simp [varint]
  | succ fuel ih =>
    simp only [varint]
    split
    · simp
    · simpa using ih (n / 128)

def zigzag (i : Int) : Nat := if 0 ≤ i then 2 * i.toNat else 2 * (-i).toNat - 1

def unzigzag (n : Nat) : Int := if n % 2 = 0 then n / 2 else -((n + 1) / 2)

theorem unzigzag_zigzag (i : Int) : unzigzag (zigzag i) = i := by
  unfold unzigzag zigzag
  split <;> split <;> omega

def block (bytes : List UInt8) : List UInt8 := varint 10 bytes.length ++ bytes

def readBlock : Reader (List UInt8) := fun bs =>
  match readVarint 10 bs with
  | none => none
  | some (n, rest) => if rest.length < n then none else some (rest.take n, rest.drop n)

theorem readBlock_block (bytes rest : List UInt8) (h : bytes.length < 128 ^ 10) :
    readBlock (block bytes ++ rest) = some (bytes, rest) := by
  simp [readBlock, block, readVarint_varint 9 _ h]

theorem length_block_le (bytes : List UInt8) : (block bytes).length ≤ 10 + bytes.length := by
  have := length_varint_le 10 bytes.length
  simp only [block, List.length_append]
  omega

def crcBit (c : UInt32) : UInt32 := if c &&& 1 = 1 then (c >>> 1) ^^^ 0xEDB88320 else c >>> 1

def crcByte (c : UInt32) (b : UInt8) : UInt32 := crcBit^[8] (c ^^^ b.toUInt32)

def crc32 (bytes : List UInt8) : UInt32 := bytes.foldl crcByte 0xFFFFFFFF ^^^ 0xFFFFFFFF

-- the check value of the algorithm, over the ASCII digits 1 to 9
example : crc32 [49, 50, 51, 52, 53, 54, 55, 56, 57] = 0xCBF43926 := by decide +kernel

end DurableQueue.Wire
