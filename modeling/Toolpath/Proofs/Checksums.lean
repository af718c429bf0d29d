import Toolpath.Checksum
import Mathlib.RingTheory.AdjoinRoot
import Mathlib.Algebra.Field.ZMod

/-! # Checksums

Bits are the coefficients of a polynomial over two elements, the first bit that of the highest
power (`bitPolynomial`).  The checksum of a message is the remainder of the message's polynomial by
a fixed one of degree 32 (`crcGenerator`), with two complements: the first 32 coefficients of what
is divided are complemented, and so is the remainder (`IsCrc32`).  Bits are taken from bytes and
from the checksum with the lowest first.

`crc32` does the division bit by bit in a register.  A step of the register multiplies by `X`
(`X_mul_registerPolynomial`), so after any number of bytes the register holds what is left of all of
them (`mk_registerPolynomial_foldl`).  That is the checksum, and there is no other (`isCrc32_iff`).
-/
namespace Toolpath

open Polynomial

/-! ## Bits as coefficients -/

/-- The polynomial whose coefficients are some bits, the first of them the highest. -/
noncomputable def bitPolynomial : List Bool → (ZMod 2)[X]
  | [] => 0
  | bit :: rest => C (bit.toNat : ZMod 2) * X ^ rest.length + bitPolynomial rest

theorem bitPolynomial_append (front behind : List Bool) :
    bitPolynomial (front ++ behind) =
      bitPolynomial front * X ^ behind.length + bitPolynomial behind := by
  induction front with
  | nil => rw [List.nil_append, bitPolynomial, zero_mul, zero_add]
  | cons bit front ih =>
    rw [List.cons_append, bitPolynomial, bitPolynomial, ih, List.length_append, pow_add]
    ring

theorem bitPolynomial_replicate_false (count : ℕ) :
    bitPolynomial (List.replicate count false) = 0 := by
  induction count with
  | zero => rfl
  | succ count ih =>
    rw [List.replicate_succ, bitPolynomial, ih, Bool.toNat_false, Nat.cast_zero, C_0, zero_mul,
      add_zero]

/-- **Exclusive or is the sum** of polynomials. -/
theorem bitPolynomial_zipWith_xor {bits others : List Bool} (h : bits.length = others.length) :
    bitPolynomial (List.zipWith xor bits others) = bitPolynomial bits + bitPolynomial others := by
  induction bits generalizing others with
  | nil =>
    rw [List.length_eq_zero_iff.mp h.symm]
    exact (add_zero 0).symm
  | cons bit bits ih =>
    cases others with
    | nil => cases h
    | cons other others =>
      have hlength : bits.length = others.length := Nat.succ.inj h
      have hbit : ((xor bit other).toNat : ZMod 2) = bit.toNat + other.toNat := by
        cases bit <;> cases other <;> decide
      rw [List.zipWith_cons_cons, bitPolynomial, bitPolynomial, bitPolynomial, hbit, C_add,
        ih hlength, List.length_zipWith, hlength, Nat.min_self]
      ring

theorem degree_bitPolynomial_lt (bits : List Bool) : (bitPolynomial bits).degree < bits.length := by
  induction bits with
  | nil =>
    rw [bitPolynomial, degree_zero]
    exact WithBot.bot_lt_coe 0
  | cons bit rest ih =>
    have hfirst : (C (bit.toNat : ZMod 2) * X ^ rest.length).degree ≤ (rest.length : WithBot ℕ) :=
      degree_C_mul_X_pow_le _ _
    have hnext : (rest.length : WithBot ℕ) < (bit :: rest).length :=
      WithBot.coe_lt_coe.mpr (Nat.lt_succ_self _)
    rw [bitPolynomial]
    exact (degree_add_le _ _).trans_lt (max_lt (hfirst.trans_lt hnext) (ih.trans hnext))

/-- Bits are read off their polynomial. -/
theorem bitPolynomial_inj {bits others : List Bool} (hlength : bits.length = others.length)
    (h : bitPolynomial bits = bitPolynomial others) : bits = others := by
  induction bits generalizing others with
  | nil => exact (List.length_eq_zero_iff.mp hlength.symm).symm
  | cons bit bits ih =>
    cases others with
    | nil => cases hlength
    | cons other others =>
      have hlength := Nat.succ.inj hlength
      have hcoeff (bit : Bool) (rest : List Bool) :
          (bitPolynomial (bit :: rest)).coeff rest.length = bit.toNat := by
        rw [bitPolynomial, coeff_add, coeff_eq_zero_of_degree_lt (degree_bitPolynomial_lt rest),
          add_zero, coeff_C_mul, coeff_X_pow_self, mul_one]
      have hbit : bit = other := by
        have hfirst := hcoeff bit bits
        rw [h, hlength, hcoeff other others] at hfirst
        revert hfirst
        cases bit <;> cases other <;> decide
      rw [bitPolynomial, bitPolynomial, hbit, hlength] at h
      rw [hbit, ih hlength (add_left_cancel h)]

/-! ## Bits of numbers -/

/-- The lowest bits of a number, the lowest of them first. -/
def lowBits (count n : ℕ) : List Bool := (List.range count).map n.testBit

@[simp] theorem length_lowBits (count n : ℕ) : (lowBits count n).length = count := by
  rw [lowBits, List.length_map, List.length_range]

theorem lowBits_xor (count m n : ℕ) :
    lowBits count (m ^^^ n) = List.zipWith xor (lowBits count m) (lowBits count n) := by
  rw [lowBits, lowBits, lowBits, List.zipWith_map, List.zipWith_self]
  exact List.map_congr_left fun i _ => Nat.testBit_xor m n i

theorem lowBits_succ (count n : ℕ) :
    lowBits (count + 1) n = n.testBit 0 :: lowBits count (n >>> 1) := by
  rw [lowBits, List.range_succ_eq_map, List.map_cons, List.map_map, lowBits]
  refine congrArg (n.testBit 0 :: ·) (List.map_congr_left fun i _ => ?_)
  rw [Nat.testBit_shiftRight, Nat.add_comm]
  rfl

/-- A number that is shorter is filled up with zeros. -/
theorem lowBits_add {count n : ℕ} (more : ℕ) (h : n < 2 ^ count) :
    lowBits (count + more) n = lowBits count n ++ List.replicate more false := by
  rw [lowBits, List.range_add, List.map_append, List.map_map, ← lowBits]
  refine congrArg (lowBits count n ++ ·) (List.eq_replicate_iff.mpr ⟨?_, ?_⟩)
  · rw [List.length_map, List.length_range]
  · refine List.forall_mem_map.mpr fun i _ => Nat.testBit_lt_two_pow (h.trans_le ?_)
    exact Nat.pow_le_pow_right two_pos (Nat.le_add_right count i)

theorem lowBits_inj {count m n : ℕ} (hm : m < 2 ^ count) (hn : n < 2 ^ count)
    (h : lowBits count m = lowBits count n) : m = n := by
  refine Nat.eq_of_testBit_eq fun i => ?_
  rcases Nat.lt_or_ge i count with hi | hi
  · exact List.map_inj_left.mp h i (List.mem_range.mpr hi)
  · have hpow : 2 ^ count ≤ 2 ^ i := Nat.pow_le_pow_right two_pos hi
    rw [Nat.testBit_lt_two_pow (hm.trans_le hpow), Nat.testBit_lt_two_pow (hn.trans_le hpow)]

/-- **Shifting a number down multiplies by `X`**, and the bit that is shifted out is carried. -/
theorem X_mul_lowBits {count n : ℕ} (h : n < 2 ^ (count + 1)) :
    X * bitPolynomial (lowBits (count + 1) n) =
      C ((n.testBit 0).toNat : ZMod 2) * X ^ (count + 1) +
        bitPolynomial (lowBits (count + 1) (n >>> 1)) := by
  have hhalf : n >>> 1 < 2 ^ count := by
    rw [Nat.shiftRight_eq_div_pow, Nat.div_lt_iff_lt_mul (by decide)]
    exact h
  have hshifted : bitPolynomial (lowBits (count + 1) (n >>> 1)) =
      bitPolynomial (lowBits count (n >>> 1)) * X := by
    rw [lowBits_add 1 hhalf, bitPolynomial_append, bitPolynomial_replicate_false, add_zero,
      List.length_replicate, pow_one]
  rw [hshifted, lowBits_succ, bitPolynomial, length_lowBits, pow_succ]
  ring

/-! ## The division -/

/-- The generator, whose lower coefficients are the divisor that `crcBit` takes off. -/
noncomputable def crcGenerator : (ZMod 2)[X] :=
  X ^ 32 + X ^ 26 + X ^ 23 + X ^ 22 + X ^ 16 + X ^ 12 + X ^ 11 + X ^ 10 + X ^ 8 + X ^ 7 + X ^ 5 +
    X ^ 4 + X ^ 2 + X + 1

/-- The bits of a message, those of a byte with the lowest first. -/
def messageBits (message : List UInt8) : List Bool :=
  message.flatMap fun byte => lowBits 8 byte.toNat

/-- What is divided: the polynomial of the message with 32 more places behind it, and with its first
32 coefficients complemented. -/
noncomputable def crcDividend (message : List UInt8) : (ZMod 2)[X] :=
  bitPolynomial (List.replicate 32 true) * X ^ (messageBits message).length +
    bitPolynomial (messageBits message) * X ^ 32

/-- A number is the cyclic redundancy check of a message: its bits are the complement of what the
division leaves. -/
structure IsCrc32 (message : List UInt8) (checksum : ℕ) : Prop where
  lt : checksum < 2 ^ 32
  remainder : bitPolynomial ((lowBits 32 checksum).map not) = crcDividend message %ₘ crcGenerator

/-- What a register holds. -/
noncomputable def registerPolynomial (register : UInt32) : (ZMod 2)[X] :=
  bitPolynomial (lowBits 32 register.toNat)

theorem registerPolynomial_xor (register other : UInt32) :
    registerPolynomial (register ^^^ other) =
      registerPolynomial register + registerPolynomial other := by
  rw [registerPolynomial, UInt32.toNat_xor, lowBits_xor, bitPolynomial_zipWith_xor]
  · rfl
  · rw [length_lowBits, length_lowBits]

theorem degree_registerPolynomial_lt (register : UInt32) :
    (registerPolynomial register).degree < (32 : ℕ) := by
  have hdegree := degree_bitPolynomial_lt (lowBits 32 register.toNat)
  rwa [length_lowBits] at hdegree

/-- The divisor of `crcBit` holds the lower coefficients of the generator. -/
theorem crcGenerator_eq : crcGenerator = X ^ 32 + registerPolynomial 0xEDB88320 := by
  have hbits : lowBits 32 (0xEDB88320 : UInt32).toNat =
      [false, false, false, false, false, true, false, false, true, true, false, false, false,
        false, false, true, false, false, false, true, true, true, false, true, true, false, true,
        true, false, true, true, true] := by
    decide +kernel
  rw [crcGenerator, registerPolynomial, hbits]
  simp [bitPolynomial, add_assoc]

theorem monic_crcGenerator : crcGenerator.Monic := by
  rw [crcGenerator_eq]
  exact monic_X_pow_add (degree_registerPolynomial_lt _)

theorem degree_crcGenerator : crcGenerator.degree = (32 : ℕ) := by
  have hlower := degree_registerPolynomial_lt 0xEDB88320
  rw [← degree_X_pow (R := ZMod 2)] at hlower
  rw [crcGenerator_eq, degree_add_eq_left_of_degree_lt hlower, degree_X_pow]

/-- **A step of the register** multiplies by `X` and takes off the generator where the degree has
become 32. -/
theorem X_mul_registerPolynomial (register : UInt32) :
    X * registerPolynomial register = registerPolynomial (crcBit register) +
      C ((register.toNat.testBit 0).toNat : ZMod 2) * crcGenerator := by
  have hlow : register &&& 1 = 1 ↔ register.toNat.testBit 0 = true := by
    rw [← UInt32.toNat_inj, UInt32.toNat_and, Nat.testBit_zero, decide_eq_true_iff]
    exact iff_of_eq (congrArg (· = 1) (Nat.and_one_is_mod _))
  have hshift : registerPolynomial (register >>> 1) =
      bitPolynomial (lowBits 32 (register.toNat >>> 1)) := by
    rw [registerPolynomial, UInt32.toNat_shiftRight]
    rfl
  rw [registerPolynomial, X_mul_lowBits (UInt32.toNat_lt register), ← hshift, crcBit]
  cases hbit : register.toNat.testBit 0 with
  | true =>
    have hcancel := CharTwo.add_self_eq_zero (registerPolynomial 0xEDB88320)
    rw [if_pos (hlow.mpr hbit), registerPolynomial_xor, crcGenerator_eq]
    rw [Bool.toNat_true, Nat.cast_one, C_1, one_mul, one_mul]
    linear_combination (-1 : (ZMod 2)[X]) * hcancel
  | false =>
    rw [if_neg (by rw [hlow, hbit]; exact Bool.false_ne_true), Bool.toNat_false, Nat.cast_zero, C_0,
      zero_mul, zero_mul, zero_add, add_zero]

/-! ## Whole messages

Polynomials are compared where the generator is zero. -/

theorem mk_registerPolynomial_crcBit (register : UInt32) :
    AdjoinRoot.mk crcGenerator (registerPolynomial (crcBit register)) =
      AdjoinRoot.mk crcGenerator (X * registerPolynomial register) := by
  rw [X_mul_registerPolynomial, map_add, map_mul, AdjoinRoot.mk_self, mul_zero, add_zero]

theorem mk_registerPolynomial_repeat (count : ℕ) (register : UInt32) :
    AdjoinRoot.mk crcGenerator (registerPolynomial (Nat.repeat crcBit count register)) =
      AdjoinRoot.mk crcGenerator (X ^ count * registerPolynomial register) := by
  induction count with
  | zero => rw [Nat.repeat, pow_zero, one_mul]
  | succ count ih =>
    rw [Nat.repeat, mk_registerPolynomial_crcBit, map_mul, ih, ← map_mul, pow_succ', mul_assoc]

/-- A byte stands in front of 24 zeros of the register. -/
theorem registerPolynomial_toUInt32 (byte : UInt8) :
    registerPolynomial byte.toUInt32 = bitPolynomial (lowBits 8 byte.toNat) * X ^ 24 := by
  have hbyte : byte.toNat < 2 ^ 8 := UInt8.toNat_lt byte
  rw [registerPolynomial, UInt8.toNat_toUInt32, lowBits_add 24 hbyte, bitPolynomial_append,
    bitPolynomial_replicate_false, add_zero, List.length_replicate]

theorem mk_registerPolynomial_crcByte (register : UInt32) (byte : UInt8) :
    AdjoinRoot.mk crcGenerator (registerPolynomial (crcByte register byte)) =
      AdjoinRoot.mk crcGenerator (registerPolynomial register * X ^ 8 +
        bitPolynomial (lowBits 8 byte.toNat) * X ^ 32) := by
  rw [crcByte, mk_registerPolynomial_repeat, registerPolynomial_xor, registerPolynomial_toUInt32]
  refine congrArg (AdjoinRoot.mk crcGenerator) ?_
  ring

/-- **The register holds what is left** of what it held first and all that it has taken in. -/
theorem mk_registerPolynomial_foldl (message : List UInt8) (register : UInt32) :
    AdjoinRoot.mk crcGenerator (registerPolynomial (message.foldl crcByte register)) =
      AdjoinRoot.mk crcGenerator (registerPolynomial register * X ^ (messageBits message).length +
        bitPolynomial (messageBits message) * X ^ 32) := by
  induction message generalizing register with
  | nil => simp [messageBits, bitPolynomial]
  | cons byte rest ih =>
    have hbits : messageBits (byte :: rest) = lowBits 8 byte.toNat ++ messageBits rest := rfl
    rw [List.foldl_cons, ih, map_add, map_mul, mk_registerPolynomial_crcByte, ← map_mul, ← map_add,
      hbits, bitPolynomial_append, List.length_append, length_lowBits]
    refine congrArg (AdjoinRoot.mk crcGenerator) ?_
    rw [pow_add]
    ring

/-- The checksum is the complement of the register. -/
theorem map_not_lowBits_crc32 (message : List UInt8) :
    (lowBits 32 (crc32 message).toNat).map not =
      lowBits 32 (message.foldl crcByte 0xFFFFFFFF).toNat := by
  rw [lowBits, List.map_map, lowBits]
  refine List.map_congr_left fun i hi => ?_
  have hone : (0xFFFFFFFF : UInt32).toNat.testBit i = true := by
    have hones : (0xFFFFFFFF : UInt32).toNat = 2 ^ 32 - 1 := rfl
    rw [hones, Nat.testBit_two_pow_sub_one, decide_eq_true (List.mem_range.mp hi)]
  rw [Function.comp_apply, crc32, UInt32.toNat_xor, Nat.testBit_xor, hone, Bool.xor_true,
    Bool.not_not]

/-- **`crc32` computes the checksum.** -/
theorem isCrc32_crc32 (message : List UInt8) : IsCrc32 message (crc32 message).toNat where
  lt := UInt32.toNat_lt _
  remainder := by
    have hones : registerPolynomial 0xFFFFFFFF = bitPolynomial (List.replicate 32 true) := by
      have hbits : lowBits 32 (0xFFFFFFFF : UInt32).toNat = List.replicate 32 true := by
        decide +kernel
      rw [registerPolynomial, hbits]
    have hdegree : (registerPolynomial (message.foldl crcByte 0xFFFFFFFF)).degree <
        crcGenerator.degree := by
      rw [degree_crcGenerator]
      exact degree_registerPolynomial_lt _
    have hdvd := AdjoinRoot.mk_eq_mk.mp (mk_registerPolynomial_foldl message 0xFFFFFFFF)
    -- the register is its own remainder, as its degree is too small to divide
    rw [map_not_lowBits_crc32, crcDividend, ← hones,
      ← modByMonic_eq_of_dvd_sub monic_crcGenerator hdvd]
    exact ((modByMonic_eq_self_iff monic_crcGenerator).mpr hdegree).symm

/-- **The checksum of a message** is what `crc32` computes and nothing else. -/
theorem isCrc32_iff {message : List UInt8} {checksum : ℕ} :
    IsCrc32 message checksum ↔ checksum = (crc32 message).toNat := by
  constructor
  · intro h
    have hcrc := isCrc32_crc32 message
    have hbits := bitPolynomial_inj (by simp) (h.remainder.trans hcrc.remainder.symm)
    exact lowBits_inj h.lt hcrc.lt (List.map_injective_iff.mpr (fun _ _ => Bool.not_inj) hbits)
  · rintro rfl
    exact isCrc32_crc32 message

/-- The check value that the generator and its conventions are told by. -/
example : IsCrc32 "123456789".toUTF8.data.toList 0xCBF43926 :=
  isCrc32_iff.mpr (by decide +kernel)

end Toolpath
