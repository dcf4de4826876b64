import Mathlib.Data.Int.ModEq
import TileScript.Colour
import TileScript.Proofs.Number.Written

/-!
# Colours and the low byte of a state

An integer has its bits in two's complement, and the low eight of them are a byte. The colour of an
integer state is read off that byte: from the top, three bits of red, three of green and two of
blue. Nothing of the byte is lost on the way and nothing beyond it is looked at, so two states have
the same colour exactly if they agree modulo 256, whatever their signs are.

## Main definitions

* `Colour.ofByte`: the colour of eight bits.

## Main statements

* `Colour.ofInt_eq_ofByte`: the colour of an integer is that of its low byte.
* `Colour.ofByte_injective`: a colour has one byte.
* `Colour.ofState_int_eq_iff`: which states have the same colour, and that every component is a
  byte.
-/

namespace TileScript.Colour

/-- The colour of a byte, field by field. A step of red or green is 36, so that all three bits give
252, and a step of blue is 85, so that both bits give 255. -/
def ofByte (byte : BitVec 8) : Colour where
  red := (byte.extractLsb' 5 3).toNat * 36
  green := (byte.extractLsb' 2 3).toNat * 36
  blue := (byte.extractLsb' 0 2).toNat * 85

/-- The fields of a byte in numbers. -/
theorem ofByte_eq (byte : BitVec 8) :
    ofByte byte =
      ⟨byte.toNat / 32 % 8 * 36, byte.toNat / 4 % 8 * 36, byte.toNat % 4 * 85⟩ := by
  simp [ofByte, Nat.shiftRight_eq_div_pow]

/-- A colour has one byte: the three fields do not overlap and leave no bit out. -/
theorem ofByte_injective : Function.Injective ofByte := by
  intro a b h
  rw [ofByte_eq, ofByte_eq, mk.injEq] at h
  have ha := a.isLt
  have hb := b.isLt
  apply BitVec.eq_of_toNat_eq
  omega

theorem ofByte_le (byte : BitVec 8) :
    (ofByte byte).red ≤ 255 ∧ (ofByte byte).green ≤ 255 ∧ (ofByte byte).blue ≤ 255 := by
  rw [ofByte_eq]
  dsimp only
  omega

/-! ## The low byte of an integer -/

theorem toNat_ofInt_byte (n : ℤ) : ((BitVec.ofInt 8 n).toNat : ℤ) = n % 256 := by
  rw [BitVec.toNat_ofInt]
  have hnonneg : 0 ≤ n % 256 := Int.emod_nonneg n (by decide)
  simpa using hnonneg

/-- Two integers have the same low byte exactly if they agree modulo 256. -/
theorem ofInt_byte_eq_iff {m n : ℤ} :
    BitVec.ofInt 8 m = BitVec.ofInt 8 n ↔ m ≡ n [ZMOD 256] := by
  rw [← BitVec.toNat_inj, ← Int.natCast_inj, toNat_ofInt_byte, toNat_ofInt_byte]
  rfl

/-- **The colour of an integer is that of its low byte.** A quotient by a power of two is rounded
down, as a shift of two's complement is, so that this holds below zero too. -/
theorem ofInt_eq_ofByte (n : ℤ) : ofInt n = ofByte (BitVec.ofInt 8 n) := by
  have hbyte := toNat_ofInt_byte n
  rw [ofByte_eq, ofInt, mk.injEq]
  refine ⟨?_, ?_, ?_⟩ <;> omega

/-! ## States -/

theorem ofState_int {n : ℤ} (h : (Binary64.ofInt? n).isSome = true) :
    ofState (.int n) = .ok (ofByte (BitVec.ofInt 8 n)) := by
  have hnumber : (Scalar.int n).isNumber = .ok true :=
    Scalar.isNumber_int_iff.mpr (Option.isSome_iff_exists.mp h)
  rw [← ofInt_eq_ofByte, ofState, hnumber]
  rfl

/-- **A colour shows the low eight bits of a state and no others.** For integers that have a
nearest finite floating point value, which is what the test for numbers asks of them, the state has
a colour, it is that of the low byte, its components lie between 0 and 255, and it is the colour of
another such state exactly if the two agree modulo 256. -/
theorem ofState_int_eq_iff {m n : ℤ} (hm : (Binary64.ofInt? m).isSome = true)
    (hn : (Binary64.ofInt? n).isSome = true) :
    (ofState (.int m) = ofState (.int n) ↔ m ≡ n [ZMOD 256]) ∧
      ∃ colour, ofState (.int m) = .ok colour ∧ colour = ofByte (BitVec.ofInt 8 m) ∧
        colour.red ≤ 255 ∧ colour.green ≤ 255 ∧ colour.blue ≤ 255 := by
  refine ⟨?_, _, ofState_int hm, rfl, ofByte_le _⟩
  rw [ofState_int hm, ofState_int hn, Except.ok.injEq, ofByte_injective.eq_iff, ofInt_byte_eq_iff]

/-- The state -3 and the state 253 have the bits `11111101` and so one colour. -/
theorem ofState_int_eq_iff_negative :
    (Binary64.ofInt? (-3)).isSome = true ∧ (Binary64.ofInt? 253).isSome = true ∧
      ofState (.int (-3)) = ofState (.int 253) ∧ ofState (.int (-3)) = .ok ⟨252, 252, 85⟩ := by
  have hm : (Binary64.ofInt? (-3)).isSome = true := by decide +kernel
  have hn : (Binary64.ofInt? 253).isSome = true := by decide +kernel
  obtain ⟨hiff, colour, hcolour, rfl, -⟩ := ofState_int_eq_iff hm hn
  refine ⟨hm, hn, hiff.mpr (by decide), hcolour.trans ?_⟩
  exact congrArg Except.ok (by decide)

end TileScript.Colour
