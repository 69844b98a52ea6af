import Mathlib.Algebra.Group.Nat.Defs

/-! Fixed-width integers as the bytes a machine stores them in, least or most
significant byte first. Reading back what was stored is the identity in both
directions, so a field of known width identifies its value and nothing else. -/
namespace Libftpp.ByteCodec

/-- Which end of an integer is stored first. -/
inductive ByteOrder where
  | little
  | big
  deriving DecidableEq, Repr

/-- The lowest `width` base-256 digits, least significant first. -/
def digits : Nat → Nat → List UInt8
  | 0, _ => []
  | width + 1, value => UInt8.ofNat value :: digits width (value / 256)

/-- The number with these base-256 digits, least significant first. -/
def ofDigits : List UInt8 → Nat
  | [] => 0
  | byte :: rest => byte.toNat + 256 * ofDigits rest

/-- An integer of `width` bytes as it lies in memory. -/
def toBytes (order : ByteOrder) (width value : Nat) : List UInt8 :=
  match order with
  | .little => digits width value
  | .big => (digits width value).reverse

/-- The integer these bytes of memory hold. -/
def ofBytes (order : ByteOrder) (bytes : List UInt8) : Nat :=
  match order with
  | .little => ofDigits bytes
  | .big => ofDigits bytes.reverse

@[simp] theorem digits_length (width value : Nat) : (digits width value).length = width := by
  induction width generalizing value with
  | zero => rfl
  | succ width ih => simp [digits, ih]

@[simp] theorem toBytes_length (order : ByteOrder) (width value : Nat) :
    (toBytes order width value).length = width := by
  cases order <;> simp [toBytes]

private theorem ofDigits_digits (width value : Nat) :
    ofDigits (digits width value) = value % 256 ^ width := by
  induction width generalizing value with
  | zero => simp [digits, ofDigits, Nat.mod_one]
  | succ width ih =>
    have low : (UInt8.ofNat value).toNat = value % 256 := UInt8.toNat_ofNat'
    rw [digits, ofDigits, ih, low, Nat.pow_succ, Nat.mul_comm (256 ^ width), Nat.mod_mul]

private theorem digits_ofDigits (bytes : List UInt8) :
    digits bytes.length (ofDigits bytes) = bytes := by
  induction bytes with
  | nil => rfl
  | cons byte rest ih =>
    have bound : byte.toNat < 256 := byte.toNat_lt
    have high : (byte.toNat + 256 * ofDigits rest) / 256 = ofDigits rest := by omega
    have low : UInt8.ofNat (byte.toNat + 256 * ofDigits rest) = byte := by
      apply UInt8.toNat_inj.mp
      rw [UInt8.toNat_ofNat']
      omega
    rw [List.length_cons, ofDigits, digits, high, low, ih]

private theorem ofDigits_lt (bytes : List UInt8) : ofDigits bytes < 256 ^ bytes.length := by
  induction bytes with
  | nil => simp [ofDigits]
  | cons byte rest ih =>
    have bound : byte.toNat < 256 := byte.toNat_lt
    rw [ofDigits, List.length_cons, Nat.pow_succ]
    omega

/-- Storing and reading back gives the value, if it fits the width. -/
theorem ofBytes_toBytes (order : ByteOrder) (fits : value < 256 ^ width) :
    ofBytes order (toBytes order width value) = value := by
  cases order <;> simp [ofBytes, toBytes, ofDigits_digits, Nat.mod_eq_of_lt fits]

/-- Reading and storing back gives the bytes. -/
theorem toBytes_ofBytes (order : ByteOrder) (sized : bytes.length = width) :
    toBytes order width (ofBytes order bytes) = bytes := by
  subst sized
  cases order with
  | little => exact digits_ofDigits bytes
  | big =>
    have back := digits_ofDigits bytes.reverse
    rw [List.length_reverse] at back
    simp only [toBytes, ofBytes, back, List.reverse_reverse]

/-- Bytes of a given number hold an integer of that width. -/
theorem ofBytes_lt (order : ByteOrder) (bytes : List UInt8) :
    ofBytes order bytes < 256 ^ bytes.length := by
  cases order with
  | little => exact ofDigits_lt bytes
  | big => simpa [ofBytes] using ofDigits_lt bytes.reverse

end Libftpp.ByteCodec
