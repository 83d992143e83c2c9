import Mathlib

/-!
# Go byte strings and big-endian fields

A Go `string` and a `[]byte` are both sequences of bytes, so both are kept as
`List UInt8`: `len(s)` is `List.length`, `[]byte(s)` is the identity and Go's
`<` on strings is the bytewise lexicographic order on unsigned bytes. The
`binary.BigEndian.PutUintN` writers are given as Go's standard library writes
them, byte by byte from shifted words, and `beNat` is the independent reading
of a big-endian field that the index layout of the spec describes.
-/

namespace KopiaBlock.Go

instance uint8_isStrictTotalOrder : IsStrictTotalOrder UInt8 (· < ·) where
  trichotomous a b := by
    rcases Nat.lt_trichotomy a.toNat b.toNat with h | h | h
    · exact .inl h
    · exact .inr (.inl (UInt8.toNat.inj h))
    · exact .inr (.inr h)
  irrefl a := UInt8.lt_irrefl a
  trans _ _ _ := UInt8.lt_trans

/-- Go's `<` on strings: lexicographic on unsigned bytes (runtime `cmpstring`). -/
def stringLess (a b : List UInt8) : Prop := List.Lex (· < ·) a b

instance stringLess_decidable : DecidableRel stringLess := fun a b => List.Lex.decidableRel (· < ·) a b

instance stringLess_isStrictTotalOrder : IsStrictTotalOrder (List UInt8) stringLess :=
  inferInstanceAs (IsStrictTotalOrder (List UInt8) (List.Lex (· < ·)))

theorem stringLess_irrefl (a : List UInt8) : ¬ stringLess a a := irrefl a

theorem stringLess_trans {a b c : List UInt8} : stringLess a b → stringLess b c → stringLess a c :=
  IsTrans.trans a b c

theorem stringLess_trichotomous (a b : List UInt8) :
    stringLess a b ∨ a = b ∨ stringLess b a := trichotomous a b

/-- A proper extension sorts after the string it extends. -/
theorem stringLess_append_right (a : List UInt8) {b : List UInt8} (hb : b ≠ []) :
    stringLess a (a ++ b) := by
  induction a with
  | nil => obtain ⟨x, b, rfl⟩ := List.exists_cons_of_ne_nil hb; exact List.Lex.nil
  | cons x a ih => exact List.Lex.cons ih

/-- `binary.BigEndian.PutUint16`. -/
def putUint16 (v : UInt16) : List UInt8 := [(v >>> 8).toUInt8, v.toUInt8]

/-- `binary.BigEndian.PutUint32`. -/
def putUint32 (v : UInt32) : List UInt8 :=
  [(v >>> 24).toUInt8, (v >>> 16).toUInt8, (v >>> 8).toUInt8, v.toUInt8]

/-- `binary.BigEndian.PutUint64`. -/
def putUint64 (v : UInt64) : List UInt8 :=
  [(v >>> 56).toUInt8, (v >>> 48).toUInt8, (v >>> 40).toUInt8, (v >>> 32).toUInt8,
    (v >>> 24).toUInt8, (v >>> 16).toUInt8, (v >>> 8).toUInt8, v.toUInt8]

/-- Go's `byte(x)` for an `int` `x`: two's complement truncation to 8 bits. -/
def byteOfInt (x : Int) : UInt8 := ⟨BitVec.ofInt 8 x⟩

/-- Go's `uint16(x)` for an `int` `x`. -/
def uint16OfInt (x : Int) : UInt16 := ⟨BitVec.ofInt 16 x⟩

/-- Go's `uint32(x)` for an `int` `x`. -/
def uint32OfInt (x : Int) : UInt32 := ⟨BitVec.ofInt 32 x⟩

/-- The unsigned number a big-endian field spells. -/
def beNat (bs : List UInt8) : Nat := bs.foldl (fun acc b => acc * 256 + b.toNat) 0

@[simp] theorem length_putUint16 (v : UInt16) : (putUint16 v).length = 2 := rfl
@[simp] theorem length_putUint32 (v : UInt32) : (putUint32 v).length = 4 := rfl
@[simp] theorem length_putUint64 (v : UInt64) : (putUint64 v).length = 8 := rfl

theorem toNat_byteOfInt (x : Int) : (byteOfInt x).toNat = (x % 256).toNat := by
  simp [byteOfInt, UInt8.toNat]

theorem toNat_uint16OfInt (x : Int) : (uint16OfInt x).toNat = (x % 65536).toNat := by
  simp [uint16OfInt, UInt16.toNat]

theorem toNat_uint32OfInt (x : Int) : (uint32OfInt x).toNat = (x % 2 ^ 32).toNat := by
  simp [uint32OfInt, UInt32.toNat]

private theorem toNat_byte_shiftRight16 (v : UInt16) (k : Nat) (hk : k < 16) :
    (v >>> UInt16.ofNat k).toUInt8.toNat = v.toNat / 2 ^ k % 256 := by
  show (v.toNat >>> ((UInt16.ofNat k).toNat % 16)) % 256 = _
  rw [UInt16.toNat_ofNat_of_lt (by simp [UInt16.size]; omega), Nat.mod_eq_of_lt hk,
    Nat.shiftRight_eq_div_pow]

private theorem toNat_byte_shiftRight32 (v : UInt32) (k : Nat) (hk : k < 32) :
    (v >>> UInt32.ofNat k).toUInt8.toNat = v.toNat / 2 ^ k % 256 := by
  show (v.toNat >>> ((UInt32.ofNat k).toNat % 32)) % 256 = _
  rw [UInt32.toNat_ofNat_of_lt (by simp [UInt32.size]; omega), Nat.mod_eq_of_lt hk,
    Nat.shiftRight_eq_div_pow]

private theorem toNat_byte_shiftRight64 (v : UInt64) (k : Nat) (hk : k < 64) :
    (v >>> UInt64.ofNat k).toUInt8.toNat = v.toNat / 2 ^ k % 256 := by
  show (v.toNat >>> ((UInt64.ofNat k).toNat % 64)) % 256 = _
  rw [UInt64.toNat_ofNat_of_lt (by simp [UInt64.size]; omega), Nat.mod_eq_of_lt hk,
    Nat.shiftRight_eq_div_pow]

/-- One more byte of a big-endian field: the bytes above position `k` shifted
up by one byte, plus the byte at `k`, spell `v` shifted down by `k` bits. -/
private theorem div_pow_add_mod (v k : Nat) : v / 2 ^ (k + 8) * 256 + v / 2 ^ k % 256 = v / 2 ^ k := by
  rw [Nat.pow_add, ← Nat.div_div_eq_div_mul]
  exact Nat.div_add_mod' _ _

theorem beNat_putUint16 (v : UInt16) : beNat (putUint16 v) = v.toNat := by
  have h : v.toNat < 2 ^ 8 * 256 := v.toNat_lt_size
  have e0 : v.toUInt8.toNat = v.toNat % 256 := rfl
  simp only [putUint16, beNat, List.foldl]
  rw [show (8 : UInt16) = UInt16.ofNat 8 from rfl, toNat_byte_shiftRight16 v 8 (by omega), e0,
    Nat.zero_mul, Nat.zero_add, Nat.mod_eq_of_lt (Nat.div_lt_of_lt_mul h)]
  exact Nat.div_add_mod' _ 256

theorem beNat_putUint32 (v : UInt32) : beNat (putUint32 v) = v.toNat := by
  have h : v.toNat < 2 ^ 24 * 256 := v.toNat_lt_size
  have e0 : v.toUInt8.toNat = v.toNat % 256 := rfl
  simp only [putUint32, beNat, List.foldl]
  rw [show (24 : UInt32) = UInt32.ofNat 24 from rfl, show (16 : UInt32) = UInt32.ofNat 16 from rfl,
    show (8 : UInt32) = UInt32.ofNat 8 from rfl, toNat_byte_shiftRight32 v 24 (by omega),
    toNat_byte_shiftRight32 v 16 (by omega), toNat_byte_shiftRight32 v 8 (by omega), e0,
    Nat.zero_mul, Nat.zero_add, Nat.mod_eq_of_lt (Nat.div_lt_of_lt_mul h), div_pow_add_mod _ 16,
    div_pow_add_mod _ 8]
  exact Nat.div_add_mod' _ 256

theorem beNat_putUint64 (v : UInt64) : beNat (putUint64 v) = v.toNat := by
  have h : v.toNat < 2 ^ 56 * 256 := v.toNat_lt_size
  have e0 : v.toUInt8.toNat = v.toNat % 256 := rfl
  simp only [putUint64, beNat, List.foldl]
  rw [show (56 : UInt64) = UInt64.ofNat 56 from rfl, show (48 : UInt64) = UInt64.ofNat 48 from rfl,
    show (40 : UInt64) = UInt64.ofNat 40 from rfl, show (32 : UInt64) = UInt64.ofNat 32 from rfl,
    show (24 : UInt64) = UInt64.ofNat 24 from rfl, show (16 : UInt64) = UInt64.ofNat 16 from rfl,
    show (8 : UInt64) = UInt64.ofNat 8 from rfl, toNat_byte_shiftRight64 v 56 (by omega),
    toNat_byte_shiftRight64 v 48 (by omega), toNat_byte_shiftRight64 v 40 (by omega),
    toNat_byte_shiftRight64 v 32 (by omega), toNat_byte_shiftRight64 v 24 (by omega),
    toNat_byte_shiftRight64 v 16 (by omega), toNat_byte_shiftRight64 v 8 (by omega), e0,
    Nat.zero_mul, Nat.zero_add, Nat.mod_eq_of_lt (Nat.div_lt_of_lt_mul h), div_pow_add_mod _ 48,
    div_pow_add_mod _ 40, div_pow_add_mod _ 32, div_pow_add_mod _ 24, div_pow_add_mod _ 16,
    div_pow_add_mod _ 8]
  exact Nat.div_add_mod' _ 256

/-! Bit packing: an `|` of fields in disjoint bit ranges is their sum. -/

theorem or_mul_two_pow (x y n : Nat) : x * 2 ^ n ||| y * 2 ^ n = (x ||| y) * 2 ^ n := by
  simp only [← Nat.shiftLeft_eq]
  apply Nat.eq_of_testBit_eq
  intro i
  simp only [Nat.testBit_or, Nat.testBit_shiftLeft]
  by_cases h : n ≤ i <;> simp [h]

theorem mul_two_pow_or {b n : Nat} (a : Nat) (hb : b < 2 ^ n) :
    a * 2 ^ n ||| b = a * 2 ^ n + b := by
  rw [Nat.mul_comm, Nat.mul_add_lt_is_or hb]

end KopiaBlock.Go
