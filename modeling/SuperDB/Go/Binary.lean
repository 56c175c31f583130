import SuperDB.Go.Map

/-!
# Words in files

`binary.BigEndian` on words of 16, 32 and 64 bits, and the checksum of `hash/crc32`. The checksum is
computed with a table of 256 words, one lookup per byte. A step can be undone: the high byte of its
result tells which word was looked up. So two byte strings that differ in one byte have different
checksums.
-/

namespace SuperDB.Go

variable {s : Bytes} {c c' : UInt32}

/-! ## Big-endian words -/

/-- `binary.BigEndian.PutUint32`, of a number modulo `2 ^ 32`. -/
def putUint32 (n : Nat) : Bytes :=
  [UInt8.ofNat (n / 2 ^ 24), UInt8.ofNat (n / 2 ^ 16), UInt8.ofNat (n / 2 ^ 8), UInt8.ofNat n]

/-- `binary.BigEndian.Uint32`, of the first four bytes. -/
def uint32 : Bytes → Nat
  | a :: b :: c :: d :: _ => a.toNat * 2 ^ 24 + b.toNat * 2 ^ 16 + c.toNat * 2 ^ 8 + d.toNat
  | _ => 0

@[simp] theorem length_putUint32 (n : Nat) : (putUint32 n).length = 4 := rfl

theorem uint32_putUint32 {n : Nat} (h : n < 2 ^ 32) (s : Bytes) :
    uint32 (putUint32 n ++ s) = n := by
  simp only [putUint32, uint32, List.cons_append, UInt8.toNat_ofNat']
  omega

theorem putUint32_uint32 (h : s.length = 4) : putUint32 (uint32 s) = s := by
  match s, h with
  | [a, b, c, d], _ =>
    have ha := a.toNat_lt
    have hb := b.toNat_lt
    have hc := c.toNat_lt
    have hd := d.toNat_lt
    simp only [putUint32, uint32, List.cons.injEq, and_true, ← UInt8.toNat_inj,
      UInt8.toNat_ofNat']
    omega

theorem uint32_lt (s : Bytes) : uint32 s < 2 ^ 32 := by
  unfold uint32
  split
  · next a b c d _ =>
    have ha := a.toNat_lt
    have hb := b.toNat_lt
    have hc := c.toNat_lt
    have hd := d.toNat_lt
    omega
  · decide

theorem uint32_take (s : Bytes) : uint32 (s.take 4) = uint32 s := by
  match s with
  | [] => rfl
  | [_] => rfl
  | [_, _] => rfl
  | [_, _, _] => rfl
  | _ :: _ :: _ :: _ :: _ => rfl

/-- `binary.BigEndian.PutUint16`, of a number modulo `2 ^ 16`. -/
def putUint16 (n : Nat) : Bytes := [UInt8.ofNat (n / 2 ^ 8), UInt8.ofNat n]

/-- `binary.BigEndian.Uint16`, of the first two bytes. -/
def uint16 : Bytes → Nat
  | a :: b :: _ => a.toNat * 2 ^ 8 + b.toNat
  | _ => 0

/-- `binary.BigEndian.PutUint64`, of a number modulo `2 ^ 64`. -/
def putUint64 (n : Nat) : Bytes := putUint32 (n / 2 ^ 32) ++ putUint32 n

/-- `binary.BigEndian.Uint64`, of the first eight bytes. -/
def uint64 (s : Bytes) : Nat := uint32 s * 2 ^ 32 + uint32 (s.drop 4)

@[simp] theorem length_putUint16 (n : Nat) : (putUint16 n).length = 2 := rfl

@[simp] theorem length_putUint64 (n : Nat) : (putUint64 n).length = 8 := rfl

theorem uint16_take (s : Bytes) : uint16 (s.take 2) = uint16 s := by
  match s with
  | [] => rfl
  | [_] => rfl
  | _ :: _ :: _ => rfl

theorem putUint16_uint16 (h : s.length = 2) : putUint16 (uint16 s) = s := by
  match s, h with
  | [a, b], _ =>
    have ha := a.toNat_lt
    have hb := b.toNat_lt
    simp only [putUint16, uint16, List.cons.injEq, and_true, ← UInt8.toNat_inj, UInt8.toNat_ofNat']
    omega

theorem putUint32_mod (n : Nat) : putUint32 (n % 2 ^ 32) = putUint32 n := by
  simp only [putUint32, List.cons.injEq, and_true, ← UInt8.toNat_inj, UInt8.toNat_ofNat']
  omega

theorem uint64_putUint64 {n : Nat} (h : n < 2 ^ 64) : uint64 (putUint64 n) = n := by
  have hlow : uint32 (putUint32 n) = n % 2 ^ 32 := by
    have hback := uint32_putUint32 (Nat.mod_lt n (by decide : 0 < 2 ^ 32)) []
    rwa [putUint32_mod, List.append_nil] at hback
  have hdrop : (putUint64 n).drop 4 = putUint32 n := rfl
  rw [uint64, hdrop, hlow, putUint64, uint32_putUint32 (by omega)]
  omega

theorem uint64_lt (s : Bytes) : uint64 s < 2 ^ 64 := by
  have hhigh := uint32_lt s
  have hlow := uint32_lt (s.drop 4)
  unfold uint64
  omega

theorem putUint64_uint64 (h : s.length = 8) : putUint64 (uint64 s) = s := by
  have hlow := uint32_lt (s.drop 4)
  have hhigh : uint64 s / 2 ^ 32 = uint32 s := by
    unfold uint64
    omega
  have hrest : uint64 s % 2 ^ 32 = uint32 (s.drop 4) := by
    unfold uint64
    omega
  rw [putUint64, hhigh, ← putUint32_mod (uint64 s), hrest, ← uint32_take s,
    putUint32_uint32 (by simp [h]), putUint32_uint32 (by simp [h]), List.take_append_drop]

/-! ## CRC-32C -/

/-- The reversed polynomial of `crc32.Castagnoli`. -/
def castagnoli : UInt32 := 0x82F63B78

def crcBit (c : UInt32) : UInt32 :=
  if c &&& 1 = 1 then (c >>> 1) ^^^ castagnoli else c >>> 1

/-- The entry of `crc32.MakeTable` for a byte. -/
def crcTable (b : UInt8) : UInt32 :=
  crcBit (crcBit (crcBit (crcBit (crcBit (crcBit (crcBit (crcBit b.toUInt32)))))))

/-- One byte of `crc32.Update`. -/
def crcByte (c : UInt32) (v : UInt8) : UInt32 := crcTable (c.toUInt8 ^^^ v) ^^^ (c >>> 8)

/-- `crc32.Checksum` with the table of `crc32.Castagnoli`. -/
def crc32 (s : Bytes) : UInt32 := ~~~(s.foldl crcByte (~~~(0 : UInt32)))

def crcUnbit (c : UInt32) : UInt32 :=
  if c &&& 0x80000000 = 0 then c <<< 1 else ((c ^^^ castagnoli) <<< 1) ||| 1

/-- The byte of a table entry, from its high byte. -/
def crcIndex (c : UInt32) : UInt8 :=
  (crcUnbit (crcUnbit (crcUnbit (crcUnbit (crcUnbit (crcUnbit (crcUnbit
    (crcUnbit (c &&& 0xFF000000))))))))).toUInt8

theorem crcIndex_crcTable (b : UInt8) : crcIndex (crcTable b) = b := by
  revert b
  decide +kernel

/-- The high byte of a step's result is that of the table entry. -/
theorem xor_shift_high (x c : UInt32) : (x ^^^ (c >>> 8)) &&& 0xFF000000 = x &&& 0xFF000000 := by
  apply UInt32.toBitVec_inj.1
  apply BitVec.eq_of_getLsbD_eq
  intro i hi
  interval_cases i <;> simp

theorem crcIndex_xor (b : UInt8) (c : UInt32) : crcIndex (crcTable b ^^^ (c >>> 8)) = b := by
  have hhigh : crcIndex (crcTable b ^^^ (c >>> 8)) = crcIndex (crcTable b) := by
    unfold crcIndex
    rw [xor_shift_high]
  rw [hhigh, crcIndex_crcTable]

/-- A step can be undone. -/
theorem crcByte_inj {v v' : UInt8} (h : crcByte c v = crcByte c' v') :
    c.toUInt8 ^^^ v = c'.toUInt8 ^^^ v' ∧ c >>> 8 = c' >>> 8 := by
  unfold crcByte at h
  have hbyte : c.toUInt8 ^^^ v = c'.toUInt8 ^^^ v' := by
    have hindex := congrArg crcIndex h
    rwa [crcIndex_xor, crcIndex_xor] at hindex
  refine ⟨hbyte, ?_⟩
  rw [hbyte] at h
  exact UInt32.xor_right_inj _ |>.1 h

theorem crcByte_state_inj {v : UInt8} (h : crcByte c v = crcByte c' v) : c = c' := by
  obtain ⟨hbyte, hshift⟩ := crcByte_inj h
  have hlow : c.toUInt8 = c'.toUInt8 := UInt8.xor_left_inj _ |>.1 hbyte
  have hmod : c.toNat % 256 = c'.toNat % 256 := congrArg UInt8.toNat hlow
  have hdiv := congrArg UInt32.toNat hshift
  rw [UInt32.toNat_shiftRight, UInt32.toNat_shiftRight, show UInt32.toNat 8 % 32 = 8 from rfl,
    Nat.shiftRight_eq_div_pow, Nat.shiftRight_eq_div_pow] at hdiv
  rw [← UInt32.toNat_inj]
  omega

theorem foldl_crcByte_inj (h : s.foldl crcByte c = s.foldl crcByte c') : c = c' := by
  induction s generalizing c c' with
  | nil => exact h
  | cons v s ih => exact crcByte_state_inj (ih h)

/-- **The checksum tells strings apart that differ in one byte.** -/
theorem crc32_set_ne {t : Bytes} {a b : UInt8} (h : a ≠ b) :
    crc32 (s ++ a :: t) ≠ crc32 (s ++ b :: t) := by
  intro heq
  apply h
  unfold crc32 at heq
  have hfold := UInt32.not_inj.1 heq
  rw [List.foldl_append, List.foldl_append, List.foldl_cons, List.foldl_cons] at hfold
  exact UInt8.xor_right_inj _ |>.1 (crcByte_inj (foldl_crcByte_inj hfold)).1

end SuperDB.Go
