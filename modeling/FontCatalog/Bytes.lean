/-!
# Bytes

Font data is a finite sequence of bytes. Every number in it is stored
most significant byte first, at a position counted from the start of the
table it belongs to, so the whole of reading is *looking at a position*:
`Bytes.u16? b p` is the number at `p`, and there is none when one of its
bytes lies beyond the end. Nothing is ever read past the end, and a
position too far is an answer and not an error.

Writing is the other half: `be16` and `be32` are the bytes of a number,
`beSigned16` those of a signed one in two's complement. A number written
and read back is the number modulo the width (`u16?_be16_append`,
`u32?_be32_append`), wherever in the sequence it stands.
-/

namespace FontCatalog

/-- **A sequence of bytes.** -/
abbrev Bytes := List UInt8

/-- The value in `-2^(bits-1) … 2^(bits-1) - 1` that `n` stands for in
two's complement on `bits` bits. -/
def signed (bits n : Nat) : Int := Int.bmod n (Nat.pow 2 bits)

namespace Bytes

/-! ## Reading -/

/-- The 16-bit number at `pos`. -/
def u16? (b : Bytes) (pos : Nat) : Option Nat :=
  match b.drop pos with
  | hi :: lo :: _ => some (hi.toNat * 256 + lo.toNat)
  | _ => none

/-- The 32-bit number at `pos`. -/
def u32? (b : Bytes) (pos : Nat) : Option Nat :=
  match b.drop pos with
  | x :: y :: z :: w :: _ =>
    some (((x.toNat * 256 + y.toNat) * 256 + z.toNat) * 256 + w.toNat)
  | _ => none

/-- The signed 16-bit number at `pos`. -/
def i16? (b : Bytes) (pos : Nat) : Option Int := (b.u16? pos).map (signed 16)

/-- The signed 32-bit number at `pos`. -/
def i32? (b : Bytes) (pos : Nat) : Option Int := (b.u32? pos).map (signed 32)

/-- The signed 8-bit number at `pos`. -/
def i8? (b : Bytes) (pos : Nat) : Option Int := b[pos]?.map (fun x => signed 8 x.toNat)

/-- The `len` bytes from `start` on, if all of them are there. -/
def slice? (b : Bytes) (start len : Nat) : Option Bytes :=
  if start + len ≤ b.length then some ((b.drop start).take len) else none

/-- The bytes from `start` on; a start just behind the last byte leaves
nothing, one further on is out of bounds. -/
def from? (b : Bytes) (start : Nat) : Option Bytes :=
  if start ≤ b.length then some (b.drop start) else none

/-- `count` consecutive pieces of `width` bytes each. -/
def chunks (width : Nat) : (count : Nat) → Bytes → List Bytes
  | 0, _ => []
  | count + 1, b => b.take width :: chunks width count (b.drop width)

/-- **An array of records**: `count` pieces of `width` bytes from `start`
on, if the whole array is there. -/
def records? (b : Bytes) (start width count : Nat) : Option (List Bytes) :=
  (b.slice? start (width * count)).map (chunks width count)

/-! ## Writing -/

/-- The two bytes of `n` modulo `2^16`. -/
def be16 (n : Nat) : Bytes := [UInt8.ofNat (n / 256), UInt8.ofNat n]

/-- The four bytes of `n` modulo `2^32`. -/
def be32 (n : Nat) : Bytes :=
  [UInt8.ofNat (n / 16777216), UInt8.ofNat (n / 65536), UInt8.ofNat (n / 256), UInt8.ofNat n]

/-- The two bytes of a signed number, in two's complement. -/
def beSigned16 (i : Int) : Bytes := be16 (i % 65536).toNat

/-- `n` zero bytes. -/
def zeros (n : Nat) : Bytes := List.replicate n 0

/-- How many bytes are missing to the next multiple of four. -/
def paddingOf (len : Nat) : Nat := (4 - len % 4) % 4

/-- **Padding**: `b` followed by as many zeros, at most three, as bring
its length to a multiple of four. -/
def padded (b : Bytes) : Bytes := b ++ zeros (paddingOf b.length)

/-! ## What the readers see of what was written -/

@[simp] theorem length_be16 (n : Nat) : (be16 n).length = 2 := rfl

@[simp] theorem length_be32 (n : Nat) : (be32 n).length = 4 := rfl

@[simp] theorem length_beSigned16 (i : Int) : (beSigned16 i).length = 2 := rfl

@[simp] theorem length_zeros (n : Nat) : (zeros n).length = n := List.length_replicate

/-- Padding is at most three bytes. -/
theorem paddingOf_le (n : Nat) : paddingOf n ≤ 3 := by
  unfold paddingOf
  omega

/-- The length of a padded sequence is a multiple of four. -/
theorem four_dvd_length_padded (b : Bytes) : b.padded.length % 4 = 0 := by
  simp only [padded, paddingOf, List.length_append, length_zeros]
  omega

theorem length_padded (b : Bytes) : b.padded.length = b.length + paddingOf b.length := by
  simp [padded]

/-- Reading at a position is reading at the start of what is left there. -/
theorem u16?_drop (b : Bytes) (start pos : Nat) :
    u16? (b.drop start) pos = b.u16? (start + pos) := by
  simp only [u16?, List.drop_drop]

theorem u32?_drop (b : Bytes) (start pos : Nat) :
    u32? (b.drop start) pos = b.u32? (start + pos) := by
  simp only [u32?, List.drop_drop]

/-- **A 16-bit number reads back**, whatever stands before and behind it. -/
theorem u16?_be16_append (before rest : Bytes) (n : Nat) :
    u16? (before ++ (be16 n ++ rest)) before.length = some (n % 65536) := by
  simp only [u16?, be16, List.drop_left, List.cons_append, List.nil_append, Option.some.injEq,
    UInt8.toNat_ofNat']
  omega

/-- **A 32-bit number reads back**, whatever stands before and behind it. -/
theorem u32?_be32_append (before rest : Bytes) (n : Nat) :
    u32? (before ++ (be32 n ++ rest)) before.length = some (n % 4294967296) := by
  simp only [u32?, be32, List.drop_left, List.cons_append, List.nil_append, Option.some.injEq,
    UInt8.toNat_ofNat']
  omega

/-- A slice that was appended is the slice read back. -/
theorem slice?_append (before mid rest : Bytes) :
    slice? (before ++ (mid ++ rest)) before.length mid.length = some mid := by
  simp [slice?]

/-- What is read off the front of a sequence does not depend on what
follows it. -/
theorem slice?_of_prefix {b c : Bytes} (h : b <+: c) {start len : Nat} {part : Bytes}
    (hpart : b.slice? start len = some part) : c.slice? start len = some part := by
  obtain ⟨rest, rfl⟩ := h
  unfold slice? at hpart ⊢
  split at hpart
  · next hfits =>
    cases hpart
    rw [if_pos (by rw [List.length_append]; omega), List.drop_append_of_le_length (by omega),
      List.take_append_of_le_length (by rw [List.length_drop]; omega)]
  · cases hpart

/-- There is always one piece for each count. -/
@[simp] theorem length_chunks (width count : Nat) (b : Bytes) :
    (chunks width count b).length = count := by
  induction count generalizing b with
  | zero => rfl
  | succ count ih => simp [chunks, ih]

end Bytes

end FontCatalog
