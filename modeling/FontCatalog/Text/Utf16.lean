import FontCatalog.Bytes

/-!
# Text in 16-bit units, most significant byte first

A character up to `U+FFFF` is one unit and any other is a pair of
surrogates: a high one, `D800 … DBFF`, with the upper ten bits of the
code point less `10000`, and a low one, `DC00 … DFFF`, with the lower ten.

Reading is total. Font data may hold units that no text produces, and
what they read as is fixed: a high surrogate takes the unit behind it
whatever that unit is, using its lower ten bits; a high surrogate with
nothing behind it and a low surrogate on its own read as `U+FFFD`; an odd
last byte is dropped. On what writing produces, reading is the inverse
(`decode_encode`).
-/

namespace FontCatalog.Text.Utf16

/-- The character read where no other can be. -/
def replacement : Char := '\ufffd'

/-- The units of one character. -/
def unitsOf (c : Char) : List Nat :=
  if c.toNat < 0x10000 then [c.toNat]
  else [0xD800 + (c.toNat - 0x10000) / 0x400, 0xDC00 + (c.toNat - 0x10000) % 0x400]

/-- The 16-bit units a sequence of bytes consists of. -/
def units : Bytes → List Nat
  | hi :: lo :: rest => (hi.toNat * 256 + lo.toNat) :: units rest
  | _ => []

/-- The characters a sequence of units stands for. -/
def chars : List Nat → List Char
  | [] => []
  | [u] => [if 0xD800 ≤ u ∧ u < 0xE000 then replacement else Char.ofNat u]
  | u :: v :: rest =>
    if 0xD800 ≤ u ∧ u < 0xDC00 then
      Char.ofNat (u % 0x400 * 0x400 + v % 0x400 + 0x10000) :: chars rest
    else if 0xDC00 ≤ u ∧ u < 0xE000 then replacement :: chars (v :: rest)
    else Char.ofNat u :: chars (v :: rest)

/-- The bytes of a text. -/
def encode (s : String) : Bytes := (s.toList.flatMap unitsOf).flatMap Bytes.be16

/-- The text that a sequence of bytes stands for. -/
def decode (b : Bytes) : String := String.ofList (chars (units b))

/-! ## Reading inverts writing -/

/-- Units below `2^16` survive being written as bytes. -/
theorem units_flatMap_be16 (us : List Nat) (h : ∀ u ∈ us, u < 0x10000) :
    units (us.flatMap Bytes.be16) = us := by
  induction us with
  | nil => rfl
  | cons u us ih =>
    have hu : u < 0x10000 := h u (List.mem_cons_self ..)
    have hrest := ih fun v hv => h v (List.mem_cons_of_mem _ hv)
    simp only [List.flatMap_cons, Bytes.be16, List.cons_append, List.nil_append, units, hrest,
      List.cons.injEq, and_true, UInt8.toNat_ofNat']
    omega

/-- A code point is not a surrogate and lies below `110000`. -/
theorem toNat_lt_or (c : Char) :
    c.toNat < 0xD800 ∨ (0xDFFF < c.toNat ∧ c.toNat < 0x110000) := by
  have h := c.valid
  simp only [UInt32.isValidChar, Nat.isValidChar] at h
  exact h

/-- The units of a character fit in sixteen bits. -/
theorem unitsOf_lt (c : Char) : ∀ u ∈ unitsOf c, u < 0x10000 := by
  intro u hu
  have hc := toNat_lt_or c
  unfold unitsOf at hu
  split at hu
  · simp only [List.mem_singleton] at hu
    omega
  · simp only [List.mem_cons, List.not_mem_nil, or_false] at hu
    omega

/-- The units of a character, followed by any others, read as the
character followed by what the others read as. -/
theorem chars_unitsOf_append (c : Char) (us : List Nat) :
    chars (unitsOf c ++ us) = c :: chars us := by
  have hc := toNat_lt_or c
  have hself : Char.ofNat c.toNat = c := Char.ofNat_toNat c
  unfold unitsOf
  split
  · have hsur : ¬(0xD800 ≤ c.toNat ∧ c.toNat < 0xE000) := by omega
    have hhigh : ¬(0xD800 ≤ c.toNat ∧ c.toNat < 0xDC00) := by omega
    have hlow : ¬(0xDC00 ≤ c.toNat ∧ c.toNat < 0xE000) := by omega
    cases us with
    | nil => simp only [List.singleton_append, chars, hsur, if_false, hself]
    | cons v us => simp only [List.singleton_append, chars, hhigh, hlow, if_false, hself]
  · have hhigh : 0xD800 ≤ 0xD800 + (c.toNat - 0x10000) / 0x400
        ∧ 0xD800 + (c.toNat - 0x10000) / 0x400 < 0xDC00 := by omega
    have hval : (0xD800 + (c.toNat - 0x10000) / 0x400) % 0x400 * 0x400
        + (0xDC00 + (c.toNat - 0x10000) % 0x400) % 0x400 + 0x10000 = c.toNat := by omega
    simp only [List.cons_append, List.nil_append, chars, hhigh, and_self, if_true, hval, hself]

/-- **Reading inverts writing.** -/
theorem decode_encode (s : String) : decode (encode s) = s := by
  have hunits : units (encode s) = s.toList.flatMap unitsOf :=
    units_flatMap_be16 _ fun u hu => by
      obtain ⟨c, -, hc⟩ := List.mem_flatMap.mp hu
      exact unitsOf_lt c u hc
  have hchars : ∀ cs : List Char, chars (cs.flatMap unitsOf) = cs := by
    intro cs
    induction cs with
    | nil => rfl
    | cons c cs ih => rw [List.flatMap_cons, chars_unitsOf_append, ih]
  rw [decode, hunits, hchars, String.ofList_toList]

end FontCatalog.Text.Utf16
