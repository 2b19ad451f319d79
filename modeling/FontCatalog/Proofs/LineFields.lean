/-!
# Taking a line apart

A line of a report puts a text of any kind in front of a number, with a
separator between them. Whoever reads the line finds the separator from the
end, since the text in front may have it too: `Text.splitLast?` cuts a text
at the last place where the separator is (`Text.splitLast?_eq_some_iff`),
and `Text.readInt64?` reads what is behind it.

What is written as a number is read back as that number
(`Text.readInt64?_toString`), and it has none of the signs that separators
start with (`Text.isDigit_or_minus_of_mem_toString`).
-/

namespace FontCatalog.Text

/-! ## The last place of a separator -/

/-- **Cuts a text at the last place where the separator is**, if it is
anywhere. -/
def splitLast? (separator : List Char) : List Char → Option (List Char × List Char)
  | [] => if separator = [] then some ([], []) else none
  | c :: text =>
    match splitLast? separator text with
    | some (before, after) => some (c :: before, after)
    | none =>
      if separator.isPrefixOf (c :: text) then some ([], (c :: text).drop separator.length)
      else none

/-- **What cutting a text gives**: the separator is between the parts,
and at no later place; and if there are no parts, it is nowhere. -/
theorem splitLast?_spec (separator text : List Char) :
    match splitLast? separator text with
    | some (before, after) => text = before ++ (separator ++ after) ∧
        ∀ b a, text = b ++ (separator ++ a) → b.length ≤ before.length
    | none => ∀ b a, text ≠ b ++ (separator ++ a) := by
  induction text with
  | nil =>
    rw [splitLast?]
    by_cases hempty : separator = []
    · rw [if_pos hempty]
      exact ⟨by rw [hempty]; rfl, fun b a h =>
        Nat.le_of_eq (congrArg List.length (List.append_eq_nil_iff.mp h.symm).1)⟩
    · rw [if_neg hempty]
      intro b a h
      exact hempty (List.append_eq_nil_iff.mp (List.append_eq_nil_iff.mp h.symm).2).1
  | cons c text ih =>
    rw [splitLast?]
    cases hrest : splitLast? separator text with
    | some p =>
      rw [hrest] at ih
      obtain ⟨htext, hlast⟩ := ih
      refine ⟨by rw [List.cons_append, ← htext], fun b a h => ?_⟩
      cases b with
      | nil => exact Nat.zero_le _
      | cons d b => exact Nat.succ_le_succ (hlast b a (List.cons.inj h).2)
    | none =>
      rw [hrest] at ih
      -- The separator is at the start of the text or nowhere.
      have hstart : ∀ b a, c :: text = b ++ (separator ++ a) → b = [] := fun b a h => by
        cases b with
        | nil => rfl
        | cons d b => exact absurd (List.cons.inj h).2 (ih b a)
      dsimp only
      by_cases hprefix : separator.isPrefixOf (c :: text) = true
      · rw [if_pos hprefix]
        obtain ⟨after, hafter⟩ := List.isPrefixOf_iff_prefix.mp hprefix
        exact ⟨by rw [← hafter, List.drop_left]; rfl, fun b a h =>
          Nat.le_of_eq (congrArg List.length (hstart b a h))⟩
      · rw [if_neg hprefix]
        intro b a h
        rw [hstart b a h] at h
        exact hprefix (List.isPrefixOf_iff_prefix.mpr ⟨a, h.symm⟩)

/-- **The cut is at the last place of the separator.** -/
theorem splitLast?_eq_some_iff {separator text before after : List Char} :
    splitLast? separator text = some (before, after) ↔
      text = before ++ (separator ++ after) ∧
        ∀ b a, text = b ++ (separator ++ a) → b.length ≤ before.length := by
  have hspec := splitLast?_spec separator text
  constructor
  · intro h
    rwa [h] at hspec
  · rintro ⟨htext, hlast⟩
    cases hcut : splitLast? separator text with
    | none =>
      rw [hcut] at hspec
      exact absurd htext (hspec before after)
    | some p =>
      rw [hcut] at hspec
      obtain ⟨hp, hplast⟩ := hspec
      have hlength : before.length = p.1.length :=
        Nat.le_antisymm (hplast before after htext) (hlast p.1 p.2 hp)
      obtain ⟨hbefore, hafter⟩ := List.append_inj (htext.symm.trans hp) hlength
      rw [hbefore, List.append_cancel_left hafter]

/-- **A separator that does not begin anew behind its first sign** is found
where it was put, whatever is in front of it. -/
theorem splitLast?_append {c : Char} {separator before after : List Char}
    (hnew : c ∉ separator ++ after) :
    splitLast? (c :: separator) (before ++ (c :: separator ++ after))
      = some (before, after) := by
  refine splitLast?_eq_some_iff.mpr ⟨rfl, fun b a h => ?_⟩
  rcases List.append_eq_append_iff.mp h with ⟨more, rfl, hmore⟩ | ⟨more, rfl, -⟩
  · cases more with
    | nil => exact Nat.le_of_eq (by rw [List.append_nil])
    | cons d more =>
      -- A later place would have the first sign once more.
      have hrest : separator ++ after = more ++ (c :: separator ++ a) := (List.cons.inj hmore).2
      refine absurd ?_ hnew
      rw [hrest]
      exact List.mem_append_right _ (List.mem_cons_self ..)
  · rw [List.length_append]
    exact Nat.le_add_right _ _

/-! ## Numbers in decimal -/

/-- The number that decimal digits stand for; there has to be one at
least. -/
def readDigits? (digits : List Char) : Option Nat :=
  if digits ≠ [] ∧ digits.all Char.isDigit then some (Nat.ofDigitChars 10 digits 0) else none

/-- The whole number that a text stands for: decimal digits, with a sign in
front of them or without. -/
def readInteger? : List Char → Option Int
  | '-' :: digits => (readDigits? digits).map fun n : Nat => -(n : Int)
  | '+' :: digits => (readDigits? digits).map fun n : Nat => (n : Int)
  | digits => (readDigits? digits).map fun n : Nat => (n : Int)

/-- **Numbers that have a place in 64 bits** with a sign. -/
def FitsInt64 (n : Int) : Prop := -0x8000000000000000 ≤ n ∧ n < 0x8000000000000000

instance (n : Int) : Decidable (FitsInt64 n) := inferInstanceAs (Decidable (_ ∧ _))

/-- **The number that a text stands for**, if it has a place in 64 bits. -/
def readInt64? (text : List Char) : Option Int :=
  (readInteger? text).filter fun n => FitsInt64 n

/-- The digits of a number are read back. -/
theorem readDigits?_toDigits (n : Nat) : readDigits? (Nat.toDigits 10 n) = some n := by
  have hdigits : (Nat.toDigits 10 n).all Char.isDigit = true :=
    List.all_eq_true.mpr fun c hc => Nat.isDigit_of_mem_toDigits (by decide) (by decide) hc
  rw [readDigits?, if_pos ⟨Nat.toDigits_ne_nil, hdigits⟩, Nat.ofDigitChars_ten_toDigits]

/-- The signs of a number that is written: its digits, behind a minus if it
is negative. -/
theorem toList_toString (n : Int) :
    (toString n).toList
      = if n < 0 then '-' :: Nat.toDigits 10 n.natAbs else Nat.toDigits 10 n.natAbs := by
  cases n with
  | ofNat n => exact Nat.toList_repr
  | negSucc n =>
    rw [if_pos (Int.negSucc_lt_zero n)]
    show ("-" ++ (n + 1).repr).toList = _
    rw [String.toList_append, Nat.toList_repr]
    rfl

/-- A number is written with digits and a minus. -/
theorem isDigit_or_minus_of_mem_toString {n : Int} {c : Char} (h : c ∈ (toString n).toList) :
    c.isDigit = true ∨ c = '-' := by
  have hdigit : c ∈ Nat.toDigits 10 n.natAbs → c.isDigit = true :=
    Nat.isDigit_of_mem_toDigits (by decide) (by decide)
  rw [toList_toString] at h
  split at h
  · exact (List.mem_cons.mp h).symm.imp_left hdigit
  · exact Or.inl (hdigit h)

/-- **A number that was written is read back.** -/
theorem readInteger?_toString (n : Int) : readInteger? (toString n).toList = some n := by
  have hdigit : ∀ c ∈ Nat.toDigits 10 n.natAbs, c.isDigit = true := fun c =>
    Nat.isDigit_of_mem_toDigits (by decide) (by decide)
  rw [toList_toString]
  by_cases hneg : n < 0
  · rw [if_pos hneg]
    show (readDigits? (Nat.toDigits 10 n.natAbs)).map (fun m : Nat => -(m : Int)) = some n
    rw [readDigits?_toDigits, Option.map_some]
    congr 1
    omega
  · rw [if_neg hneg]
    -- A digit is no sign, so the digits are all there is.
    unfold readInteger?
    split
    · next digits hdigits =>
      exact absurd (hdigit '-' (hdigits ▸ List.mem_cons_self ..)) (by decide)
    · next digits hdigits =>
      exact absurd (hdigit '+' (hdigits ▸ List.mem_cons_self ..)) (by decide)
    · rw [readDigits?_toDigits, Option.map_some]
      congr 1
      omega

/-- **A number of 64 bits that was written is read back.** -/
theorem readInt64?_toString {n : Int} (h : FitsInt64 n) :
    readInt64? (toString n).toList = some n := by
  rw [readInt64?, readInteger?_toString, Option.filter_some, if_pos (decide_eq_true h)]

end FontCatalog.Text
