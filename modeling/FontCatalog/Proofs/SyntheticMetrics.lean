import FontCatalog.Face
import FontCatalog.Proofs.AssembledFonts
import FontCatalog.Synthetic.Build

/-!
# The metrics of a synthetic font, read back

The ascender and the descender of an order are written three times: into
`hhea`, and into `OS/2` as the typographic pair and as the pair for
clipping. Which pair a reader takes is a matter of precedence, and it does
not matter: where `hhea` is passed over, both of its numbers are zero and
so are those of the other pairs. Only the sign of that zero is not
certain, since the clipping pair has its descender turned round.

The heights of lower-case letters and of capitals are in the `OS/2` table
only if the order states the former.
-/

namespace FontCatalog

namespace SyntheticFont

variable (f : SyntheticFont)

/-! ## The three tables -/

theorem length_headTable : f.headTable.length = 54 := by
  simp only [headTable, List.length_append, Bytes.length_be16, Bytes.length_be32,
    Bytes.length_beSigned16, Bytes.length_zeros]

theorem length_hheaTable : f.hheaTable.length = 36 := by
  simp only [hheaTable, List.length_append, Bytes.length_be16, Bytes.length_beSigned16,
    Bytes.length_zeros]

/-- The units per em are behind the adjustment of the table. -/
theorem u16?_headTable (n : UInt32) :
    (Font.withAdjustment f.headTable n).u16? 18 = some f.unitsPerEm.toNat := by
  have hlength : 12 ≤ f.headTable.length := by
    rw [length_headTable]
    decide
  have hdrop : f.headTable.drop 18 = Bytes.be16 f.unitsPerEm.toNat ++ f.headTable.drop 20 := by
    simp only [headTable, List.append_assoc, Bytes.drop_be16_append, Bytes.drop_be32_append]
    rfl
  rw [← Font.drop_withAdjustment hlength n (by decide)] at hdrop
  rw [Bytes.u16?_of_drop hdrop, Nat.mod_eq_of_lt f.unitsPerEm.toNat_lt]

theorem i16?_hheaTable :
    f.hheaTable.i16? 4 = some f.ascender.toInt ∧ f.hheaTable.i16? 6 = some f.descender.toInt := by
  have hdescender : f.hheaTable.drop 6 = Bytes.beSigned16 f.descender.toInt
      ++ f.hheaTable.drop 8 := by
    simp only [hheaTable, List.append_assoc, Bytes.drop_be16_append,
      Bytes.drop_beSigned16_append]
    rfl
  have hascender : f.hheaTable.drop 4 = Bytes.beSigned16 f.ascender.toInt
      ++ f.hheaTable.drop 6 := by
    simp only [hheaTable, List.append_assoc, Bytes.drop_be16_append,
      Bytes.drop_beSigned16_append]
    rfl
  exact ⟨Bytes.i16?_of_drop_toInt hascender, Bytes.i16?_of_drop_toInt hdescender⟩

/-- The end of the `OS/2` table, which only one of its versions has. -/
def os2Heights : Bytes :=
  match f.xHeight with
  | some h =>
    Bytes.beSigned16 h.toInt ++ Bytes.beSigned16 f.capHeight.toInt
      ++ Bytes.be16 0 ++ Bytes.be16 0x20 ++ Bytes.be16 0
  | none => []

theorem length_os2Heights_le : f.os2Heights.length ≤ 10 := by
  unfold os2Heights
  split
  · exact Nat.le_refl 10
  · exact Nat.zero_le 10

/-- **The `OS/2` table from its style flags on**: all that is read of it but
the version. -/
theorem drop_os2Table :
    f.os2Table.drop 62 = Bytes.be16 0x40 ++ (Bytes.be16 character ++ (Bytes.be16 character
      ++ (Bytes.beSigned16 f.ascender.toInt ++ (Bytes.beSigned16 f.descender.toInt
        ++ (Bytes.be16 0 ++ (Bytes.be16 f.ascender.toInt.natAbs
          ++ (Bytes.be16 f.descender.toInt.natAbs ++ (Bytes.be32 1 ++ (Bytes.be32 0
            ++ f.os2Heights))))))))) := by
  have hzeros : ∀ (b : Bytes) (pos : Nat), (Bytes.zeros 10 ++ b).drop (pos + 10) = b.drop pos :=
    fun _ _ => rfl
  -- The equation lemma of so long a definition is not to be had in good time.
  delta os2Table
  simp only [List.append_assoc, Bytes.drop_be16_append, Bytes.drop_be32_append, hzeros]
  rfl

theorem length_os2Table : f.os2Table.length = 86 + f.os2Heights.length := by
  delta os2Table
  simp only [List.length_append, Bytes.length_be16, Bytes.length_be32, Bytes.length_beSigned16,
    Bytes.length_zeros]
  rfl

/-- The version of the `OS/2` table. -/
theorem u16?_os2Table : f.os2Table.u16? 0 = some (if f.xHeight.isSome then 4 else 1) := by
  obtain ⟨rest, hrest⟩ : ∃ rest, f.os2Table
      = Bytes.be16 (if f.xHeight.isSome then 4 else 1) ++ rest := by
    delta os2Table
    exact ⟨_, by simp only [List.append_assoc]; rfl⟩
  rw [hrest, Bytes.u16?_of_drop (n := if f.xHeight.isSome then 4 else 1) List.drop_zero]
  cases f.xHeight <;> rfl

/-- **What an `OS/2` table says of an order.** -/
def os2 : Os2 where
  selection := 0x40
  typoAscender := f.ascender.toInt
  typoDescender := f.descender.toInt
  winAscent := f.ascender.toInt.natAbs
  winDescent := f.descender.toInt.natAbs
  xHeight := f.xHeight.map Int16.toInt
  capHeight := f.xHeight.map fun _ => f.capHeight.toInt

theorem natAbs_toInt_lt (n : Int16) : n.toInt.natAbs < 65536 := by
  have hlo := n.le_toInt
  have hhi := n.toInt_lt
  omega

/-- **The `OS/2` table reads back.** -/
theorem read?_os2Table : Os2.read? f.os2Table = some f.os2 := by
  -- The numbers behind the style flags, each by what is left of the table there.
  have hlater : ∀ pos, f.os2Table.drop (62 + pos) = (f.os2Table.drop 62).drop pos :=
    fun _ => List.drop_drop.symm
  rw [drop_os2Table] at hlater
  have hselection : f.os2Table.u16? 62 = some 0x40 :=
    Bytes.u16?_of_drop (n := 0x40) (hlater 0)
  have hascender : f.os2Table.i16? 68 = some f.ascender.toInt :=
    Bytes.i16?_of_drop_toInt (hlater 6)
  have hdescender : f.os2Table.i16? 70 = some f.descender.toInt :=
    Bytes.i16?_of_drop_toInt (hlater 8)
  have hwinAscent : f.os2Table.u16? 74 = some f.ascender.toInt.natAbs := by
    rw [Bytes.u16?_of_drop (n := f.ascender.toInt.natAbs) (hlater 12),
      Nat.mod_eq_of_lt (natAbs_toInt_lt _)]
  have hwinDescent : f.os2Table.u16? 76 = some f.descender.toInt.natAbs := by
    rw [Bytes.u16?_of_drop (n := f.descender.toInt.natAbs) (hlater 14),
      Nat.mod_eq_of_lt (natAbs_toInt_lt _)]
  cases hx : f.xHeight with
  | none =>
    have hversion := f.u16?_os2Table
    have hlength := f.length_os2Table
    rw [os2Heights, hx] at hlength
    rw [hx] at hversion
    simp only [Os2.read?, hversion, hlength, hselection, hascender, hdescender, hwinAscent,
      hwinDescent, os2, hx]
    rfl
  | some h =>
    have hversion := f.u16?_os2Table
    have hlength := f.length_os2Table
    rw [os2Heights, hx] at hlength
    rw [hx] at hversion
    have hxHeight : f.os2Table.i16? 86 = some h.toInt := by
      have hdrop : f.os2Heights = Bytes.beSigned16 h.toInt ++ f.os2Heights.drop 2 := by
        rw [os2Heights, hx]
        rfl
      exact Bytes.i16?_of_drop_toInt ((hlater 24).trans hdrop)
    have hcapHeight : f.os2Table.i16? 88 = some f.capHeight.toInt := by
      have hdrop : f.os2Heights.drop 2
          = Bytes.beSigned16 f.capHeight.toInt ++ f.os2Heights.drop 4 := by
        rw [os2Heights, hx]
        rfl
      exact Bytes.i16?_of_drop_toInt ((hlater 26).trans hdrop)
    simp only [Os2.read?, hversion, hlength, hselection, hascender, hdescender, hwinAscent,
      hwinDescent, hxHeight, hcapHeight, os2, hx]
    rfl

/-! ## The metrics of a font with the tables -/

variable {f} {tables : Tables}

/-- The `head` table is complete. -/
theorem head?_eq {n : UInt32}
    (hhead : tables (Tag.named "head") = some (Font.withAdjustment f.headTable n)) :
    tables.head? = some (Font.withAdjustment f.headTable n) := by
  have hlength : (Font.withAdjustment f.headTable n).length = 54 := by
    rw [Font.length_withAdjustment (by rw [length_headTable]; decide), length_headTable]
  rw [Tables.head?, hhead, Option.filter_some, hlength]
  rfl

theorem unitsPerEm_eq {n : UInt32}
    (hhead : tables (Tag.named "head") = some (Font.withAdjustment f.headTable n)) :
    tables.unitsPerEm = f.unitsPerEm.toNat := by
  rw [Tables.unitsPerEm, head?_eq hhead, Option.bind_some, u16?_headTable]
  rfl

theorem os2?_eq (hos2 : tables (Tag.named "OS/2") = some f.os2Table) :
    tables.os2? = some f.os2 := by
  rw [Tables.os2?, hos2, Option.bind_some, read?_os2Table]

/-- **The lines reach as far as was ordered**, whichever pair of numbers is
taken. -/
theorem toInt_lineExtent (hhhea : tables (Tag.named "hhea") = some f.hheaTable)
    (hos2 : tables (Tag.named "OS/2") = some f.os2Table) :
    tables.lineExtent.1.toInt = f.ascender.toInt ∧
      tables.lineExtent.2.toInt = f.descender.toInt := by
  have hextent : tables.hheaExtent = (f.ascender.toInt, f.descender.toInt) := by
    have hhhea? : (tables (Tag.named "hhea")).filter (36 ≤ ·.length) = some f.hheaTable := by
      rw [hhhea, Option.filter_some, length_hheaTable]
      rfl
    rw [Tables.hheaExtent, hhhea?, Option.bind_some, Option.bind_some, f.i16?_hheaTable.1,
      f.i16?_hheaTable.2]
    rfl
  have hselection : f.os2.usesTypographic = false := by
    show Nat.testBit 0x40 7 = false
    decide
  rw [Tables.lineExtent, hextent, os2?_eq hos2]
  dsimp only
  rw [hselection, if_neg Bool.false_ne_true]
  by_cases hzero : f.ascender.toInt ≠ 0 ∨ f.descender.toInt ≠ 0
  · rw [if_pos hzero]
    exact ⟨rfl, rfl⟩
  · -- The typographic pair is the pair of `hhea`, so it is passed over as well.
    have htypo : ¬(f.os2.typoAscender ≠ 0 ∨ f.os2.typoDescender ≠ 0) := hzero
    rw [if_neg hzero, if_neg htypo]
    obtain ⟨hascender, hdescender⟩ := not_or.mp hzero
    constructor
    · show ((f.ascender.toInt.natAbs : Nat) : Int) = f.ascender.toInt
      rw [not_not.mp hascender]
      rfl
    · show (Metric.below f.descender.toInt.natAbs).toInt = f.descender.toInt
      rw [not_not.mp hdescender]
      rfl

/-- **The metrics of a font with the tables of an order** are those that
were ordered. -/
theorem metricsOf_none {n : UInt32}
    (hhead : tables (Tag.named "head") = some (Font.withAdjustment f.headTable n))
    (hhhea : tables (Tag.named "hhea") = some f.hheaTable)
    (hos2 : tables (Tag.named "OS/2") = some f.os2Table) :
    (tables.metricsOf none).unitsPerEm = f.unitsPerEm.toNat ∧
      (tables.metricsOf none).ascent.toInt = f.ascender.toInt ∧
      (tables.metricsOf none).descent.toInt = f.descender.toInt ∧
      (tables.metricsOf none).capHeight
        = f.xHeight.map (fun _ => Metric.whole f.capHeight.toInt) ∧
      ∀ h, f.xHeight = some h → (tables.metricsOf none).xHeight = Metric.whole h.toInt := by
  obtain ⟨hascent, hdescent⟩ := toInt_lineExtent hhhea hos2
  refine ⟨unitsPerEm_eq hhead, hascent, hdescent, ?_, fun h hx => ?_⟩
  · show (tables.os2?.bind (·.capHeight)).map (fun h => Metric.whole h) = _
    rw [os2?_eq hos2, Option.bind_some, os2, Option.map_map]
    rfl
  · show (((tables.os2?.bind (·.xHeight)).map fun h => Metric.whole h).or _).getD _ = _
    rw [os2?_eq hos2, Option.bind_some, os2, hx]
    rfl

end SyntheticFont

end FontCatalog
