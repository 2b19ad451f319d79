import FontCatalog.Bundle.Application
import FontCatalog.Bundle.Document
import FontCatalog.Proofs.ReadableSets
import FontCatalog.Proofs.SyntheticFonts

/-!
# The fonts that are always there

The application brings a font with it and the sample document another one.
Both are synthetic, and both are ordered plainly: with names in the fallback
language only, and with a height of lower-case letters. Of a plain font
there is nothing to find out, since all that is listed of it stands in its
order (`SyntheticFont.plainListing`, `SyntheticFont.listed_of_build`).

So neither font can fail a set. Both are built, both are read back, and
whatever else is in a package or a document with them, each is listed once.
-/

namespace FontCatalog

/-- A distance that is not zero is a whole number of units. -/
theorem Metric.eq_whole {m : Metric} {n : Int} (h : m.toInt = n) (hn : n ≠ 0) : m = .whole n := by
  cases m with
  | whole k => exact congrArg Metric.whole h
  | minusZero => exact absurd h.symm hn

namespace SyntheticFont

/-- **An order for a plain font**: names in the fallback language only, a
height of lower-case letters, and lines that reach above the baseline and
below it. -/
structure IsPlain (f : SyntheticFont) (xHeight : Int16) : Prop where
  /-- No name is given by its language. -/
  names : f.fullNames = []
  /-- The height of lower-case letters is stated. -/
  height : f.xHeight = some xHeight
  /-- Lines have a height above the baseline. -/
  ascender : f.ascender.toInt ≠ 0
  /-- Lines have a depth below the baseline. -/
  descender : f.descender.toInt ≠ 0
  /-- There is room for the records of all texts. -/
  count : 6 + 12 * f.texts.length < 65536
  /-- There is room for all texts. -/
  room : (f.texts.flatMap fun t => Text.Utf16.encode t.text).length < 65536

/-- **What is listed of a plain font**: the names and the metrics of its
order. -/
def plainListing (f : SyntheticFont) (xHeight : Int16) : FontProperties × FontFace :=
  ({ fullName := [⟨some Language.fallback, f.fullName⟩]
     familyName := [⟨some Language.fallback, f.family⟩]
     postscriptName := [⟨some Language.fallback, f.postscriptName⟩] },
   { fullName := some f.fullName
     metrics :=
      { unitsPerEm := f.unitsPerEm.toNat
        ascent := .whole f.ascender.toInt
        descent := .whole f.descender.toInt
        capHeight := some (.whole f.capHeight.toInt)
        xHeight := .whole xHeight.toInt } })

variable {f : SyntheticFont} {xHeight : Int16} {b : Bytes}

/-- There is one full name, in the fallback language. -/
theorem IsPlain.fullNames_eq (h : f.IsPlain xHeight) {tables : Tables} {names : Bytes}
    (hnames : f.nameTable = .ok names) (hname : tables (Tag.named "name") = some names) :
    tables.strings NameId.full = [⟨some Language.fallback, f.fullName⟩] ∧
      tables.statedFullName = some f.fullName := by
  have heach : f.OneNameEach := by
    rw [OneNameEach, h.names]
    exact List.nodup_nil
  obtain ⟨languages, hsorted, hlanguages, hfull, hstated⟩ :=
    SyntheticFont.fullNames_eq hnames hname heach
  -- Languages are sorted, and there is only one to sort.
  have hone : languages = [Language.fallbackId] := by
    have hnodup : languages.Nodup := hsorted.imp fun hlt => UInt16.ne_of_lt hlt
    refine List.perm_singleton.mp
      ((List.perm_ext_iff_of_nodup hnodup (List.nodup_singleton _)).mpr fun language => ?_)
    rw [hlanguages, h.names, List.mem_singleton]
    exact or_iff_left List.not_mem_nil
  refine ⟨?_, hstated⟩
  rw [hfull, hone, List.map_singleton, localized, Language.tag?_fallbackId]
  rfl

/-- **Of a plain font, its order is listed.** -/
theorem IsPlain.exists_listed (h : f.IsPlain xHeight) :
    ∃ b font, f.build = .ok b ∧ Font.faces b = .ok [font] ∧
      Font.listed [font] = [f.plainListing xHeight] := by
  obtain ⟨b, hbuild⟩ := exists_build h.count h.room
  obtain ⟨font, hread, hfvar, names, hnames, hname, n, hhead, hhhea, hos2⟩ :=
    tables_of_build hbuild
  obtain ⟨hfull, hstated⟩ := h.fullNames_eq hnames hname
  obtain ⟨hunits, hascent, hdescent, hcap, hx⟩ := metricsOf_none hhead hhhea hos2
  have hmetrics : font.tables.metricsOf none = (f.plainListing xHeight).2.metrics := by
    rw [h.height, Option.map_some] at hcap
    rw [FaceMetrics.mk.injEq]
    exact ⟨hunits, Metric.eq_whole hascent h.ascender, Metric.eq_whole hdescent h.descender, hcap,
      hx xHeight h.height⟩
  refine ⟨b, font, hbuild, Font.faces_of_readAt hread, ?_⟩
  rw [Font.listed, List.flatMap_singleton, Tables.listed, ofTables_of_fvar_eq_none hfvar,
    List.map_singleton, FontEntry.faceOf, Tables.faceProperties, hfull,
    familyNames_eq hnames hname, postscriptNames_eq hnames hname]
  dsimp only
  rw [hstated, hmetrics]
  rfl

end SyntheticFont

/-! ## The two fonts -/

theorem ApplicationFonts.isPlain_bundledFont : bundledFont.IsPlain 486 where
  names := rfl
  height := rfl
  ascender := by decide
  descender := by decide
  count := by decide +kernel
  room := by decide +kernel

theorem Document.isPlain_sampleFont : sampleFont.IsPlain 528 where
  names := rfl
  height := rfl
  ascender := by decide
  descender := by decide
  count := by decide +kernel
  room := by decide +kernel

end FontCatalog
