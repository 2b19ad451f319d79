import FontCatalog.Proofs.SyntheticFonts

/-!
# Names by language, in whatever order they were given

Full names are given one by one, in any order and again and again. What counts
of all this is a map: for each language the name given last. The `name` table
that is written is a function of that map
(`SyntheticFont.build_eq_of_sameNames`), although an order keeps its names in a
list, in the order in which the languages first came up.

It is sorting that makes the list forget its order, and it would not if two
records had the same key: sorting keeps those in the order in which they came.
They have not. Full names have one record for each language
(`SyntheticFont.nodup_languages_fullTexts`), and the other records differ from
them and from each other in what they name. So the records do not only not
decrease, they increase (`SyntheticFont.precedes_sortedTexts`), and of given
records there is no more than one such order.
-/

namespace FontCatalog

/-! ## Keys -/

/-- **One text comes before another**: its language has the smaller number, or
the languages are the same and it names the smaller name id. -/
def NameText.Precedes (a b : NameText) : Prop :=
  a.language < b.language ∨ a.language = b.language ∧ a.nameId < b.nameId

/-- **One record comes before another**, likewise. -/
def NameRecord.Precedes (a b : NameRecord) : Prop :=
  a.language < b.language ∨ a.language = b.language ∧ a.nameId < b.nameId

namespace NameText

/-- What the texts are sorted by. -/
def key (t : NameText) : UInt16 × Nat := (t.language, t.nameId)

/-- Sorted texts with different keys increase. -/
theorem precedes_of_le {a b : NameText} (h : a.le b = true) (hne : a.key ≠ b.key) :
    a.Precedes b := by
  rcases le_iff.mp h with h | ⟨hlanguage, hid⟩
  · exact Or.inl h
  · refine Or.inr ⟨hlanguage, Nat.lt_of_le_of_ne hid fun heq => hne ?_⟩
    exact Prod.ext hlanguage heq

theorem Precedes.asymm {a b : NameText} (hab : a.Precedes b) : ¬b.Precedes a := by
  rw [Precedes] at *
  simp only [UInt16.lt_iff_toNat_lt, ← UInt16.toNat_inj] at *
  omega

end NameText

/-- **A record says a text**: the text lies in the storage where the record
points, and is as long as the record says. -/
structure NameTable.Says (table : NameTable) (r : NameRecord) (text : String) : Prop where
  /-- The text is in 16-bit units. -/
  encoding : r.platform = 3 ∧ r.encoding = 1
  /-- It lies at its place. -/
  place : table.storage.slice? r.offset (Text.Utf16.encode text).length
    = some (Text.Utf16.encode text)
  /-- It is as long as the record says. -/
  length : r.length = (Text.Utf16.encode text).length

/-- The text that a record says is read from it. -/
theorem NameTable.Says.string_eq {table : NameTable} {r : NameRecord} {text : String}
    (h : table.Says r text) : table.string r = text := by
  rw [NameTable.string, h.length, h.place, Option.map_some, Option.getD_some, NameRecord.decode,
    h.encoding.1, h.encoding.2]
  exact Text.Utf16.decode_encode text

namespace SyntheticFont

variable {f g : SyntheticFont}

/-- No two texts have the same key. -/
theorem nodup_keys_texts (h : f.OneNameEach) : (f.texts.map NameText.key).Nodup := by
  have hfull : (f.fullTexts.map NameText.key).Nodup := by
    have hlanguages : ((f.fullTexts.map NameText.key).map Prod.fst).Nodup := by
      rw [List.map_map]
      exact nodup_languages_fullTexts h
    exact hlanguages.of_map _
  have hown : (f.ownTexts.map NameText.key).Nodup := by
    show [(Language.fallbackId, NameId.family), (Language.fallbackId, NameId.subfamily),
      (Language.fallbackId, NameId.postscript)].Nodup
    decide
  rw [texts_eq, List.map_append]
  refine hown.append hfull fun k hk hk' => ?_
  obtain ⟨t, ht, rfl⟩ := List.mem_map.mp hk
  obtain ⟨u, hu, hkey⟩ := List.mem_map.mp hk'
  -- the own texts name other things than full names
  have hid : t.nameId = NameId.full :=
    (Prod.mk.inj hkey).2.symm.trans (nameId_of_mem_fullTexts hu)
  have hother : ∀ t ∈ f.ownTexts, t.nameId ≠ NameId.full := by
    simp [ownTexts, NameId.family, NameId.subfamily, NameId.postscript, NameId.full]
  exact hother t ht hid

/-- **The texts increase.** -/
theorem precedes_sortedTexts (h : f.OneNameEach) : f.sortedTexts.Pairwise NameText.Precedes := by
  have hkeys : (f.sortedTexts.map NameText.key).Nodup :=
    (f.perm_sortedTexts.map NameText.key).nodup_iff.mpr (nodup_keys_texts h)
  exact (f.pairwise_sortedTexts.and (List.pairwise_map.mp hkeys)).imp fun hab =>
    NameText.precedes_of_le hab.1 hab.2

/-- **The texts that are full names**: one for each language that a name was
given in, and one for the fallback language. -/
theorem mem_sortedTexts_full_iff (h : f.OneNameEach) {t : NameText} :
    t ∈ f.sortedTexts ∧ t.nameId = NameId.full
      ↔ (t.language = Language.fallbackId ∨ t.language ∈ f.fullNames.map Prod.fst) ∧
        t = ⟨t.language, NameId.full, f.fullNameIn t.language⟩ := by
  obtain ⟨languages, -, hmem, hfilter⟩ := filter_sortedTexts_full h
  have hfiltered : t ∈ f.sortedTexts ∧ t.nameId = NameId.full
      ↔ t ∈ f.sortedTexts.filter (·.nameId == NameId.full) := by
    rw [List.mem_filter, beq_iff_eq]
  rw [hfiltered, hfilter, List.mem_map, ← hmem]
  constructor
  · rintro ⟨language, hlanguage, rfl⟩
    exact ⟨hlanguage, rfl⟩
  · exact fun ⟨hlanguage, ht⟩ => ⟨t.language, hlanguage, ht.symm⟩

/-! ## Records -/

/-- Each record says its text, and has the key of it. -/
theorem forall₂_says (f : SyntheticFont) :
    List.Forall₂ (fun t r => f.writtenTable.Says r t.text ∧
        r.language = t.language.toNat ∧ r.nameId = t.nameId)
      f.sortedTexts f.writtenTable.records := by
  rw [← f.map_fst_placedTexts]
  refine List.forall₂_map_left_iff.mpr (List.forall₂_map_right_iff.mpr ?_)
  refine List.forall₂_same.mpr fun p hp => ?_
  obtain ⟨-, hencoded, -, hplace⟩ := of_mem_placedTexts hp
  rw [hencoded] at hplace
  exact ⟨⟨⟨rfl, rfl⟩, hplace, congrArg List.length hencoded⟩, rfl, rfl⟩

/-- **The records increase.** -/
theorem precedes_records (h : f.OneNameEach) :
    f.writtenTable.records.Pairwise NameRecord.Precedes := by
  have htexts := precedes_sortedTexts h
  rw [← f.map_fst_placedTexts, List.pairwise_map] at htexts
  refine List.pairwise_map.mpr (htexts.imp fun hab => ?_)
  rcases hab with hlanguage | ⟨hlanguage, hid⟩
  · exact Or.inl (UInt16.lt_iff_toNat_lt.mp hlanguage)
  · exact Or.inr ⟨congrArg UInt16.toNat hlanguage, hid⟩

/-- A record is found by its key. -/
theorem record_eq_of_key_eq (h : f.OneNameEach) {r q : NameRecord}
    (hr : r ∈ f.writtenTable.records) (hq : q ∈ f.writtenTable.records)
    (hlanguage : r.language = q.language) (hid : r.nameId = q.nameId) : r = q := by
  have hkeys : (f.writtenTable.records.map fun r => (r.language, r.nameId)).Nodup := by
    refine List.pairwise_map.mpr ((precedes_records h).imp fun hab heq => ?_)
    obtain ⟨hlanguage, hid⟩ := Prod.mk.inj heq
    rw [NameRecord.Precedes] at hab
    omega
  exact List.inj_on_of_nodup_map hkeys hr hq (Prod.ext hlanguage hid)

/-- **The records of full names**: for each language that a name was given in,
and for the fallback language, there is just one, and for no others. -/
theorem existsUnique_record_iff (h : f.OneNameEach) {language : UInt16} :
    (∃! r, r ∈ f.writtenTable.records ∧ r.language = language.toNat ∧ r.nameId = NameId.full)
      ↔ language = Language.fallbackId ∨ language ∈ f.fullNames.map Prod.fst := by
  constructor
  · rintro ⟨r, ⟨hr, hlanguage, hid⟩, -⟩
    obtain ⟨t, ht, -, htlanguage, htid⟩ := exists_left_of_mem_right f.forall₂_says hr
    obtain rfl : language = t.language :=
      UInt16.toNat_inj.mp (hlanguage.symm.trans htlanguage)
    exact ((mem_sortedTexts_full_iff h).mp ⟨ht, htid.symm.trans hid⟩).1
  · intro hlanguage
    obtain ⟨ht, -⟩ := (mem_sortedTexts_full_iff h
      (t := ⟨language, NameId.full, f.fullNameIn language⟩)).mpr ⟨hlanguage, rfl⟩
    obtain ⟨r, hr, -, hrlanguage, hrid⟩ := exists_right_of_mem_left f.forall₂_says ht
    refine ⟨r, ⟨hr, hrlanguage, hrid⟩, fun q ⟨hq, hqlanguage, hqid⟩ => ?_⟩
    exact record_eq_of_key_eq h hq hr (hqlanguage.trans hrlanguage.symm) (hqid.trans hrid.symm)

/-- The record of a full name says that name. -/
theorem says_fullNameIn (h : f.OneNameEach) {language : UInt16} {r : NameRecord}
    (hr : r ∈ f.writtenTable.records) (hlanguage : r.language = language.toNat)
    (hid : r.nameId = NameId.full) : f.writtenTable.Says r (f.fullNameIn language) := by
  obtain ⟨t, ht, hsays, htlanguage, htid⟩ := exists_left_of_mem_right f.forall₂_says hr
  obtain ⟨-, htext⟩ := (mem_sortedTexts_full_iff h).mp ⟨ht, htid.symm.trans hid⟩
  rw [htext] at hsays
  rwa [UInt16.toNat_inj.mp (hlanguage.symm.trans htlanguage)]

/-! ## Two orders -/

/-- **Orders that give the same full names**: they have a name in the same
languages, and it is the same name. -/
def SameNames (f g : SyntheticFont) : Prop :=
  ∀ language, f.fullNames.lookup language = g.fullNames.lookup language

/-- **Orders for the same metrics.** -/
structure SameMetrics (f g : SyntheticFont) : Prop where
  /-- The units per em are the same. -/
  unitsPerEm : f.unitsPerEm = g.unitsPerEm
  /-- The ascender is the same. -/
  ascender : f.ascender = g.ascender
  /-- The descender is the same. -/
  descender : f.descender = g.descender
  /-- The height of capital letters is the same. -/
  capHeight : f.capHeight = g.capHeight
  /-- The height of lower-case letters is the same, or neither has one. -/
  xHeight : f.xHeight = g.xHeight

/-- A name is there exactly if it is the one that is found. -/
theorem mem_fullNames_iff (h : f.OneNameEach) {language : UInt16} {name : String} :
    (language, name) ∈ f.fullNames ↔ f.fullNames.lookup language = some name := by
  constructor
  · exact fun hmem => lookup_of_mem h hmem
  · intro hfound
    obtain ⟨before, after, hnames, -⟩ := List.lookup_eq_some_iff.mp hfound
    rw [hnames]
    exact List.mem_append_right _ List.mem_cons_self

/-- The same names are the same entries, in some order. -/
theorem perm_fullNames (hf : f.OneNameEach) (hg : g.OneNameEach) (h : f.SameNames g) :
    f.fullNames.Perm g.fullNames := by
  refine (List.perm_ext_iff_of_nodup (hf.of_map _) (hg.of_map _)).mpr fun ⟨language, name⟩ => ?_
  rw [mem_fullNames_iff hf, mem_fullNames_iff hg, h language]

/-- So the texts are the same, in some order. -/
theorem perm_texts (hfamily : f.family = g.family) (hstyle : f.style = g.style)
    (hf : f.OneNameEach) (hg : g.OneNameEach) (h : f.SameNames g) : f.texts.Perm g.texts := by
  have hperm := perm_fullNames hf hg h
  have hown : f.ownTexts = g.ownTexts := by
    rw [ownTexts, ownTexts, postscriptName, postscriptName, hfamily, hstyle]
  have hname : f.fullName = g.fullName := by
    rw [fullName, fullName, h, hfamily, hstyle]
  rw [texts_eq, texts_eq, hown, fullTexts, fullTexts, hname, hperm.any_eq]
  exact ((hperm.map _).append_left _).append_left _

/-- And in the order of the records they are the same. -/
theorem sortedTexts_eq (hfamily : f.family = g.family) (hstyle : f.style = g.style)
    (hf : f.OneNameEach) (hg : g.OneNameEach) (h : f.SameNames g) :
    f.sortedTexts = g.sortedTexts := by
  have hperm : f.sortedTexts.Perm g.sortedTexts :=
    f.perm_sortedTexts.trans ((perm_texts hfamily hstyle hf hg h).trans g.perm_sortedTexts.symm)
  exact List.Perm.eq_of_pairwise (fun _ _ _ _ hab hba => absurd hba hab.asymm)
    (precedes_sortedTexts hf) (precedes_sortedTexts hg) hperm

/-- **What is built is a function of the names by language.** -/
theorem build_eq_of_sameNames (hfamily : f.family = g.family) (hstyle : f.style = g.style)
    (hmetrics : f.SameMetrics g) (hf : f.OneNameEach) (hg : g.OneNameEach) (h : f.SameNames g) :
    f.build = g.build := by
  have htable : f.nameTable = g.nameTable := by
    rw [nameTable, nameTable, sortedTexts_eq hfamily hstyle hf hg h]
  obtain ⟨hunits, hascender, hdescender, hcap, hx⟩ := hmetrics
  have hheight : f.boxHeight = g.boxHeight := by rw [boxHeight, boxHeight, hcap, hx]
  have hhead : f.headTable = g.headTable := by rw [headTable, headTable, hunits, hheight]
  have hhhea : f.hheaTable = g.hheaTable := by rw [hheaTable, hheaTable, hascender, hdescender]
  have hos2 : f.os2Table = g.os2Table := by
    -- The equation lemma of so long a definition is not to be had in good time.
    delta os2Table
    rw [hascender, hdescender, hcap, hx]
  rw [build, build, htable, hheight, hhead, hhhea, hos2]

/-! ## What is written for an order -/

section

variable (family style : String) (settings : List SyntheticSetting)

open SyntheticSetting

/-- **The order for a family and a style**, with settings made from the first to
the last. -/
def ordered : SyntheticFont := (ofNames family style).adjust settings

/-- Each language has one name, whatever is set. -/
theorem oneNameEach_ordered : (ordered family style settings).OneNameEach :=
  oneNameEach_adjust _ settings (oneNameEach_ofNames family style)

/-- The name found for a language is the one given last. -/
theorem lookup_fullNames_ordered (language : UInt16) :
    (ordered family style settings).fullNames.lookup language
      = lastGiven? (fullName? language) settings := by
  rw [ordered, lookup_fullNames_adjust]
  exact Option.or_none

/-- The records of full names are those of the languages that a name was given
in, and of the fallback language. -/
theorem existsUnique_record_ordered_iff (language : UInt16) :
    (∃! r, r ∈ (ordered family style settings).writtenTable.records ∧
        r.language = language.toNat ∧ r.nameId = NameId.full)
      ↔ language = Language.fallbackId ∨ ∃ name, .fullName language name ∈ settings := by
  rw [existsUnique_record_iff (oneNameEach_ordered family style settings), ordered,
    mem_languages_adjust_ofNames]

/-- **The names that are written are a function of the names given last.** An
order has each language once, with the last name given. In the table that is
written the records increase, by language and then by what they name; there is
just one full name for each language that a name was given in, and for the
fallback language; it is the last name given, and the one in the fallback
language is the full name of the order. And of two orders for the same family,
style and metrics in which the same names were given last, the same file is
built, or neither can be. -/
theorem written_names_of_lastGiven :
    ((ordered family style settings).fullNames.map Prod.fst).Nodup ∧
    (∀ language name, (language, name) ∈ (ordered family style settings).fullNames
      ↔ lastGiven? (fullName? language) settings = some name) ∧
    (∀ b, (ordered family style settings).build = .ok b → ∃ names table font,
      b = Font.assemble 0x00010000 ((ordered family style settings).tableList names) ∧
      Font.readAt b 0 = .ok font ∧ font.tables (Tag.named "name") = some names ∧
      NameTable.read? names = some table ∧
      table.records.Pairwise NameRecord.Precedes ∧
      (∀ language : UInt16,
        (∃! r, r ∈ table.records ∧ r.language = language.toNat ∧ r.nameId = NameId.full)
          ↔ language = Language.fallbackId ∨ ∃ name, .fullName language name ∈ settings) ∧
      (∀ r ∈ table.records, r.nameId = NameId.full → ∀ language : UInt16,
        r.language = language.toNat → table.Says r
          ((lastGiven? (fullName? language) settings).getD (family ++ " " ++ style))) ∧
      ∃ r ∈ table.records, r.language = 0x0409 ∧ r.nameId = NameId.full ∧
        table.Says r (ordered family style settings).fullName ∧
        table.string r = (ordered family style settings).fullName) ∧
    ∀ settings', (ordered family style settings).SameMetrics (ordered family style settings') →
      (∀ language, lastGiven? (fullName? language) settings
        = lastGiven? (fullName? language) settings') →
      (ordered family style settings).build = (ordered family style settings').build := by
  have heach := oneNameEach_ordered family style settings
  refine ⟨heach, fun language name => ?_, fun b hbuild => ?_, fun settings' hmetrics hsame => ?_⟩
  · rw [mem_fullNames_iff heach, lookup_fullNames_ordered]
  · obtain ⟨names, hnames, hb⟩ := of_build_eq_ok hbuild
    obtain ⟨font, hread, -, names', hnames', hname, -⟩ := tables_of_build hbuild
    obtain rfl : names = names' := Except.ok.inj (hnames.symm.trans hnames')
    have hrecord := existsUnique_record_ordered_iff family style settings
    refine ⟨names, (ordered family style settings).writtenTable, font, hb, hread, hname,
      read?_nameTable hnames, precedes_records heach, hrecord,
      fun r hr hid language hlanguage => ?_, ?_⟩
    · rw [← fullNameIn_adjust_ofNames]
      exact says_fullNameIn heach hr hlanguage hid
    · obtain ⟨r, ⟨hr, hlanguage, hid⟩, -⟩ := (hrecord Language.fallbackId).mpr (Or.inl rfl)
      have hsays := says_fullNameIn heach hr hlanguage hid
      exact ⟨r, hr, hlanguage, hid, hsays, hsays.string_eq⟩
  · refine build_eq_of_sameNames ?_ ?_ hmetrics heach (oneNameEach_ordered ..) ?_
    · rw [ordered, ordered, family_adjust, family_adjust]
    · rw [ordered, ordered, style_adjust, style_adjust]
    · intro language
      rw [lookup_fullNames_ordered, lookup_fullNames_ordered, hsame]

end

/-- A German name is replaced behind an English one, or is given once and before
it: the lists of names differ, and the files do not. -/
theorem written_names_of_lastGiven_of_replaced_name :
    ∃ (replaced once : SyntheticFont) (b : Bytes),
      replaced = ordered "F" "S"
        [.fullName 0x0409 "B", .fullName 0x0407 "A", .fullName 0x0407 "C"] ∧
      once = ordered "F" "S" [.fullName 0x0407 "C", .fullName 0x0409 "B"] ∧
      replaced.fullNames ≠ once.fullNames ∧ replaced.build = .ok b ∧ once.build = .ok b := by
  let settings : List SyntheticSetting :=
    [.fullName 0x0409 "B", .fullName 0x0407 "A", .fullName 0x0407 "C"]
  let settings' : List SyntheticSetting := [.fullName 0x0407 "C", .fullName 0x0409 "B"]
  have hsame : ∀ language, SyntheticSetting.lastGiven? (SyntheticSetting.fullName? language) settings
      = SyntheticSetting.lastGiven? (SyntheticSetting.fullName? language) settings' := by
    intro language
    by_cases hgerman : 0x0407 = language
    · subst hgerman
      decide
    · by_cases henglish : 0x0409 = language
      · subst henglish
        decide
      · simp [SyntheticSetting.lastGiven?, SyntheticSetting.fullName?, settings, settings', hgerman,
          henglish]
  obtain ⟨b, hb⟩ : ∃ b, (ordered "F" "S" settings).build = .ok b :=
    exists_build (by decide +kernel) (by decide +kernel)
  obtain ⟨-, -, -, hbuild⟩ := written_names_of_lastGiven "F" "S" settings
  exact ⟨_, _, b, rfl, rfl, by decide +kernel, hb,
    (hbuild settings' ⟨rfl, rfl, rfl, rfl, rfl⟩ hsame).symm.trans hb⟩

end SyntheticFont

end FontCatalog
