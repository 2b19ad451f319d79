import FontCatalog.Face
import FontCatalog.Proofs.RelatedLists
import FontCatalog.Proofs.SyntheticOrders
import FontCatalog.Proofs.WrittenData
import FontCatalog.Synthetic.NameTable
import Mathlib.Data.List.Perm.Basic

/-!
# The names of a synthetic font, read back

The texts of a synthetic font are written into a `name` table and read
from it again: `SyntheticFont.strings_of_nameTable` says that reading the
table gives, for each name id, the texts with that id in the order of the
records, each with the tag of its language.

What carries that is the pool. A text is kept once, so a record may
point at bytes that were written for another record, and the pool still
grows while the records are laid out. `TextPool.Sound` says that every
text the pool has noted lies where it noted; keeping a text preserves it
and only adds bytes at the end, so a place once given stays good.

Which texts there are is the other half. The records are sorted by
language first, so for one name id they come in the order of their
languages, and each language has one full name
(`SyntheticFont.filter_sortedTexts_full`). Together, a font with the table
is called what its order says, in every language
(`SyntheticFont.fullNames_eq`).
-/

namespace FontCatalog

/-! ## The pool of texts -/

namespace TextPool

/-- **Every text of the pool lies where it was noted.** -/
def Sound (p : TextPool) : Prop :=
  ∀ b start, (b, start) ∈ p.places → p.storage.slice? start b.length = some b

theorem sound_empty : Sound empty := fun _ _ h => by cases h

/-- Keeping a text adds bytes at the end of the pool, or none, and gives a
place where the text lies. -/
theorem keep_spec {p : TextPool} (hp : p.Sound) (b : Bytes) :
    (p.keep b).2.Sound ∧ p.storage <+: (p.keep b).2.storage ∧
      (p.keep b).2.storage.slice? (p.keep b).1 b.length = some b := by
  unfold keep
  split
  · next start hfound =>
    obtain ⟨before, after, hplaces, -⟩ := List.lookup_eq_some_iff.mp hfound
    refine ⟨hp, List.prefix_refl _, hp b start ?_⟩
    rw [hplaces]
    exact List.mem_append_right _ (List.mem_cons_self ..)
  · have hnew : (p.storage ++ b).slice? p.storage.length b.length = some b := by
      have h := Bytes.slice?_append p.storage b []
      rwa [List.append_nil] at h
    refine ⟨fun c start hc => ?_, List.prefix_append _ _, hnew⟩
    rcases List.mem_cons.mp hc with heq | hc
    · obtain ⟨rfl, rfl⟩ := Prod.mk.inj heq
      exact hnew
    · exact Bytes.slice?_of_prefix (List.prefix_append _ _) (hp c start hc)

/-- **Every kept text lies at the place given for it**, in the pool with
all of them. -/
theorem keepAll_spec {p : TextPool} (hp : p.Sound) (bs : List Bytes) :
    (p.keepAll bs).2.Sound ∧ p.storage <+: (p.keepAll bs).2.storage ∧
      List.Forall₂ (fun (b : Bytes) start =>
        (p.keepAll bs).2.storage.slice? start b.length = some b) bs (p.keepAll bs).1 := by
  induction bs generalizing p with
  | nil => exact ⟨hp, List.prefix_refl _, List.Forall₂.nil⟩
  | cons b bs ih =>
    obtain ⟨hsound, hprefix, hfirst⟩ := keep_spec hp b
    obtain ⟨hsound', hprefix', hrest⟩ := ih hsound
    refine ⟨hsound', hprefix.trans hprefix', ?_⟩
    exact List.Forall₂.cons (Bytes.slice?_of_prefix hprefix' hfirst) hrest

/-- A pool whose places and whose texts are short is not long. -/
theorem length_storage_keepAll_le {p : TextPool} {bs : List Bytes} {limit width : Nat}
    (hplaces : ∀ start ∈ (p.keepAll bs).1, start ≤ limit)
    (hwidth : ∀ b ∈ bs, b.length ≤ width) :
    (p.keepAll bs).2.storage.length ≤ max p.storage.length (limit + width) := by
  induction bs generalizing p with
  | nil => exact Nat.le_max_left _ _
  | cons b bs ih =>
    have hfirst : (p.keep b).2.storage.length ≤ max p.storage.length (limit + width) := by
      have hplace : (p.keep b).1 ≤ limit := hplaces _ (List.mem_cons_self ..)
      have hb : b.length ≤ width := hwidth b (List.mem_cons_self ..)
      unfold keep at hplace ⊢
      split
      · exact Nat.le_max_left _ _
      · next hnone =>
        rw [hnone] at hplace
        dsimp only at hplace ⊢
        rw [List.length_append]
        omega
    have hrest := ih (p := (p.keep b).2)
      (fun start hstart => hplaces start (List.mem_cons_of_mem _ hstart))
      (fun c hc => hwidth c (List.mem_cons_of_mem _ hc))
    show ((p.keep b).2.keepAll bs).2.storage.length ≤ _
    omega

/-- A pool is not longer than the texts that were kept in it. -/
theorem length_storage_keepAll_le_flatten (p : TextPool) (bs : List Bytes) :
    (p.keepAll bs).2.storage.length ≤ p.storage.length + bs.flatten.length := by
  induction bs generalizing p with
  | nil => exact Nat.le_refl _
  | cons b bs ih =>
    have hfirst : (p.keep b).2.storage.length ≤ p.storage.length + b.length := by
      unfold keep
      split
      · exact Nat.le_add_right _ _
      · exact Nat.le_of_eq List.length_append
    have hrest := ih (p.keep b).2
    rw [List.flatten_cons, List.length_append]
    show ((p.keep b).2.keepAll bs).2.storage.length ≤ _
    omega

end TextPool

/-! ## Which texts there are -/

namespace NameText

theorem le_iff {a b : NameText} :
    a.le b = true ↔ a.language < b.language ∨ a.language = b.language ∧ a.nameId ≤ b.nameId := by
  rw [le, Bool.or_eq_true, decide_eq_true_iff, Bool.and_eq_true, beq_iff_eq, decide_eq_true_iff]

theorem le_trans (a b c : NameText) (hab : a.le b = true) (hbc : b.le c = true) :
    a.le c = true := by
  rw [le_iff] at *
  simp only [UInt16.lt_iff_toNat_lt, ← UInt16.toNat_inj] at *
  omega

theorem le_total (a b : NameText) : (a.le b || b.le a) = true := by
  rw [Bool.or_eq_true, le_iff, le_iff]
  simp only [UInt16.lt_iff_toNat_lt, ← UInt16.toNat_inj]
  omega

end NameText

namespace SyntheticFont

variable {f : SyntheticFont}

/-- Every text has a record. -/
theorem perm_sortedTexts (f : SyntheticFont) : f.sortedTexts.Perm f.texts :=
  List.mergeSort_perm f.texts NameText.le

theorem mem_sortedTexts {t : NameText} : t ∈ f.sortedTexts ↔ t ∈ f.texts :=
  f.perm_sortedTexts.mem_iff

/-- The records are in their order. -/
theorem pairwise_sortedTexts (f : SyntheticFont) :
    f.sortedTexts.Pairwise fun a b => a.le b = true :=
  List.pairwise_mergeSort NameText.le_trans NameText.le_total f.texts

/-- Sorting does not change which texts have a name id. -/
theorem filter_sortedTexts_perm (f : SyntheticFont) (nameId : Nat) :
    (f.sortedTexts.filter (·.nameId == nameId)).Perm (f.texts.filter (·.nameId == nameId)) :=
  f.perm_sortedTexts.filter _

/-- The texts that every font has one of. -/
def ownTexts (f : SyntheticFont) : List NameText :=
  [⟨Language.fallbackId, NameId.family, f.family⟩,
   ⟨Language.fallbackId, NameId.subfamily, f.style⟩,
   ⟨Language.fallbackId, NameId.postscript, f.postscriptName⟩]

/-- The full names, one for each language. -/
def fullTexts (f : SyntheticFont) : List NameText :=
  (if f.fullNames.any (·.1 == Language.fallbackId) then []
    else [⟨Language.fallbackId, NameId.full, f.fullName⟩])
  ++ f.fullNames.map fun (language, name) => ⟨language, NameId.full, name⟩

theorem texts_eq (f : SyntheticFont) : f.texts = f.ownTexts ++ f.fullTexts :=
  List.append_assoc ..

/-- The languages that there is a full name in. -/
theorem mem_languages_fullTexts {language : UInt16} :
    language ∈ f.fullTexts.map NameText.language
      ↔ language = Language.fallbackId ∨ language ∈ f.fullNames.map Prod.fst := by
  have hgiven : f.fullNames.any (·.1 == Language.fallbackId) = true
      ↔ Language.fallbackId ∈ f.fullNames.map Prod.fst := by
    rw [List.any_eq_true, List.mem_map]
    simp only [beq_iff_eq]
  rw [fullTexts, List.map_append, List.mem_append, List.map_map]
  refine or_congr_left' fun hother => ?_
  split
  · next h =>
    refine iff_of_false List.not_mem_nil fun heq => hother ?_
    rw [heq]
    exact hgiven.mp h
  · exact List.mem_singleton

/-- A full text is a full name. -/
theorem nameId_of_mem_fullTexts {t : NameText} (ht : t ∈ f.fullTexts) :
    t.nameId = NameId.full := by
  rcases List.mem_append.mp ht with ht | ht
  · split at ht
    · cases ht
    · rw [List.mem_singleton.mp ht]
  · obtain ⟨p, -, rfl⟩ := List.mem_map.mp ht
    rfl

/-- Each language has one full name. -/
theorem nodup_languages_fullTexts (h : f.OneNameEach) :
    (f.fullTexts.map NameText.language).Nodup := by
  have hnames : (f.fullNames.map fun p : UInt16 × String =>
      NameText.mk p.1 NameId.full p.2).map NameText.language = f.fullNames.map Prod.fst :=
    List.map_map
  rw [fullTexts, List.map_append, hnames]
  refine List.Nodup.append ?_ h ?_
  · split
    · exact List.nodup_nil
    · exact List.nodup_singleton _
  · split
    · exact List.disjoint_nil_left _
    · next hnone =>
      rw [List.map_singleton, List.singleton_disjoint]
      intro hmem
      obtain ⟨p, hp, heq⟩ := List.mem_map.mp hmem
      exact hnone (List.any_eq_true.mpr ⟨p, hp, beq_iff_eq.mpr heq⟩)

/-- **The full name in a language**: the one that was given, or else the
composed one. -/
def fullNameIn (f : SyntheticFont) (language : UInt16) : String :=
  (f.fullNames.lookup language).getD (f.family ++ " " ++ f.style)

/-- A full text is the full name in its language. -/
theorem eq_of_mem_fullTexts (h : f.OneNameEach) {t : NameText} (ht : t ∈ f.fullTexts) :
    t = ⟨t.language, NameId.full, f.fullNameIn t.language⟩ := by
  rcases List.mem_append.mp ht with ht | ht
  · split at ht
    · cases ht
    · rw [List.mem_singleton.mp ht]
      rfl
  · obtain ⟨p, hp, rfl⟩ := List.mem_map.mp ht
    rw [fullNameIn, lookup_of_mem h hp]
    rfl

/-- A name id other than that of full names has the texts it has in every
font. -/
theorem filter_sortedTexts_of_ne (f : SyntheticFont) {nameId : Nat} (h : nameId ≠ NameId.full) :
    (f.sortedTexts.filter (·.nameId == nameId)).Perm
      (f.ownTexts.filter (·.nameId == nameId)) := by
  have hfull : f.fullTexts.filter (·.nameId == nameId) = [] := by
    refine List.filter_eq_nil_iff.mpr fun t ht => ?_
    rw [nameId_of_mem_fullTexts ht, beq_iff_eq]
    exact h.symm
  have hperm := f.filter_sortedTexts_perm nameId
  rwa [texts_eq, List.filter_append, hfull, List.append_nil] at hperm

/-- **The full names in the order of the records**: one for each language
that has one, by the number of the language. -/
theorem filter_sortedTexts_full (h : f.OneNameEach) :
    ∃ languages : List UInt16, languages.Pairwise (· < ·) ∧
      (∀ language, language ∈ languages
        ↔ language = Language.fallbackId ∨ language ∈ f.fullNames.map Prod.fst) ∧
      f.sortedTexts.filter (·.nameId == NameId.full)
        = languages.map fun language => ⟨language, NameId.full, f.fullNameIn language⟩ := by
  have hperm : (f.sortedTexts.filter (·.nameId == NameId.full)).Perm f.fullTexts := by
    have hperm := f.filter_sortedTexts_perm NameId.full
    have hown : f.ownTexts.filter (·.nameId == NameId.full) = [] := rfl
    have hfull : f.fullTexts.filter (·.nameId == NameId.full) = f.fullTexts := by
      refine List.filter_eq_self.mpr fun t ht => ?_
      rw [nameId_of_mem_fullTexts ht]
      rfl
    rwa [texts_eq, List.filter_append, hown, hfull, List.nil_append] at hperm
  refine ⟨(f.sortedTexts.filter (·.nameId == NameId.full)).map NameText.language, ?_, ?_, ?_⟩
  · -- Sorted by language, and no language twice.
    have hsorted := f.pairwise_sortedTexts.filter (·.nameId == NameId.full)
    have hnodup := (hperm.map NameText.language).nodup_iff.mpr (nodup_languages_fullTexts h)
    rw [List.pairwise_map]
    refine (hsorted.and (List.pairwise_map.mp hnodup)).imp fun {a b} hab => ?_
    exact (NameText.le_iff.mp hab.1).resolve_right fun heq => hab.2 heq.1
  · intro language
    rw [(hperm.map NameText.language).mem_iff, mem_languages_fullTexts]
  · rw [List.map_map]
    refine (List.map_id _).symm.trans (List.map_congr_left fun t ht => ?_)
    exact eq_of_mem_fullTexts h (hperm.mem_iff.mp ht)

/-! ## The table -/

section

variable (f : SyntheticFont)

/-- The texts as they are written. -/
def encodedTexts : List Bytes := f.sortedTexts.map fun t => Text.Utf16.encode t.text

/-- The pool of all texts, and where each of them starts in it. -/
def pooledTexts : List Nat × TextPool := TextPool.empty.keepAll f.encodedTexts

/-- Every text with its bytes and the place of them in the pool. -/
def placedTexts : List (NameText × Bytes × Nat) :=
  f.sortedTexts.zip (f.encodedTexts.zip f.pooledTexts.1)

/-- **Every text of the font is short enough for its record.** -/
def ShortTexts : Prop := ∀ t ∈ f.texts, (Text.Utf16.encode t.text).length ≤ 65535

/-- The record that is written for a text. -/
def recordOf (p : NameText × Bytes × Nat) : NameRecord :=
  ⟨3, 1, p.1.language.toNat, p.1.nameId, p.2.1.length, p.2.2⟩

end

/-- The lengths of all texts can be reckoned if the texts are short. -/
theorem any_encodedTexts_eq_false_iff :
    f.encodedTexts.any (0x10000 ≤ ·.length) = false ↔ f.ShortTexts := by
  rw [List.any_eq_false, encodedTexts, List.forall_mem_map]
  refine forall_congr' fun t => ?_
  rw [mem_sortedTexts, decide_eq_true_iff, Nat.not_le, Nat.lt_succ_iff]

/-- **The bytes of the `name` table**: a header, the records and the pool;
and that it could be written says that every length and every place has
sixteen bits. -/
theorem of_nameTable_eq_ok {b : Bytes} (h : f.nameTable = .ok b) :
    f.ShortTexts ∧ 6 + 12 * f.sortedTexts.length < 65536 ∧
      (∀ start ∈ f.pooledTexts.1, start < 65536) ∧
      b = (Bytes.be16 0 ++ Bytes.be16 f.sortedTexts.length
            ++ Bytes.be16 (6 + 12 * f.sortedTexts.length))
        ++ ((f.placedTexts.flatMap fun p => nameRecord p.1 p.2.1.length p.2.2)
          ++ f.pooledTexts.2.storage) := by
  change (if f.encodedTexts.any (0x10000 ≤ ·.length) then Except.error BuildError.overflow
    else if 6 + 12 * f.sortedTexts.length < 65536 ∧ f.pooledTexts.1.all (· < 65536) then
      .ok (_ ++ _ ++ _ ++ (f.placedTexts.flatMap fun p => nameRecord p.1 p.2.1.length p.2.2)
        ++ f.pooledTexts.2.storage)
    else .error BuildError.namesTooLong) = .ok b at h
  split at h
  · cases h
  · next hshort =>
    split at h
    · next hfits =>
      refine ⟨any_encodedTexts_eq_false_iff.mp (Bool.eq_false_iff.mpr hshort), hfits.1,
        fun start hstart => ?_, ?_⟩
      · exact of_decide_eq_true (List.all_eq_true.mp hfits.2 start hstart)
      · rw [← Except.ok.inj h]
        simp only [List.append_assoc]
    · cases h

/-- **Writing breaks off exactly at a text that is too long** for its record,
whatever else does not fit. -/
theorem nameTable_eq_overflow_iff :
    f.nameTable = .error .overflow ↔ ∃ t ∈ f.texts, 65535 < (Text.Utf16.encode t.text).length := by
  have hlong : f.encodedTexts.any (0x10000 ≤ ·.length) = true
      ↔ ∃ t ∈ f.texts, 65535 < (Text.Utf16.encode t.text).length := by
    rw [← Bool.not_eq_false, any_encodedTexts_eq_false_iff, ShortTexts]
    simp only [not_forall, Nat.not_le, exists_prop]
  rw [← hlong]
  constructor
  · intro h
    by_contra hshort
    change (if f.encodedTexts.any (0x10000 ≤ ·.length) then Except.error BuildError.overflow
      else if _ then .ok _ else .error BuildError.namesTooLong) = .error BuildError.overflow at h
    rw [if_neg hshort] at h
    split at h <;> cases h
  · exact fun hany => if_pos hany

/-- The texts, their bytes and the places of these go together. -/
theorem forall₂_placedTexts (f : SyntheticFont) :
    List.Forall₂ (fun (t : NameText) (q : Bytes × Nat) => q.1 = Text.Utf16.encode t.text ∧
        f.pooledTexts.2.storage.slice? q.2 q.1.length = some q.1)
      f.sortedTexts (f.encodedTexts.zip f.pooledTexts.1) := by
  have hencoded : List.Forall₂ (fun (t : NameText) b => b = Text.Utf16.encode t.text)
      f.sortedTexts f.encodedTexts := by
    rw [encodedTexts, List.forall₂_map_right_iff, List.forall₂_same]
    exact fun _ _ => rfl
  exact forall₂_zip_of_forall₂ hencoded
    (TextPool.keepAll_spec TextPool.sound_empty f.encodedTexts).2.2

/-- What is certain of a placed text: its bytes are the encoded text, and
they lie at its place. -/
theorem of_mem_placedTexts {p : NameText × Bytes × Nat} (hp : p ∈ f.placedTexts) :
    p.1 ∈ f.texts ∧ p.2.1 = Text.Utf16.encode p.1.text ∧ p.2.2 ∈ f.pooledTexts.1 ∧
      f.pooledTexts.2.storage.slice? p.2.2 p.2.1.length = some p.2.1 := by
  obtain ⟨htext, hq⟩ := List.of_mem_zip hp
  obtain ⟨hencoded, hslice⟩ := List.forall₂_zip f.forall₂_placedTexts hp
  exact ⟨mem_sortedTexts.mp htext, hencoded, (List.of_mem_zip hq).2, hslice⟩

/-- Texts that are short together are short. -/
theorem shortTexts_of_length_lt
    (htexts : (f.texts.flatMap fun t => Text.Utf16.encode t.text).length < 65536) :
    f.ShortTexts := by
  intro t ht
  obtain ⟨before, after, hsplit⟩ := List.append_of_mem ht
  rw [hsplit, List.flatMap_append, List.flatMap_cons, List.length_append,
    List.length_append] at htexts
  omega

/-- **Texts that are short together can be written.** -/
theorem exists_nameTable (hcount : 6 + 12 * f.texts.length < 65536)
    (htexts : (f.texts.flatMap fun t => Text.Utf16.encode t.text).length < 65536) :
    ∃ b, f.nameTable = .ok b := by
  have hshort : ¬f.encodedTexts.any (0x10000 ≤ ·.length) = true :=
    Bool.eq_false_iff.mp (any_encodedTexts_eq_false_iff.mpr (shortTexts_of_length_lt htexts))
  have hencoded : f.encodedTexts.flatten.length < 65536 := by
    rw [← (f.perm_sortedTexts.flatMap_right _).length_eq] at htexts
    rwa [encodedTexts, ← List.flatMap_def]
  have hstarts : ∀ start ∈ f.pooledTexts.1, start < 65536 := by
    intro start hstart
    obtain ⟨b, -, hslice⟩ := exists_left_of_mem_right
      (TextPool.keepAll_spec TextPool.sound_empty f.encodedTexts).2.2 hstart
    have hend := Bytes.add_le_length_of_slice?_eq_some hslice
    have hpool := TextPool.length_storage_keepAll_le_flatten TextPool.empty f.encodedTexts
    have hempty : TextPool.empty.storage.length = 0 := rfl
    omega
  have hfits : 6 + 12 * f.sortedTexts.length < 65536 ∧ f.pooledTexts.1.all (· < 65536) = true :=
    ⟨by rwa [f.perm_sortedTexts.length_eq], List.all_eq_true.mpr fun start hstart =>
      decide_eq_true (hstarts start hstart)⟩
  exact ⟨_, (if_neg hshort).trans (if_pos hfits)⟩

/-- There is one place for each text. -/
theorem map_fst_placedTexts (f : SyntheticFont) :
    f.placedTexts.map Prod.fst = f.sortedTexts :=
  List.map_fst_zip (Nat.le_of_eq f.forall₂_placedTexts.length_eq)

theorem length_placedTexts (f : SyntheticFont) :
    f.placedTexts.length = f.sortedTexts.length := by
  rw [← f.map_fst_placedTexts, List.length_map]

/-- The name ids of a synthetic font fit their fields. -/
theorem nameId_lt_of_mem_texts {t : NameText} (h : t ∈ f.texts) : t.nameId < 65536 := by
  rw [texts_eq] at h
  rcases List.mem_append.mp h with h | h
  · have hown : ∀ t ∈ f.ownTexts, t.nameId < 65536 := by
      simp [ownTexts, NameId.family, NameId.subfamily, NameId.postscript]
    exact hown t h
  · rw [nameId_of_mem_fullTexts h]
    decide

/-- A written record reads back. -/
theorem read?_nameRecord {t : NameText} {length start : Nat} (hid : t.nameId < 65536)
    (hlength : length < 65536) (hstart : start < 65536) :
    NameRecord.read? (nameRecord t length start)
      = some ⟨3, 1, t.language.toNat, t.nameId, length, start⟩ := by
  have hplatform : (nameRecord t length start).u16? 0 = some (3 % 65536) :=
    Bytes.u16?_of_drop rfl
  have hencoding : (nameRecord t length start).u16? 2 = some (1 % 65536) :=
    Bytes.u16?_of_drop rfl
  have hlanguage : (nameRecord t length start).u16? 4 = some (t.language.toNat % 65536) :=
    Bytes.u16?_of_drop rfl
  have hid? : (nameRecord t length start).u16? 6 = some (t.nameId % 65536) :=
    Bytes.u16?_of_drop rfl
  have hlength? : (nameRecord t length start).u16? 8 = some (length % 65536) :=
    Bytes.u16?_of_drop rfl
  have hstart? : (nameRecord t length start).u16? 10 = some (start % 65536) :=
    Bytes.u16?_of_drop
      (show (nameRecord t length start).drop 10 = Bytes.be16 start ++ [] from rfl)
  rw [Nat.mod_eq_of_lt t.language.toNat_lt] at hlanguage
  rw [Nat.mod_eq_of_lt hid] at hid?
  rw [Nat.mod_eq_of_lt hlength] at hlength?
  rw [Nat.mod_eq_of_lt hstart] at hstart?
  rw [NameRecord.read?, hplatform, hencoding, hlanguage, hid?, hlength?, hstart?]
  rfl

/-- The table as it is read: its records, and the pool of all texts. -/
def writtenTable (f : SyntheticFont) : NameTable :=
  ⟨0, f.placedTexts.map recordOf, [], f.pooledTexts.2.storage⟩

/-- **The written table reads back** as its records and its pool. -/
theorem read?_nameTable {b : Bytes} (h : f.nameTable = .ok b) :
    NameTable.read? b = some f.writtenTable := by
  obtain ⟨hshort, hcount, hstarts, hb⟩ := of_nameTable_eq_ok h
  have hversion : b.u16? 0 = some 0 := by
    rw [hb, Bytes.u16?_of_drop (n := 0) rfl]
  have hcount? : b.u16? 2 = some f.sortedTexts.length := by
    rw [hb, Bytes.u16?_of_drop (n := f.sortedTexts.length) rfl, Nat.mod_eq_of_lt (by omega)]
  have hstorage? : b.u16? 4 = some (6 + 12 * f.sortedTexts.length) := by
    rw [hb, Bytes.u16?_of_drop (n := 6 + 12 * f.sortedTexts.length) rfl, Nat.mod_eq_of_lt hcount]
  have hwidth : ∀ p : NameText × Bytes × Nat,
      (nameRecord p.1 p.2.1.length p.2.2).length = 12 := fun _ => rfl
  have hrecords? : b.records? 6 12 f.sortedTexts.length
      = some (f.placedTexts.map fun p => nameRecord p.1 p.2.1.length p.2.2) := by
    rw [hb, ← f.length_placedTexts]
    exact Bytes.records?_flatMap hwidth f.placedTexts _ _
  have hread : (f.placedTexts.map fun p => nameRecord p.1 p.2.1.length p.2.2).mapM
      NameRecord.read? = some (f.placedTexts.map recordOf) := by
    refine Bytes.mapM_read_map_encode recordOf fun p hp => ?_
    obtain ⟨htext, hencoded, hplace, -⟩ := of_mem_placedTexts hp
    have hlength := hshort p.1 htext
    rw [← hencoded] at hlength
    exact read?_nameRecord (nameId_lt_of_mem_texts htext) (Nat.lt_succ_of_le hlength)
      (hstarts _ hplace)
  have hdrop : b.drop (6 + 12 * f.sortedTexts.length) = f.pooledTexts.2.storage := by
    rw [hb, ← List.append_assoc]
    refine List.drop_left' ?_
    rw [List.length_append, Bytes.length_flatMap_of_width hwidth, f.length_placedTexts]
    rfl
  rw [NameTable.read?, hversion, hcount?, hstorage?]
  simp only [Option.bind_eq_bind, Option.bind_some, hrecords?, hread, hdrop, if_true,
    Option.pure_def]
  rfl

/-- **The texts that are read from the table** are, for each name id, the
texts with that id in the order of the records. -/
theorem strings_of_nameTable {b : Bytes} (h : f.nameTable = .ok b) (nameId : Nat) :
    ((NameTable.read? b).map (·.strings nameId))
      = some ((f.sortedTexts.filter (·.nameId == nameId)).map fun t =>
          ⟨Language.tag? t.language.toNat, t.text⟩) := by
  rw [read?_nameTable h, Option.map_some, NameTable.strings, writtenTable, List.filter_map,
    List.map_map, ← f.map_fst_placedTexts, List.filter_map, List.map_map]
  refine congrArg some (List.map_congr_left fun p hp => ?_)
  obtain ⟨-, hencoded, -, hslice⟩ := of_mem_placedTexts (List.mem_of_mem_filter hp)
  have hstring : f.writtenTable.string (recordOf p) = p.1.text := by
    show ((f.pooledTexts.2.storage.slice? p.2.2 p.2.1.length).map Text.Utf16.decode).getD "" = _
    rw [hslice, hencoded]
    exact Text.Utf16.decode_encode _
  exact congrArg (LocalizedName.mk (Language.tag? p.1.language.toNat)) hstring

/-! ## What is read from a font with the table -/

end SyntheticFont

/-- Only the fallback language has its tag. -/
theorem Language.eq_fallbackId_of_tag?_eq {language : UInt16}
    (h : tag? language.toNat = some fallback) : language = fallbackId := by
  have honly : ∀ entry ∈ numbered, entry.2 = fallback → entry.1 = fallbackId.toNat := by
    decide +kernel
  obtain ⟨before, after, hnumbered, -⟩ := List.lookup_eq_some_iff.mp h
  have hmem : (language.toNat, fallback) ∈ numbered := by
    rw [hnumbered]
    exact List.mem_append_right _ (List.mem_cons_self ..)
  exact UInt16.toNat_inj.mp (honly _ hmem rfl)

namespace SyntheticFont

variable {f : SyntheticFont}

/-- The name of a text, as a font says it. -/
def localized (language : UInt16) (text : String) : LocalizedName :=
  ⟨Language.tag? language.toNat, text⟩

/-- The most English of names in different languages is the one in the
fallback language. -/
theorem english?_localized {languages : List UInt16} (h : Language.fallbackId ∈ languages)
    (name : UInt16 → String) :
    LocalizedName.english? (languages.map fun language => localized language (name language))
      = some ⟨some Language.fallback, name Language.fallbackId⟩ := by
  have hfallback : (languages.map fun language => localized language (name language)).find?
      (·.language == some Language.fallback)
        = some ⟨some Language.fallback, name Language.fallbackId⟩ := by
    rw [List.find?_map]
    have hthere : ∃ language ∈ languages, ((·.language == some Language.fallback) ∘
        fun language => localized language (name language)) language = true := by
      refine ⟨Language.fallbackId, h, ?_⟩
      rw [Function.comp_apply, localized, Language.tag?_fallbackId, beq_self_eq_true]
    obtain ⟨found, hfound⟩ := Option.isSome_iff_exists.mp (List.find?_isSome.mpr hthere)
    have htag := List.find?_some hfound
    rw [Function.comp_apply, localized, beq_iff_eq] at htag
    rw [hfound, Language.eq_fallbackId_of_tag?_eq htag, Option.map_some, localized,
      Language.tag?_fallbackId]
  rw [LocalizedName.english?, hfallback, Option.some_or]

section Tables

variable {tables : Tables} {b : Bytes}

/-- The names with one name id. -/
theorem strings_eq (htable : f.nameTable = .ok b)
    (hname : tables (Tag.named "name") = some b) (nameId : Nat) :
    tables.strings nameId
      = (f.sortedTexts.filter (·.nameId == nameId)).map fun t => localized t.language t.text := by
  obtain ⟨t, ht, hstrings⟩ := Option.map_eq_some_iff.mp (strings_of_nameTable htable nameId)
  rw [Tables.strings, hname, Option.bind_some, ht]
  exact hstrings

/-- **There is one family name.** -/
theorem familyNames_eq (htable : f.nameTable = .ok b)
    (hname : tables (Tag.named "name") = some b) :
    tables.familyNames = [⟨some Language.fallback, f.family⟩] := by
  have htypographic : f.sortedTexts.filter (·.nameId == NameId.typographicFamily) = [] :=
    List.perm_nil.mp (f.filter_sortedTexts_of_ne (by decide))
  have hfamily : f.sortedTexts.filter (·.nameId == NameId.family)
      = [⟨Language.fallbackId, NameId.family, f.family⟩] :=
    List.perm_singleton.mp (f.filter_sortedTexts_of_ne (by decide))
  rw [Tables.familyNames, strings_eq htable hname, strings_eq htable hname,
    htypographic, hfamily, List.map_nil, List.map_singleton, localized,
    Language.tag?_fallbackId]

/-- **There is one name for page descriptions.** -/
theorem postscriptNames_eq (htable : f.nameTable = .ok b)
    (hname : tables (Tag.named "name") = some b) :
    tables.strings NameId.postscript = [⟨some Language.fallback, f.postscriptName⟩] := by
  have hpostscript : f.sortedTexts.filter (·.nameId == NameId.postscript)
      = [⟨Language.fallbackId, NameId.postscript, f.postscriptName⟩] :=
    List.perm_singleton.mp (f.filter_sortedTexts_of_ne (by decide))
  rw [strings_eq htable hname, hpostscript, List.map_singleton, localized,
    Language.tag?_fallbackId]

/-- **There is one full name for each language**, and a face takes the one
in the fallback language. -/
theorem fullNames_eq (htable : f.nameTable = .ok b)
    (hname : tables (Tag.named "name") = some b) (heach : f.OneNameEach) :
    ∃ languages : List UInt16, languages.Pairwise (· < ·) ∧
      (∀ language, language ∈ languages
        ↔ language = Language.fallbackId ∨ language ∈ f.fullNames.map Prod.fst) ∧
      tables.strings NameId.full
        = languages.map (fun language => localized language (f.fullNameIn language)) ∧
      tables.statedFullName = some f.fullName := by
  obtain ⟨languages, hsorted, hmem, hfilter⟩ := filter_sortedTexts_full heach
  have hnames : tables.strings NameId.full
      = languages.map fun language => localized language (f.fullNameIn language) := by
    rw [strings_eq htable hname, hfilter, List.map_map]
    rfl
  refine ⟨languages, hsorted, hmem, hnames, ?_⟩
  rw [Tables.statedFullName, hnames,
    english?_localized ((hmem Language.fallbackId).mpr (Or.inl rfl))]
  rfl

end Tables

end SyntheticFont

end FontCatalog
