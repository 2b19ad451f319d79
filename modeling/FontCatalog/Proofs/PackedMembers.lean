import FontCatalog.Proofs.Collections
import FontCatalog.Proofs.TableSearch
import Mathlib.Algebra.Ring.Nat

/-!
# What a collection keeps of its members

Packing fonts reads each of them and writes it anew in another place. What
may be asked of the result is of two kinds.

What is kept: a copy has the version of its font, and under every tag the
table of its font or none where the font has none. The directory of the copy
is that of the font without the records that no data belongs to, as long as
tags tell records apart (`Font.KeptIn`).

Where it lies: the bodies of all members are one body, as if all tables were
tables of one font (`Font.flatten_placeMembers`). So the regions of all
tables follow one another from the end of the directories to the end of the
file, with nothing between them but the zeros that bring the next one to a
multiple of four (`Layout.Tiles`), and that is enough for no two of them to
meet.

`Font.pack_keeps_members` says both of every collection that is written. Of
what is not, it says when that is for want of a font: where there are no files
at all, and where a file is not a font, with the error of the first such file.
-/

namespace FontCatalog

/-! ## Regions that follow one another -/

namespace Layout

/-- **Regions that fill data** from a position to its end: they follow one
another, with at most three zeros behind each. -/
inductive Tiles (data : Bytes) : Nat → List TableRecord → Prop where
  /-- The end of the data is reached. -/
  | nil : Tiles data data.length []
  /-- A region, the zeros behind it, and the regions that follow. -/
  | cons {r : TableRecord} {rs : List TableRecord} {gap : Nat} : gap ≤ 3 →
    data.slice? (r.offset + r.length) gap = some (Bytes.zeros gap) →
    Tiles data (r.offset + r.length + gap) rs → Tiles data r.offset (r :: rs)

variable {data : Bytes} {start : Nat} {rs : List TableRecord} {ts us : List TableData}

/-- No region starts before the first. -/
theorem Tiles.le_offset (h : Tiles data start rs) : ∀ r ∈ rs, start ≤ r.offset := by
  induction h with
  | nil => exact fun _ hr => absurd hr List.not_mem_nil
  | cons _ _ _ ih =>
    refine List.forall_mem_cons.mpr ⟨Nat.le_refl _, fun s hs => ?_⟩
    have hrest := ih s hs
    omega

/-- **Regions that follow one another do not meet.** -/
theorem Tiles.pairwise (h : Tiles data start rs) :
    rs.Pairwise fun r s => r.offset + r.length ≤ s.offset := by
  induction h with
  | nil => exact List.Pairwise.nil
  | cons _ _ hrest ih =>
    refine List.pairwise_cons.mpr ⟨fun s hs => ?_, ih⟩
    have hoffset := hrest.le_offset s hs
    omega

/-- **Placed tables follow one another.** -/
theorem tiles_place {before : Bytes} (hdata : data = before ++ body ts) :
    Tiles data before.length (place before.length ts) := by
  induction ts generalizing before with
  | nil =>
    have hend : before.length = data.length := by rw [hdata, body, List.flatMap_nil, List.append_nil]
    rw [place, hend]
    exact Tiles.nil
  | cons t ts ih =>
    have hdata' : data = (before ++ t.bytes.padded) ++ body ts := by
      rw [hdata, body, List.flatMap_cons, List.append_assoc]
      rfl
    have hpadded : (before ++ t.bytes.padded).length
        = before.length + t.bytes.length + Bytes.paddingOf t.bytes.length := by
      rw [List.length_append, Bytes.length_padded, Nat.add_assoc]
    have hgap : data.slice? (before.length + t.bytes.length) (Bytes.paddingOf t.bytes.length)
        = some (Bytes.zeros (Bytes.paddingOf t.bytes.length)) := by
      have hslice := Bytes.slice?_append (before ++ t.bytes)
        (Bytes.zeros (Bytes.paddingOf t.bytes.length)) (body ts)
      rw [List.length_append, Bytes.length_zeros] at hslice
      rw [hdata', Bytes.padded, ← hslice]
      simp only [List.append_assoc]
    have hrest := ih hdata'
    rw [hpadded] at hrest
    rw [place, Bytes.length_padded, ← Nat.add_assoc]
    exact Tiles.cons (r := ⟨t.tag, t.checksum, before.length, t.bytes.length⟩)
      (Bytes.paddingOf_le _) hgap hrest

/-- Tables placed from a multiple of four on start at multiples of four. -/
theorem offset_mod_four_of_mem_place (hstart : start % 4 = 0) {r : TableRecord}
    (hr : r ∈ place start ts) : r.offset % 4 = 0 := by
  induction ts generalizing start with
  | nil => cases hr
  | cons t ts ih =>
    rcases List.mem_cons.mp hr with rfl | hr
    · exact hstart
    · have hpadded := Bytes.four_dvd_length_padded t.bytes
      exact ih (by omega) hr

end Layout

namespace Font

open Layout (Tiles place body directoryLength searchFields?)

/-! ## Where the tables of a collection lie -/

variable {members : List Member}

/-- **All tables of a collection are placed as one list.** -/
theorem flatten_placeMembers (start : Nat) (members : List Member) :
    (placeMembers start members).flatten = place start (members.flatMap (·.tables)) := by
  induction members generalizing start with
  | nil => rfl
  | cons m ms ih =>
    rw [placeMembers, List.flatten_cons, ih, List.flatMap_cons, Layout.place_append]

/-- All bodies of a collection are one body. -/
theorem flatMap_body (members : List Member) :
    (members.flatMap fun m => body m.tables) = body (members.flatMap (·.tables)) := by
  rw [body, List.flatMap_assoc]
  rfl

/-- The records of the copies are those that the tables were placed for. -/
theorem flatMap_records_copies (members : List Member) :
    (copies members).flatMap (·.records)
      = place (bodyStart members) (members.flatMap (·.tables)) := by
  rw [← flatten_placeMembers, copies, List.flatMap_map, List.flatMap_def]
  refine congrArg List.flatten ?_
  exact List.map_snd_zip (Nat.le_of_eq (length_placeMembers _ _))

/-- A copy has a directory of the length that was reckoned with for its
member. -/
theorem map_directoryLength_copies (members : List Member) :
    (copies members).map (fun copy => directoryLength copy.records.length)
      = members.map fun m => directoryLength m.tables.length := by
  have hlength : ∀ p ∈ placed members, directoryLength p.2.length
      = directoryLength p.1.tables.length :=
    fun p hp => congrArg directoryLength (length_of_mem_zip_placeMembers hp)
  rw [copies, List.map_map]
  calc (placed members).map (fun p => directoryLength p.2.length)
      = (placed members).map fun p => directoryLength p.1.tables.length :=
        List.map_congr_left hlength
    _ = ((placed members).map Prod.fst).map fun m => directoryLength m.tables.length := by
        rw [List.map_map]
        rfl
    _ = members.map fun m => directoryLength m.tables.length := by rw [map_fst_placed]

/-- The tables start where the directories end. -/
theorem bodyStart_eq (members : List Member) :
    bodyStart members = headerLength members.length
      + (members.map fun m => directoryLength m.tables.length).sum := by
  have hsum : ∀ (start : Nat) (ms : List Member),
      ms.foldl (fun start m => start + directoryLength m.tables.length) start
        = start + (ms.map fun m => directoryLength m.tables.length).sum := by
    intro start ms
    induction ms generalizing start with
    | nil => rfl
    | cons m ms ih => rw [List.foldl_cons, ih, List.map_cons, List.sum_cons, Nat.add_assoc]
  exact hsum _ _

/-- They start at a multiple of four. -/
theorem bodyStart_mod_four (members : List Member) : bodyStart members % 4 = 0 := by
  have hsum : (members.map fun m => directoryLength m.tables.length).sum % 4 = 0 := by
    induction members with
    | nil => rfl
    | cons m ms ih =>
      rw [List.map_cons, List.sum_cons, directoryLength]
      omega
  rw [bodyStart_eq, headerLength]
  omega

/-- **The directories end before the tables start.** -/
theorem forall₂_directoryOffsets_le (start : Nat) (members : List Member) :
    List.Forall₂ (fun offset (m : Member) => offset + directoryLength m.tables.length
        ≤ start + (members.map fun m => directoryLength m.tables.length).sum)
      (directoryOffsets start members) members := by
  induction members generalizing start with
  | nil => exact List.Forall₂.nil
  | cons m ms ih =>
    rw [directoryOffsets, List.map_cons, List.sum_cons, ← Nat.add_assoc]
    exact List.Forall₂.cons (Nat.le_add_right _ _) (ih _)

/-- **How a collection is laid out**, with its directories at `places` and
with these fonts as its members. -/
structure LaidOut (file : Bytes) (places : List Nat) (fonts : List Font) : Prop where
  /-- Every table starts at a multiple of four. -/
  aligned : ∀ r ∈ fonts.flatMap (·.records), r.offset % 4 = 0
  /-- No two tables meet. -/
  apart : (fonts.flatMap (·.records)).Pairwise fun r s => r.offset + r.length ≤ s.offset
  /-- No table meets a directory. -/
  behind : ∀ p ∈ places.zip fonts, ∀ r ∈ fonts.flatMap (·.records),
    p.1 + directoryLength p.2.records.length ≤ r.offset
  /-- From the directories to the end of the file there are tables, and at
  most three zeros behind each. -/
  tiled : Tiles file (headerLength fonts.length
    + (fonts.map fun font => directoryLength font.records.length).sum)
    (fonts.flatMap (·.records))

/-- **Every collection is laid out so.** -/
theorem laidOut_packMembers (members : List Member) :
    LaidOut (packMembers members) (places members) (copies members) := by
  have hlength : (copies members).length = members.length := by
    rw [copies, List.length_map, ← List.length_map Prod.fst, map_fst_placed]
  have htiles : Tiles (packMembers members) (bodyStart members)
      (place (bodyStart members) (members.flatMap (·.tables))) := by
    rw [← length_header_directories]
    refine Layout.tiles_place ?_
    rw [packMembers_eq, flatMap_body, List.append_assoc]
  rw [← flatMap_records_copies] at htiles
  refine ⟨fun r hr => ?_, htiles.pairwise, fun p hp r hr => ?_, ?_⟩
  · rw [flatMap_records_copies] at hr
    exact Layout.offset_mod_four_of_mem_place (bodyStart_mod_four members) hr
  · have hstart := htiles.le_offset r hr
    have hdirectory : p.1 + directoryLength p.2.records.length ≤ bodyStart members := by
      have hoffsets := forall₂_directoryOffsets_le (headerLength members.length) members
      rw [← bodyStart_eq] at hoffsets
      have hlengths : List.Forall₂ (fun offset n => offset + n ≤ bodyStart members)
          (places members) (members.map fun m => directoryLength m.tables.length) :=
        List.forall₂_map_right_iff.mpr hoffsets
      rw [← map_directoryLength_copies, List.forall₂_map_right_iff] at hlengths
      exact List.forall₂_zip hlengths hp
    omega
  · rwa [hlength, map_directoryLength_copies, ← bodyStart_eq]

/-- How long a collection is. -/
theorem length_packMembers (members : List Member) :
    (packMembers members).length
      = bodyStart members + (body (members.flatMap (·.tables))).length := by
  rw [packMembers_eq, flatMap_body, ← List.append_assoc, List.length_append,
    length_header_directories]

/-- **A collection of less than 4 GiB can be written**, if there are search
numbers for its directories. -/
theorem failure?_eq_none_of_length_lt
    (hsearch : ∀ m ∈ members, (searchFields? (UInt16.ofNat m.tables.length)).isSome = true)
    (h : (packMembers members).length < 4294967296) : failure? members = none := by
  rw [length_packMembers] at h
  have hstart := bodyStart_eq members
  have hoffsets := forall₂_directoryOffsets_le (headerLength members.length) members
  rw [← hstart] at hoffsets
  refine failure?_eq_none_iff.mpr ⟨headerFits_iff.mpr ⟨?_, fun offset hoffset => ?_⟩,
    fun p hp => memberFailure?_eq_none_iff.mpr ⟨hsearch _ (List.of_mem_zip hp).1, fun r hr => ?_⟩⟩
  · rw [headerLength] at hstart
    omega
  · obtain ⟨m, -, hm⟩ := exists_right_of_mem_left hoffsets hoffset
    omega
  · have hmem : r ∈ (placeMembers (bodyStart members) members).flatten :=
      List.mem_flatten.mpr ⟨_, (List.of_mem_zip hp).2, hr⟩
    rw [flatten_placeMembers] at hmem
    have hend := Layout.offset_add_length_le_of_mem_place hmem
    exact ⟨by omega, by omega⟩

/-! ## What a copy keeps -/

/-- What a record says of its table but for where it lies. -/
def label (r : TableRecord) : Tag × UInt32 := (r.tag, r.checksum)

/-- **What a copy in a collection keeps of its font.** -/
structure KeptIn (font copy : Font) : Prop where
  /-- The version. -/
  version : copy.version = font.version
  /-- Every table, by its tag. -/
  tables : copy.tables = font.tables
  /-- Every table that searching the directory finds. -/
  searchedTables : copy.searchedTables = font.searchedTables
  /-- Where tags tell records apart: the directory, but for the records that
  no data belongs to. -/
  records : (font.records.map (·.tag)).Nodup →
    copy.records.map label
      = (font.records.filter fun r => (r.slice? font.data).isSome).map label

/-- A member has the records of its font that data belongs to. -/
theorem map_tables_member {font : Font} (hnodup : (font.records.map (·.tag)).Nodup) :
    (member font).tables.map (fun t => (t.tag, t.checksum))
      = (font.records.filter fun r => (r.slice? font.data).isSome).map label := by
  have hkept : ∀ rs : List TableRecord, (∀ r ∈ rs, r ∈ font.records) →
      (rs.filterMap fun r => (font.tables r.tag).map fun bytes =>
          (⟨r.tag, r.checksum, bytes⟩ : TableData)).map (fun t => (t.tag, t.checksum))
        = (rs.filter fun r => (r.slice? font.data).isSome).map label := by
    intro rs hrs
    induction rs with
    | nil => rfl
    | cons r rs ih =>
      have hrest := ih fun s hs => hrs s (List.mem_cons_of_mem _ hs)
      rw [List.filterMap_cons, List.filter_cons, tables_tag_of_mem hnodup (hrs r List.mem_cons_self)]
      cases r.slice? font.data with
      | none => exact hrest
      | some bytes => exact congrArg (label r :: ·) hrest
  exact hkept font.records fun _ hr => hr

/-- **A copy keeps what it should.** -/
theorem keptIn_of_stores {font copy : Font} (hversion : copy.version = font.version)
    (hstores : Stores copy.data copy.records (member font).tables) : KeptIn font copy := by
  have htables : copy.tables = font.tables := by
    funext tag
    rw [tables_of_stores hstores tag, find?_member_tables]
  refine ⟨hversion, htables, ?_, fun hnodup => ?_⟩
  · rw [searchedTables_eq, searchedTables_eq, htables]
  · rw [← map_tables_member hnodup]
    have hlabels : List.Forall₂ Eq (copy.records.map label)
        ((member font).tables.map fun t => (t.tag, t.checksum)) := by
      rw [List.forall₂_map_left_iff, List.forall₂_map_right_iff]
      exact hstores.imp fun r t hrt => Prod.ext hrt.1 hrt.2.1
    rwa [List.forall₂_eq_eq_eq] at hlabels

/-! ## Errors -/

/-- Only numbers keep a collection from being written. -/
theorem eq_of_failure?_eq_some {error : PackError} (h : failure? members = some error) :
    error = .tooLarge ∨ error = .overflow := by
  have hmember : ∀ (m : Member) (records : List TableRecord),
      memberFailure? m records = some error → error = .tooLarge ∨ error = .overflow := by
    intro m records hm
    unfold memberFailure? at hm
    split at hm
    · exact Or.inr (Option.some.inj hm).symm
    · split at hm
      · cases hm
      · exact Or.inl (Option.some.inj hm).symm
  unfold failure? at h
  split at h
  · obtain ⟨p, -, hp⟩ := List.exists_of_findSome?_eq_some h
    exact hmember p.1 p.2 hp
  · exact Or.inl (Option.some.inj h).symm

variable {files : List Bytes}

/-- Files that are all fonts are not refused for what they are. -/
theorem pack_ne_of_forall₂ {fonts : List Font} {error : PackError} (hne : files ≠ [])
    (h : List.Forall₂ (fun data font => readAt data 0 = .ok font) files fonts)
    (htooLarge : error ≠ .tooLarge) (hoverflow : error ≠ .overflow) :
    pack files ≠ .error error := by
  rw [pack_of_forall₂ hne h]
  cases hfailure : failure? (fonts.map member) with
  | none => exact nofun
  | some other =>
    intro heq
    obtain rfl := Except.error.inj heq
    exact (eq_of_failure?_eq_some hfailure).elim htooLarge hoverflow

/-- **An empty list, and no other, is refused for being empty.** -/
theorem pack_eq_noFonts_iff : pack files = .error .noFonts ↔ files = [] := by
  refine ⟨fun h => ?_, fun h => by rw [h]; rfl⟩
  by_contra hne
  rcases exists_fonts_or_firstUnreadable files with ⟨fonts, hfonts⟩ | ⟨error, herror⟩
  · exact absurd h (pack_ne_of_forall₂ hne hfonts nofun nofun)
  · rw [herror.pack_eq] at h
    cases h

/-- **Any other list is refused for the first file that is not a font.** -/
theorem pack_eq_unreadable_iff {error : ReadError} :
    pack files = .error (.unreadable error) ↔ FirstUnreadable files error := by
  refine ⟨fun h => ?_, FirstUnreadable.pack_eq⟩
  rcases exists_fonts_or_firstUnreadable files with ⟨fonts, hfonts⟩ | ⟨other, hother⟩
  · have hne : files ≠ [] := fun hnil => by
      rw [pack_eq_noFonts_iff.mpr hnil] at h
      cases h
    exact absurd h (pack_ne_of_forall₂ hne hfonts nofun nofun)
  · rw [hother.pack_eq] at h
    cases h
    exact hother

/-- **A collection keeps its members and lays them out.** Packing fails for an
empty list and for the first file that is not a font. The file of any other
list, unless a number of it cannot be written, is a collection of as many fonts;
each of them keeps what it should of the file at its place; and their tables
lie behind the directories, at multiples of four, apart from one another, and
with nothing but zeros between them. -/
theorem pack_keeps_members (files : List Bytes) :
    (pack files = .error .noFonts ↔ files = []) ∧
      (∀ error, pack files = .error (.unreadable error) ↔ FirstUnreadable files error) ∧
      ∀ file, pack files = .ok file → ∃ places fonts copies,
        collectionOffsets? file = some places ∧ places.length = files.length ∧
          faces file = .ok copies ∧
          List.Forall₂ (fun data font => readAt data 0 = .ok font) files fonts ∧
          List.Forall₂ KeptIn fonts copies ∧ LaidOut file places copies := by
  refine ⟨pack_eq_noFonts_iff, fun error => pack_eq_unreadable_iff, fun file hfile => ?_⟩
  obtain ⟨fonts, hfonts, hnone, rfl⟩ := of_pack_eq_ok hfile
  refine ⟨places (fonts.map member), fonts, copies (fonts.map member),
    collectionOffsets?_packMembers hnone, ?_,
    faces_packMembers hnone (version_mem_and_length_lt hfonts), hfonts, ?_,
    laidOut_packMembers _⟩
  · rw [places, length_directoryOffsets, List.length_map, hfonts.length_eq]
  · exact (List.forall₂_map_left_iff.mp (forall₂_stores_copies _)).imp
      fun font copy hcopy => keptIn_of_stores hcopy.1 hcopy.2

/-- A font whose directory is out of order: two records have one tag, and one
has no data. -/
def tangledFont : Bytes :=
  Layout.directory 0x00010000 [⟨Tag.named "zero", 3, 76, 2⟩, ⟨Tag.named "aaaa", 4, 80, 1⟩,
      ⟨Tag.named "zero", 5, 80, 1⟩, ⟨Tag.named "none", 6, 0, 3⟩]
    ++ [1, 2, 0, 0, 9]

/-- Such a font is packed with one that has no tables; with a file that is
not a font behind it, it is not packed. -/
theorem pack_keeps_members_of_tangledFont :
    ∃ (file : Bytes) (places : List Nat) (fonts copies : List Font),
      pack [tangledFont, LoaderWorld.bareFont] = .ok file ∧
        collectionOffsets? file = some places ∧ places.length = 2 ∧
        faces file = .ok copies ∧
        List.Forall₂ (fun data font => readAt data 0 = .ok font)
          [tangledFont, LoaderWorld.bareFont] fonts ∧
        List.Forall₂ KeptIn fonts copies ∧ LaidOut file places copies ∧
        pack [tangledFont, [0]] = .error (.unreadable .outOfBounds) := by
  have hpacked : (pack [tangledFont, LoaderWorld.bareFont]).isOk = true := by decide +kernel
  have hread : (readAt tangledFont 0).isOk = true := by decide +kernel
  obtain ⟨-, hunreadable, -⟩ := pack_keeps_members [tangledFont, [0]]
  have hrefused : pack [tangledFont, [0]] = .error (.unreadable .outOfBounds) := by
    refine (hunreadable .outOfBounds).mpr ⟨[tangledFont], [0], [], rfl, fun other hother => ?_, rfl⟩
    rw [List.mem_singleton.mp hother]
    cases hfont : readAt tangledFont 0 with
    | ok font => exact ⟨font, hfont⟩
    | error error =>
      rw [hfont] at hread
      cases hread
  cases hfile : pack [tangledFont, LoaderWorld.bareFont] with
  | error error =>
    rw [hfile] at hpacked
    cases hpacked
  | ok file =>
    obtain ⟨-, -, hkeeps⟩ := pack_keeps_members [tangledFont, LoaderWorld.bareFont]
    obtain ⟨places, fonts, copies, hplaces, hcount, hfaces, hfonts, hkept, hlaid⟩ :=
      hkeeps file hfile
    exact ⟨file, places, fonts, copies, rfl, hplaces, hcount, hfaces, hfonts, hkept, hlaid,
      hrefused⟩

end Font

end FontCatalog
