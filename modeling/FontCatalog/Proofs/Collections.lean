import FontCatalog.Sfnt.Packing
import FontCatalog.Proofs.HeldData
import FontCatalog.Proofs.RelatedLists
import FontCatalog.Proofs.WrittenData

/-!
# Collections are transparent

A font that is packed into a collection keeps its tables: its directory is
written anew, its tables move, the records without data are dropped, and a
reader of the collection cannot tell. The argument goes through what is
written, in its three parts.

* The header gives back the places of the directories
  (`Font.collectionOffsets?_header`).
* At each place stands the directory of its member
  (`Font.forall₂_directoryOffsets`). The directories follow one another, so
  the induction is on the members, with what is written before the first of
  them growing.
* Every directory stores the tables of its member
  (`Font.forall₂_stores_placeMembers`), by the same induction over the
  bodies.

Dropping the records without data changes no look-up, since a look-up
takes the first record of a tag and drops all records of the tag or none
(`Font.find?_member_tables`). So the fonts of the collection have the tables
of the fonts that were packed (`Font.faces_of_pack_eq_ok`), and everything
that is read from a font is read from its tables.
-/

namespace FontCatalog

namespace Font

/-! ## Fonts that were read -/

/-- **What is certain of a font that was read**: its version is one of
those there are and is what its directory starts with, and the number of
its records has sixteen bits. -/
theorem of_readAt_eq_ok {data : Bytes} {offset : Nat} {font : Font}
    (h : readAt data offset = .ok font) :
    font.version ∈ versions ∧ font.records.length < 65536 ∧
      ∃ number, data.u32? offset = some number ∧ UInt32.ofNat number = font.version := by
  unfold readAt at h
  dsimp only at h
  split at h
  · cases h
  · next version records hdirectory =>
    split at h
    · next hversion =>
      obtain rfl := Except.ok.inj h
      obtain ⟨b, hb, hdirectory⟩ := Option.bind_eq_some_iff.mp hdirectory
      obtain ⟨count, hcount, hdirectory⟩ := Option.bind_eq_some_iff.mp hdirectory
      obtain ⟨chunks, hchunks, hdirectory⟩ := Option.bind_eq_some_iff.mp hdirectory
      obtain ⟨number, hnumber, hdirectory⟩ := Option.bind_eq_some_iff.mp hdirectory
      obtain ⟨rs, hrs, hdirectory⟩ := Option.bind_eq_some_iff.mp hdirectory
      obtain ⟨rfl, rfl⟩ := Prod.mk.inj (Option.some.inj hdirectory)
      obtain ⟨slice, -, rfl⟩ := Option.map_eq_some_iff.mp hchunks
      refine ⟨hversion, ?_, number, ?_, rfl⟩
      · rw [length_of_mapM_eq_some hrs, Bytes.length_chunks]
        exact Bytes.lt_of_u16?_eq_some hcount
      · rwa [Bytes.eq_drop_of_from?_eq_some hb, Bytes.u32?_drop] at hnumber
    · cases h

/-- No version of a font spells the start of a collection. -/
theorem collectionTag_not_mem_versions : (Tag.named "ttcf").code ∉ versions := by decide

/-- A single font is no collection. -/
theorem collectionOffsets?_of_readAt {data : Bytes} {font : Font}
    (h : readAt data 0 = .ok font) : collectionOffsets? data = none := by
  obtain ⟨hversion, -, number, hnumber, hnumber'⟩ := of_readAt_eq_ok h
  have htag : Tag.ofNat number ≠ Tag.named "ttcf" := by
    intro htag
    rw [← hnumber'] at hversion
    exact collectionTag_not_mem_versions (htag ▸ hversion)
  refine Option.eq_none_iff_forall_ne_some.mpr fun offsets hoffsets => ?_
  obtain ⟨tag, hnumber?, hoffsets⟩ := Option.bind_eq_some_iff.mp hoffsets
  obtain rfl : number = tag := Option.some.inj (hnumber.symm.trans hnumber?)
  obtain ⟨major, -, hoffsets⟩ := Option.bind_eq_some_iff.mp hoffsets
  obtain ⟨count, -, hoffsets⟩ := Option.bind_eq_some_iff.mp hoffsets
  obtain ⟨chunks, -, hoffsets⟩ := Option.bind_eq_some_iff.mp hoffsets
  obtain ⟨rest, -, hoffsets⟩ := Option.bind_eq_some_iff.mp hoffsets
  rw [if_neg htag] at hoffsets
  cases hoffsets

/-- **A file that is read as a single font has that font**, and no other. -/
theorem faces_of_readAt {data : Bytes} {font : Font} (h : readAt data 0 = .ok font) :
    faces data = .ok [font] := by
  rw [faces, collectionOffsets?_of_readAt h, h]
  rfl

/-! ## Members -/

/-- **Dropping the records without data changes no look-up.** -/
theorem find?_member_tables (font : Font) (tag : Tag) :
    ((member font).tables.find? (·.tag == tag)).map (·.bytes) = font.tables tag := by
  -- A look-up in the kept records finds the bytes of the tag as soon as some record has it.
  have hkept : ∀ rs : List TableRecord,
      ((rs.filterMap fun r => (font.tables r.tag).map fun bytes =>
          (⟨r.tag, r.checksum, bytes⟩ : TableData)).find? (·.tag == tag)).map (·.bytes)
        = (rs.find? (·.tag == tag)).bind fun _ => font.tables tag := by
    intro rs
    induction rs with
    | nil => rfl
    | cons r rs ih =>
      rw [List.filterMap_cons, List.find?_cons]
      by_cases htag : r.tag = tag
      · subst htag
        cases hbytes : font.tables r.tag with
        | none => simpa [hbytes] using ih
        | some bytes => simp
      · have hne : (r.tag == tag) = false := beq_eq_false_iff_ne.mpr htag
        cases font.tables r.tag with
        | none => simpa [hne] using ih
        | some bytes => simpa [hne] using ih
  show Option.map _ (List.find? _ (List.filterMap _ font.records)) = _
  rw [hkept]
  cases hfind : font.records.find? (·.tag == tag) with
  | none => rw [tables, hfind]; rfl
  | some r => rfl

/-- A member has at most as many tables as its font has records. -/
theorem length_member_tables_le (font : Font) :
    (member font).tables.length ≤ font.records.length := List.length_filterMap_le _ _

/-! ## Packing -/

/-- **The first file that is not a font**, with its error. -/
def FirstUnreadable (files : List Bytes) (error : ReadError) : Prop :=
  FirstError (readAt · 0) files error

section

variable {files : List Bytes}

/-- Files are all fonts, or there is a first that is not. -/
theorem exists_fonts_or_firstUnreadable (files : List Bytes) :
    (∃ fonts, List.Forall₂ (fun data font => readAt data 0 = .ok font) files fonts) ∨
      ∃ error, FirstUnreadable files error := by
  cases hread : files.mapM (readAt · 0) with
  | ok fonts => exact Or.inl ⟨fonts, mapM_eq_ok_iff_forall₂.mp hread⟩
  | error error => exact Or.inr ⟨error, mapM_eq_error_iff.mp hread⟩

/-- The first file that is not a font fails the packing. -/
theorem FirstUnreadable.pack_eq {error : ReadError} (h : FirstUnreadable files error) :
    pack files = .error (.unreadable error) := by
  obtain ⟨before, data, after, rfl, hbefore, (hdata : readAt data 0 = .error error)⟩ := h
  have hmembers : (before ++ data :: after).mapM (fun data =>
      ((readAt data 0).map member).mapError PackError.unreadable)
        = .error (.unreadable error) := by
    refine mapM_eq_error_of_first (fun other hother => ?_) (by rw [hdata]; rfl)
    obtain ⟨font, (hfont : readAt other 0 = .ok font)⟩ := hbefore other hother
    exact ⟨member font, by rw [hfont]; rfl⟩
  have hempty : (before ++ data :: after).isEmpty = false :=
    List.isEmpty_eq_false_iff.mpr (List.append_ne_nil_of_right_ne_nil _ (List.cons_ne_nil _ _))
  rw [pack, hempty, hmembers]
  rfl

/-- Files that are all fonts are packed, unless something keeps the
collection from being written. -/
theorem pack_of_forall₂ {fonts : List Font} (hne : files ≠ [])
    (h : List.Forall₂ (fun data font => readAt data 0 = .ok font) files fonts) :
    pack files = match failure? (fonts.map member) with
      | some error => .error error
      | none => .ok (packMembers (fonts.map member)) := by
  have hmembers : files.mapM (fun data =>
      ((readAt data 0).map member).mapError PackError.unreadable)
        = .ok (fonts.map member) := by
    rw [mapM_eq_ok_iff_forall₂, List.forall₂_map_right_iff]
    exact h.imp fun data font hfont => by rw [hfont]; rfl
  have hempty : files.isEmpty = false := List.isEmpty_eq_false_iff.mpr hne
  rw [pack, hempty, hmembers]
  rfl

/-- **What is packed**: each file is read, nothing keeps the collection from
being written, and it is written from the members. -/
theorem of_pack_eq_ok {file : Bytes} (h : pack files = .ok file) :
    ∃ fonts : List Font,
      List.Forall₂ (fun data font => readAt data 0 = .ok font) files fonts ∧
        failure? (fonts.map member) = none ∧ file = packMembers (fonts.map member) := by
  have hne : files ≠ [] := by
    rintro rfl
    cases h
  rcases exists_fonts_or_firstUnreadable files with ⟨fonts, hfonts⟩ | ⟨error, herror⟩
  · rw [pack_of_forall₂ hne hfonts] at h
    cases hfailure : failure? (fonts.map member) with
    | none =>
      rw [hfailure] at h
      exact ⟨fonts, hfonts, hfailure, (Except.ok.inj h).symm⟩
    | some error =>
      rw [hfailure] at h
      cases h
  · rw [herror.pack_eq] at h
    cases h

end

/-! ## The header -/

@[simp] theorem length_collectionHeader (offsets : List Nat) :
    (collectionHeader offsets).length = headerLength offsets.length := by
  rw [collectionHeader, List.length_append, Bytes.length_flatMap_of_width Bytes.length_be32]
  rfl

/-- The header of a collection gives back the places written in it. -/
theorem collectionOffsets?_header {offsets : List Nat} (hcount : offsets.length < 4294967296)
    (hoffsets : ∀ offset ∈ offsets, offset < 4294967296) (rest : Bytes) :
    collectionOffsets? (collectionHeader offsets ++ rest) = some offsets := by
  have hheader : collectionHeader offsets ++ rest
      = Bytes.be32 (Tag.named "ttcf").code.toNat ++ (Bytes.be16 1 ++ (Bytes.be16 0
          ++ (Bytes.be32 offsets.length ++ (offsets.flatMap Bytes.be32 ++ rest)))) := by
    rw [collectionHeader]
    simp only [List.append_assoc]
  have htag : (collectionHeader offsets ++ rest).u32? 0
      = some (Tag.named "ttcf").code.toNat := by
    rw [hheader, Bytes.u32?_of_drop (n := (Tag.named "ttcf").code.toNat) rfl,
      Nat.mod_eq_of_lt (Tag.named "ttcf").code.toNat_lt]
  have hmajor : (collectionHeader offsets ++ rest).u16? 4 = some 1 := by
    rw [hheader, Bytes.u16?_of_drop (n := 1) rfl]
  have hlength : (collectionHeader offsets ++ rest).u32? 8 = some offsets.length := by
    rw [hheader, Bytes.u32?_of_drop (n := offsets.length) rfl, Nat.mod_eq_of_lt hcount]
  have hrecords : (collectionHeader offsets ++ rest).records? 12 4 offsets.length
      = some (offsets.map Bytes.be32) := by
    rw [collectionHeader, List.append_assoc]
    exact Bytes.records?_flatMap Bytes.length_be32 offsets _ rest
  have hend : (collectionHeader offsets ++ rest).slice? (12 + 4 * offsets.length) 0
      = some [] := by
    have hslice := Bytes.slice?_append (collectionHeader offsets) [] rest
    rwa [length_collectionHeader] at hslice
  have hread : (offsets.map Bytes.be32).mapM (·.u32? 0) = some (offsets.map id) := by
    refine Bytes.mapM_read_map_encode id fun offset hoffset => ?_
    rw [Bytes.u32?_of_drop (n := offset) (List.append_nil _).symm,
      Nat.mod_eq_of_lt (hoffsets offset hoffset)]
    rfl
  rw [List.map_id] at hread
  rw [collectionOffsets?, htag, hmajor, hlength]
  simp only [Option.bind_eq_bind, Option.bind_some, hrecords,
    (by decide : (1 : Nat) ≠ 2), if_false, hend, Tag.ofNat_toNat, if_true, hread]

/-! ## The directories -/

/-- **Directories that follow one another lie at their places.** -/
theorem forall₂_directoryOffsets {data : Bytes} (ms : List (Member × List TableRecord))
    (hms : ∀ p ∈ ms, p.2.length = p.1.tables.length) {before rest : Bytes}
    (hdata : data = before ++ ((ms.flatMap fun p => Layout.directory p.1.version p.2) ++ rest)) :
    List.Forall₂ (fun offset p => ∃ front back,
        data = front ++ (Layout.directory p.1.version p.2 ++ back) ∧ front.length = offset)
      (directoryOffsets before.length (ms.map Prod.fst)) ms := by
  induction ms generalizing before with
  | nil => exact List.Forall₂.nil
  | cons p ms ih =>
    rw [List.flatMap_cons, List.append_assoc] at hdata
    have hdata' : data = (before ++ Layout.directory p.1.version p.2)
        ++ ((ms.flatMap fun p => Layout.directory p.1.version p.2) ++ rest) := by
      rw [hdata, List.append_assoc]
    have hrest := ih (fun q hq => hms q (List.mem_cons_of_mem _ hq)) hdata'
    rw [List.length_append, Layout.length_directory, hms p (List.mem_cons_self ..)] at hrest
    exact List.Forall₂.cons ⟨before, _, hdata, rfl⟩ hrest

/-- Directories that lie at their places are read there. -/
theorem mapM_readAt_directoryOffsets {data : Bytes} (ms : List (Member × List TableRecord))
    (hms : ∀ p ∈ ms, p.1.version ∈ versions ∧ p.2.length = p.1.tables.length ∧
      p.2.length < 65536 ∧ ∀ r ∈ p.2, r.Fits) {before rest : Bytes}
    (hdata : data = before ++ ((ms.flatMap fun p => Layout.directory p.1.version p.2) ++ rest)) :
    (directoryOffsets before.length (ms.map Prod.fst)).mapM (readAt data)
      = .ok (ms.map fun p => ⟨p.1.version, p.2, data⟩) := by
  obtain ⟨hlength, hplaced⟩ := List.forall₂_iff_zip.mp
    (forall₂_directoryOffsets ms (fun p hp => (hms p hp).2.1) hdata)
  rw [mapM_eq_ok_iff_forall₂, List.forall₂_map_right_iff, List.forall₂_iff_zip]
  refine ⟨hlength, fun {offset p} hp => ?_⟩
  obtain ⟨front, back, hdata', rfl⟩ := hplaced hp
  obtain ⟨hversion, -, hcount, hfits⟩ := hms p (List.of_mem_zip hp).2
  rw [hdata']
  exact readAt_directory hversion hcount hfits front back

/-- The directories of members take the room that is reckoned with. -/
theorem length_flatMap_directory {ms : List (Member × List TableRecord)}
    (hms : ∀ p ∈ ms, p.2.length = p.1.tables.length) (start : Nat) :
    start + (ms.flatMap fun p => Layout.directory p.1.version p.2).length
      = (ms.map Prod.fst).foldl (fun start m => start + Layout.directoryLength m.tables.length)
          start := by
  induction ms generalizing start with
  | nil => rfl
  | cons p ms ih =>
    rw [List.flatMap_cons, List.length_append, Layout.length_directory, hms p List.mem_cons_self,
      List.map_cons, List.foldl_cons, ← ih fun q hq => hms q (List.mem_cons_of_mem _ hq),
      Nat.add_assoc]

/-- There is one place for each directory. -/
@[simp] theorem length_directoryOffsets (start : Nat) (members : List Member) :
    (directoryOffsets start members).length = members.length := by
  induction members generalizing start with
  | nil => rfl
  | cons m ms ih => rw [directoryOffsets, List.length_cons, ih, List.length_cons]

/-! ## The bodies -/

/-- There are records for each member. -/
@[simp] theorem length_placeMembers (start : Nat) (members : List Member) :
    (placeMembers start members).length = members.length := by
  induction members generalizing start with
  | nil => rfl
  | cons m ms ih => rw [placeMembers, List.length_cons, ih, List.length_cons]

/-- A member has as many records as tables. -/
theorem length_of_mem_zip_placeMembers {start : Nat} {members : List Member}
    {p : Member × List TableRecord} (h : p ∈ members.zip (placeMembers start members)) :
    p.2.length = p.1.tables.length := by
  induction members generalizing start with
  | nil => cases h
  | cons m ms ih =>
    rw [placeMembers, List.zip_cons_cons] at h
    rcases List.mem_cons.mp h with rfl | h
    · exact Layout.length_place start m.tables
    · exact ih h

/-- **Bodies that follow one another store the tables of their members.** -/
theorem forall₂_stores_placeMembers {data : Bytes} (members : List Member) {before rest : Bytes}
    (hbefore : before ≠ [])
    (hdata : data = before ++ ((members.flatMap fun m => Layout.body m.tables) ++ rest)) :
    List.Forall₂ (fun m records => Stores data records m.tables) members
      (placeMembers before.length members) := by
  induction members generalizing before with
  | nil => exact List.Forall₂.nil
  | cons m ms ih =>
    have hfirst : Stores data (Layout.place before.length m.tables) m.tables := by
      rw [hdata, List.flatMap_cons, List.append_assoc]
      exact stores_place hbefore m.tables _
    have hdata' : data = (before ++ Layout.body m.tables)
        ++ ((ms.flatMap fun m => Layout.body m.tables) ++ rest) := by
      rw [hdata, List.flatMap_cons]
      simp only [List.append_assoc]
    have hrest := ih (List.append_ne_nil_of_left_ne_nil hbefore _) hdata'
    rw [List.length_append] at hrest
    exact List.Forall₂.cons hfirst hrest

/-! ## The collection -/

/-- Where the directories of a collection start. -/
def places (members : List Member) : List Nat :=
  directoryOffsets (headerLength members.length) members

/-- The members of a collection, each with its records. -/
def placed (members : List Member) : List (Member × List TableRecord) :=
  members.zip (placeMembers (bodyStart members) members)

/-- The directories of a collection, one behind the other. -/
def directories (members : List Member) : Bytes :=
  (placed members).flatMap fun p => Layout.directory p.1.version p.2

/-- **The copies of the members**: what a reader should find in their
collection. -/
def copies (members : List Member) : List Font :=
  (placed members).map fun p => ⟨p.1.version, p.2, packMembers members⟩

/-- A collection is its header, its directories and its bodies. -/
theorem packMembers_eq (members : List Member) :
    packMembers members = collectionHeader (places members)
      ++ (directories members ++ members.flatMap fun m => Layout.body m.tables) :=
  List.append_assoc ..

@[simp] theorem map_fst_placed (members : List Member) :
    (placed members).map Prod.fst = members :=
  List.map_fst_zip (Nat.le_of_eq (length_placeMembers _ _).symm)

theorem length_header_places (members : List Member) :
    (collectionHeader (places members)).length = headerLength members.length := by
  rw [length_collectionHeader, places, length_directoryOffsets]

/-- The bodies start where they are reckoned to. -/
theorem length_header_directories (members : List Member) :
    (collectionHeader (places members) ++ directories members).length = bodyStart members := by
  have hlength : ∀ p ∈ placed members, p.2.length = p.1.tables.length :=
    fun p hp => length_of_mem_zip_placeMembers hp
  rw [List.length_append, length_header_places, directories, length_flatMap_directory hlength,
    map_fst_placed, bodyStart]

/-- The header can be written if its numbers have 32 bits. -/
theorem headerFits_iff {members : List Member} : headerFits members = true ↔
    members.length < 4294967296 ∧ ∀ offset ∈ places members, offset < 4294967296 := by
  rw [headerFits, Bool.and_eq_true, decide_eq_true_iff, List.all_eq_true]
  simp only [decide_eq_true_eq]
  rfl

/-- A member can be written if there are search numbers for it and its
records fit their fields. -/
theorem memberFailure?_eq_none_iff {m : Member} {records : List TableRecord} :
    memberFailure? m records = none
      ↔ (Layout.searchFields? (UInt16.ofNat m.tables.length)).isSome = true ∧
        ∀ r ∈ records, r.Fits := by
  have hrecords : (records.all fun r => r.offset < 0x100000000 && r.length < 0x100000000) = true
      ↔ ∀ r ∈ records, r.Fits := by
    simp only [List.all_eq_true, Bool.and_eq_true, decide_eq_true_eq]
    rfl
  rw [memberFailure?, ← hrecords]
  cases Layout.searchFields? (UInt16.ofNat m.tables.length) with
  | none => simp
  | some fields => simp

/-- **A collection can be written** if its header and all its members
can. -/
theorem failure?_eq_none_iff {members : List Member} :
    failure? members = none ↔ headerFits members = true ∧
      ∀ p ∈ placed members, memberFailure? p.1 p.2 = none := by
  rw [failure?]
  by_cases hheader : headerFits members = true
  · rw [if_pos hheader, and_iff_right hheader]
    exact List.findSome?_eq_none_iff
  · rw [if_neg hheader]
    exact iff_of_false nofun fun h => hheader h.1

section Packed

variable {members : List Member} (hnone : failure? members = none)
  (hmembers : ∀ m ∈ members, m.version ∈ versions ∧ m.tables.length < 65536)

include hnone in
/-- Where nothing keeps a collection from being written, its numbers fit. -/
theorem of_failure?_eq_none :
    members.length < 4294967296 ∧ (∀ offset ∈ places members, offset < 4294967296) ∧
      ∀ p ∈ placed members, ∀ r ∈ p.2, r.Fits := by
  obtain ⟨hheader, hplaced⟩ := failure?_eq_none_iff.mp hnone
  obtain ⟨hcount, hoffsets⟩ := headerFits_iff.mp hheader
  exact ⟨hcount, hoffsets, fun p hp => (memberFailure?_eq_none_iff.mp (hplaced p hp)).2⟩

include hnone in
/-- The header of a collection is read. -/
theorem collectionOffsets?_packMembers :
    collectionOffsets? (packMembers members) = some (places members) := by
  obtain ⟨hcount, hoffsets, -⟩ := of_failure?_eq_none hnone
  rw [packMembers_eq]
  exact collectionOffsets?_header (by rw [places, length_directoryOffsets]; exact hcount)
    hoffsets _

include hnone hmembers in
/-- **The fonts of a collection are the copies of its members.** -/
theorem faces_packMembers : faces (packMembers members) = .ok (copies members) := by
  have hplaced : ∀ p ∈ placed members, p.1.version ∈ versions ∧
      p.2.length = p.1.tables.length ∧ p.2.length < 65536 ∧ ∀ r ∈ p.2, r.Fits := by
    intro p hp
    have hlength := length_of_mem_zip_placeMembers hp
    have hmember := hmembers _ (List.of_mem_zip hp).1
    exact ⟨hmember.1, hlength, hlength ▸ hmember.2, (of_failure?_eq_none hnone).2.2 p hp⟩
  have hread := mapM_readAt_directoryOffsets (placed members) hplaced (packMembers_eq members)
  rw [map_fst_placed, length_header_places] at hread
  rw [faces, collectionOffsets?_packMembers hnone]
  exact hread

/-- The records of every member store its tables. -/
theorem stores_of_mem_placed {p : Member × List TableRecord} (hp : p ∈ placed members) :
    Stores (packMembers members) p.2 p.1.tables := by
  have hfront : collectionHeader (places members) ++ directories members ≠ [] :=
    List.append_ne_nil_of_left_ne_nil (List.cons_ne_nil _ _) _
  have hdata : packMembers members = collectionHeader (places members) ++ directories members
      ++ ((members.flatMap fun m => Layout.body m.tables) ++ []) := by
    rw [packMembers_eq, List.append_assoc, List.append_nil]
  have hstores := forall₂_stores_placeMembers members hfront hdata
  rw [length_header_directories] at hstores
  exact List.forall₂_zip hstores hp

/-- **A copy stores the tables of its member**, and has the member's
version. -/
theorem forall₂_stores_copies (members : List Member) :
    List.Forall₂ (fun m copy => copy.version = m.version ∧
      Stores copy.data copy.records m.tables) members (copies members) := by
  have hcopies : List.Forall₂ (fun m (copy : Font) => copy.version = m.version ∧
      Stores copy.data copy.records m.tables) ((placed members).map Prod.fst)
      (copies members) := by
    rw [copies, List.forall₂_map_left_iff, List.forall₂_map_right_iff, List.forall₂_same]
    exact fun p hp => ⟨rfl, stores_of_mem_placed hp⟩
  rwa [map_fst_placed] at hcopies

end Packed

/-- Fonts that were read make members that can be read. -/
theorem version_mem_and_length_lt {files : List Bytes} {fonts : List Font}
    (hfonts : List.Forall₂ (fun data font => readAt data 0 = .ok font) files fonts) :
    ∀ m ∈ fonts.map member, m.version ∈ versions ∧ m.tables.length < 65536 := by
  intro m hm
  obtain ⟨font, hfont, rfl⟩ := List.mem_map.mp hm
  obtain ⟨data, -, hread⟩ := exists_left_of_mem_right hfonts hfont
  obtain ⟨hversion, hcount, -⟩ := of_readAt_eq_ok hread
  exact ⟨hversion, Nat.lt_of_le_of_lt (length_member_tables_le font) hcount⟩

/-- **A packed font keeps its tables.** The fonts of the collection are, one
by one, fonts with the tables of those that were packed. -/
theorem faces_of_pack_eq_ok {files : List Bytes} {file : Bytes} (h : pack files = .ok file) :
    ∃ fonts packed : List Font,
      List.Forall₂ (fun data font => readAt data 0 = .ok font) files fonts ∧
        faces file = .ok packed ∧
        List.Forall₂ (fun font copy => copy.tables = font.tables) fonts packed := by
  obtain ⟨fonts, hfonts, hnone, rfl⟩ := of_pack_eq_ok h
  refine ⟨fonts, _, hfonts, faces_packMembers hnone (version_mem_and_length_lt hfonts), ?_⟩
  refine (List.forall₂_map_left_iff.mp (forall₂_stores_copies _)).imp fun font copy hcopy => ?_
  funext tag
  rw [tables_of_stores hcopy.2 tag, find?_member_tables]

end Font

/-! ## Sets of the fonts of a collection -/

namespace LoaderWorld

variable {σ : Type} {w : LoaderWorld σ} {s : σ} {registered : List LoaderId}

/-- A file that holds a single font has the entries of its tables, and
reading one of them gives the face from the tables. -/
theorem buildSet_of_holds_single {file : FontFile} {data : Bytes} {font : Font}
    (hfile : w.Holds s file data) (hregistered : file.loader ∈ registered)
    (hfont : Font.readAt data 0 = .ok font) :
    w.buildSet registered [file] s = (.ok ⟨FontEntry.ofTables file 0 font.tables⟩, s) ∧
      ∀ entry ∈ FontEntry.ofTables file 0 font.tables,
        w.readFace entry s = (.ok (entry.faceOf font.tables), s) := by
  have hfaces := Font.faces_of_readAt hfont
  have hface := Font.face_eq_of_faces hfaces (show [font][0]? = some font from rfl)
  constructor
  · rw [buildSet_of_holds hfile hregistered hfaces]
    show (Except.ok (FontSet.mk (FontEntry.ofFont file 0 font ++ [])), s) = _
    rw [List.append_nil]
    rfl
  · intro entry hentry
    obtain ⟨hentryFile, hentryIndex⟩ := FontEntry.file_faceIndex_of_mem_ofTables hentry
    rw [← hentryFile] at hfile
    rw [← hentryIndex] at hface
    exact readFace_of_holds hfile hface

/-- **Collections are transparent.** The set of a collection is what the
sets of its members would be, one behind the other, with the number of the
member as the number of the font; and each of its faces is the face that
the member has on its own. -/
theorem buildSet_collection {members : List Bytes} {collection : Bytes}
    (hpack : Font.pack members = .ok collection) {file : FontFile}
    (hfile : w.Holds s file collection) (hregistered : file.loader ∈ registered)
    {files : List FontFile}
    (hfiles : List.Forall₂ (fun single data => w.Holds s single data ∧
      single.loader ∈ registered) files members) :
    ∃ sets : List FontSet,
      List.Forall₂ (fun single set => w.buildSet registered [single] s = (.ok set, s))
          files sets ∧
        w.buildSet registered [file] s = (.ok ⟨sets.zipIdx.flatMap fun (set, i) =>
          set.entries.map (·.moved file i)⟩, s) ∧
        ∀ i set, sets[i]? = some set → ∀ entry ∈ set.entries, ∃ face,
          w.readFace entry s = (.ok face, s) ∧
            w.readFace (entry.moved file i) s = (.ok face, s) := by
  obtain ⟨fonts, packed, hread, hfaces, htables⟩ := Font.faces_of_pack_eq_ok hpack
  -- Between the file of a member and its copy in the collection there is the member's own set.
  obtain ⟨sets, hsets, hcopies⟩ : ∃ sets : List FontSet,
      List.Forall₂ (fun single set => w.buildSet registered [single] s = (.ok set, s))
          files sets ∧
        List.Forall₂ (fun (set : FontSet) (copy : Font) =>
          (∀ i, set.entries.map (·.moved file i) = FontEntry.ofFont file i copy) ∧
            ∀ entry ∈ set.entries, w.readFace entry s = (.ok (entry.faceOf copy.tables), s))
          sets packed := by
    refine exists_forall₂_of_forall₂ (forall₂_trans (forall₂_trans hfiles hread) htables) ?_
    rintro single copy ⟨font, ⟨data, ⟨hsingle, hloader⟩, hfont⟩, hcopy⟩
    obtain ⟨hset, hentries⟩ := buildSet_of_holds_single hsingle hloader hfont
    rw [← hcopy] at hset hentries
    refine ⟨⟨FontEntry.ofTables single 0 copy.tables⟩, hset, fun i => ?_, hentries⟩
    rw [FontEntry.ofFont_eq_ofTables, FontEntry.ofTables_eq_map_moved single file 0 i]
  refine ⟨sets, hsets, ?_, ?_⟩
  · rw [buildSet_of_holds hfile hregistered hfaces, FontEntry.ofFonts,
      flatMap_zipIdx_congr (hcopies.imp fun _ _ h => h.1)]
  · intro i set hset entry hentry
    obtain ⟨copy, hcopy, -, hfaceOf⟩ := exists_getElem?_of_forall₂ hcopies hset
    have hmoved : w.Holds s (entry.moved file i).file collection := hfile
    have hface := Font.face_eq_of_faces hfaces hcopy
    exact ⟨_, hfaceOf entry hentry, readFace_of_holds hmoved hface⟩

/-- A font with one table and with a record that has no data. -/
def sparseFont : Bytes :=
  Layout.directory 0x00010000 [⟨Tag.named "data", 7, 44, 3⟩, ⟨Tag.named "none", 7, 0, 5⟩]
    ++ [1, 2, 3]

/-- A font without tables. -/
def bareFont : Bytes := Layout.directory 0x00010000 []

/-- Two small fonts, one of which loses a record, packed and held in memory
next to their collection. -/
theorem buildSet_collection_of_sparse_and_bare :
    ∃ (collection : Bytes) (w : LoaderWorld Unit) (first second : FontSet),
      Font.pack [sparseFont, bareFont] = .ok collection ∧
        w.Holds () ⟨.memory, ⟨0⟩, "both"⟩ collection ∧
        w.Holds () ⟨.memory, ⟨1⟩, "sparse"⟩ sparseFont ∧
        w.Holds () ⟨.memory, ⟨2⟩, "bare"⟩ bareFont ∧
        w.buildSet [.memory] [⟨.memory, ⟨1⟩, "sparse"⟩] () = (.ok first, ()) ∧
        w.buildSet [.memory] [⟨.memory, ⟨2⟩, "bare"⟩] () = (.ok second, ()) ∧
        w.buildSet [.memory] [⟨.memory, ⟨0⟩, "both"⟩] () = (.ok ⟨
          first.entries.map (·.moved ⟨.memory, ⟨0⟩, "both"⟩ 0)
            ++ second.entries.map (·.moved ⟨.memory, ⟨0⟩, "both"⟩ 1)⟩, ()) := by
  have hpacked : (Font.pack [sparseFont, bareFont]).isOk = true := by decide +kernel
  cases hpack : Font.pack [sparseFont, bareFont] with
  | error e => rw [hpack] at hpacked; cases hpacked
  | ok collection =>
    let memory : MemoryLoader := ⟨[.whole "both" collection, .whole "sparse" sparseFont,
      .whole "bare" bareFont]⟩
    have hboth : (vacant.withMemory memory).Holds () ⟨.memory, ⟨0⟩, "both"⟩ collection :=
      holds_whole rfl
    have hsparse : (vacant.withMemory memory).Holds () ⟨.memory, ⟨1⟩, "sparse"⟩ sparseFont :=
      holds_whole rfl
    have hbare : (vacant.withMemory memory).Holds () ⟨.memory, ⟨2⟩, "bare"⟩ bareFont :=
      holds_whole rfl
    have hmemory := List.mem_singleton_self LoaderId.memory
    obtain ⟨sets, hsets, hset, -⟩ := buildSet_collection hpack hboth hmemory
      (List.Forall₂.cons ⟨hsparse, hmemory⟩
        (List.Forall₂.cons ⟨hbare, hmemory⟩ List.Forall₂.nil))
    obtain ⟨first, tail, hfirst, htail, rfl⟩ := List.forall₂_cons_left_iff.mp hsets
    obtain ⟨second, rest, hsecond, hrest, rfl⟩ := List.forall₂_cons_left_iff.mp htail
    obtain rfl := List.forall₂_nil_left_iff.mp hrest
    refine ⟨collection, vacant.withMemory memory, first, second, rfl, hboth, hsparse, hbare,
      hfirst, hsecond, ?_⟩
    rw [hset, List.zipIdx_cons, List.zipIdx_cons, List.zipIdx_nil, List.flatMap_cons,
      List.flatMap_cons, List.flatMap_nil, List.append_nil]

end LoaderWorld

end FontCatalog
