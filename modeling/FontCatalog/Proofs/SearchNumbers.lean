import FontCatalog.Proofs.PackedMembers

/-!
# The search numbers of a directory

A directory carries three numbers that spare a reader who bisects its
records some arithmetic. `Layout.searchNumbers` is what they should be,
reckoned without a limit; a directory has sixteen bits for each, and they are
reckoned in sixteen bits.

For fewer than 4096 records nothing on the way is larger than that, and the
numbers are as they should be. From 4096 records on they never are: a record
has sixteen bytes, so the power of two alone comes to `2 ^ 16` bytes, and
reckoning overflows (`Layout.map_numbersOf_searchFields?`). A directory may
have up to 65535 records, and nothing keeps a font from having them, since
records need no data of their own; `Font.wideFont` is such a font.

So packing fonts breaks off at the first with so many tables, unless something
that is written before it is too large (`Font.BreaksOff`). It never writes
numbers that are wrong.
-/

namespace FontCatalog

namespace Layout

/-- **The numbers that help a binary search** over `n` records, reckoned
without a limit: the bytes of the largest power of two of records that fits,
the exponent of that power, and the bytes that are left over. -/
def searchNumbers (n : Nat) : Nat × Nat × Nat :=
  (16 * 2 ^ n.log2, n.log2, 16 * n - 16 * 2 ^ n.log2)

/-- **Reckoning the search numbers fits in sixteen bits**: the power of two,
its bytes and the bytes of all records do. -/
structure SearchFits (n : Nat) : Prop where
  /-- The power of two. -/
  power : 2 ^ n.log2 < 65536
  /-- Its bytes. -/
  range : 16 * 2 ^ n.log2 < 65536
  /-- The bytes of all records. -/
  bytes : 16 * n < 65536

/-- **It fits for fewer than 4096 records**, and for no more. -/
theorem searchFits_iff (n : Nat) : SearchFits n ↔ n < 4096 := by
  constructor
  · intro h
    have hbytes := h.bytes
    omega
  · intro h
    have hpower : 2 ^ n.log2 ≤ 4095 := by
      rcases Nat.eq_zero_or_pos n with rfl | hn
      · decide
      · exact Nat.le_trans (Nat.log2_self_le (Nat.ne_of_gt hn)) (by omega)
    exact ⟨by omega, by omega, by omega⟩

/-- The search numbers that sixteen bits stand for. -/
def numbersOf (fields : UInt16 × UInt16 × UInt16) : Nat × Nat × Nat :=
  (fields.1.toNat, fields.2.1.toNat, fields.2.2.toNat)

/-- **A product that has a place in sixteen bits** is the product. -/
theorem product?_of_lt {a b : UInt16} (h : a.toNat * b.toNat < 65536) :
    ∃ c, product? a b = some c ∧ c.toNat = a.toNat * b.toNat := by
  refine ⟨a * b, if_pos h, ?_⟩
  rw [UInt16.toNat_mul]
  exact Nat.mod_eq_of_lt h

/-- The largest power of two of records, in sixteen bits. -/
theorem toNat_power {n : UInt16} (hn : n.toNat ≠ 0) :
    ((1 : UInt16) <<< UInt16.ofNat n.toNat.log2).toNat = 2 ^ n.toNat.log2 := by
  have hlt := n.toNat_lt
  have hexponent : n.toNat.log2 < 16 := (Nat.log2_lt hn).mpr hlt
  rw [UInt16.toNat_shiftLeft, UInt16.toNat_ofNat',
    Nat.mod_eq_of_lt (by omega : n.toNat.log2 < 2 ^ 16), Nat.mod_eq_of_lt hexponent,
    UInt16.toNat_one, Nat.shiftLeft_eq, Nat.one_mul]
  exact Nat.mod_eq_of_lt (Nat.lt_of_le_of_lt (Nat.log2_self_le hn) hlt)

/-- **What is reckoned are the search numbers**, for fewer than 4096 records;
and for more, reckoning overflows. -/
theorem map_numbersOf_searchFields? {n : UInt16} (hn : n.toNat ≠ 0) :
    (searchFields? n).map numbersOf
      = if n.toNat < 4096 then some (searchNumbers n.toNat) else none := by
  have hzero : n ≠ 0 := fun h => hn (by rw [h]; rfl)
  rw [searchFields?, if_neg hzero]
  dsimp only
  by_cases hlt : n.toNat < 4096
  · have hfits := (searchFits_iff _).mpr hlt
    have hpower := toNat_power hn
    obtain ⟨range, hrange, hrangeNat⟩ :=
      product?_of_lt (show ((1 : UInt16) <<< UInt16.ofNat n.toNat.log2).toNat * (16 : UInt16).toNat
        < 65536 by rw [hpower, Nat.mul_comm]; exact hfits.range)
    obtain ⟨bytes, hbytes, hbytesNat⟩ :=
      product?_of_lt (show n.toNat * (16 : UInt16).toNat < 65536 by
        rw [Nat.mul_comm]; exact hfits.bytes)
    rw [hpower, Nat.mul_comm] at hrangeNat
    rw [Nat.mul_comm] at hbytesNat
    have hle : range ≤ bytes := by
      rw [UInt16.le_iff_toNat_le, hrangeNat, hbytesNat]
      exact Nat.mul_le_mul_left _ (Nat.log2_self_le hn)
    rw [if_pos hlt, hrange, hbytes]
    show some (range.toNat, (UInt16.ofNat n.toNat.log2).toNat, (bytes - range).toNat) = _
    have hexponent : n.toNat.log2 < 2 ^ 16 :=
      Nat.lt_trans ((Nat.log2_lt hn).mpr n.toNat_lt) (by decide)
    rw [UInt16.toNat_sub_of_le _ _ hle, hrangeNat, hbytesNat, UInt16.toNat_ofNat',
      Nat.mod_eq_of_lt hexponent]
    rfl
  · -- The bytes of all records are too many, whatever becomes of the power of two.
    have hnone : product? n 16 = none := by
      refine if_neg fun h => hlt ?_
      rw [show (16 : UInt16).toNat = 16 from rfl] at h
      omega
    rw [if_neg hlt, hnone]
    cases product? (1 <<< UInt16.ofNat n.toNat.log2) 16 with
    | none => rfl
    | some range => rfl

/-- The same of a count of records that sixteen bits stand for. -/
theorem map_numbersOf_searchFields?_ofNat {count : Nat} (hne : count ≠ 0) (h : count < 65536) :
    (searchFields? (UInt16.ofNat count)).map numbersOf
      = if count < 4096 then some (searchNumbers count) else none := by
  have hcount : (UInt16.ofNat count).toNat = count := by
    rw [UInt16.toNat_ofNat', Nat.mod_eq_of_lt h]
  have hmap := map_numbersOf_searchFields? (hcount.symm ▸ hne)
  rwa [hcount] at hmap

/-- **There are search numbers for fewer than 4096 records**, and for no
more. -/
theorem isSome_searchFields?_iff {count : Nat} (h : count < 65536) :
    (searchFields? (UInt16.ofNat count)).isSome = true ↔ count < 4096 := by
  by_cases hzero : count = 0
  · rw [hzero]
    exact iff_of_true rfl (by decide)
  · rw [← Option.isSome_map (f := numbersOf), map_numbersOf_searchFields?_ofNat hzero h]
    by_cases hlt : count < 4096
    · rw [if_pos hlt]
      exact iff_of_true rfl hlt
    · rw [if_neg hlt]
      exact iff_of_false Bool.false_ne_true hlt

/-- **The search numbers that stand in a directory**, as they are read. -/
def searchNumbers? (directory : Bytes) : Option (Nat × Nat × Nat) := do
  return (← directory.u16? 6, ← directory.u16? 8, ← directory.u16? 10)

/-- The search numbers of a written directory are those that were reckoned. -/
theorem searchNumbers?_directory (version : UInt32) (records : List TableRecord)
    (rest : Bytes) :
    searchNumbers? (directory version records ++ rest)
      = some (numbersOf ((searchFields? (UInt16.ofNat records.length)).getD (0, 0, 0))) := by
  have hnumber : ∀ (pos : Nat) {n : UInt16} {behind : Bytes},
      (directory version records ++ rest).drop pos = Bytes.be16 n.toNat ++ behind →
        (directory version records ++ rest).u16? pos = some n.toNat := by
    intro pos n behind h
    rw [Bytes.u16?_of_drop h, Nat.mod_eq_of_lt n.toNat_lt]
  rw [searchNumbers?, hnumber 6 rfl, hnumber 8 rfl, hnumber 10 rfl]
  rfl

/-- **The search numbers of a directory are right** for fewer than 4096
records. -/
theorem searchNumbers?_directory_of_lt {records : List TableRecord} (version : UInt32)
    (rest : Bytes) (hne : records.length ≠ 0) (hlt : records.length < 4096) :
    searchNumbers? (directory version records ++ rest)
      = some (searchNumbers records.length) := by
  have hmap := map_numbersOf_searchFields?_ofNat hne (Nat.lt_trans hlt (by decide))
  rw [if_pos hlt] at hmap
  obtain ⟨fields, hfields, hnumbers⟩ := Option.map_eq_some_iff.mp hmap
  rw [searchNumbers?_directory, hfields, Option.getD_some, hnumbers]

end Layout

/-! ## Directories in a collection -/

namespace Font

open Layout (SearchFits numbersOf searchFields? searchNumbers searchNumbers?)

/-- **At a place of a file stands the directory of a member**, with a record
for each of its tables. -/
def HasDirectoryAt (file : Bytes) (place : Nat) (m : Member) : Prop :=
  ∃ records rest, records.length = m.tables.length ∧
    file.drop place = Layout.directory m.version records ++ rest

/-- At the places of a collection stand the directories of its members. -/
theorem forall₂_hasDirectoryAt (members : List Member) :
    List.Forall₂ (HasDirectoryAt (packMembers members)) (places members) members := by
  have hlength : ∀ p ∈ placed members, p.2.length = p.1.tables.length :=
    fun p hp => length_of_mem_zip_placeMembers hp
  have hplaces := forall₂_directoryOffsets (placed members) hlength (packMembers_eq members)
  rw [map_fst_placed, length_header_places] at hplaces
  obtain ⟨hcount, hplaced⟩ := List.forall₂_iff_zip.mp hplaces
  have hmembers : List.Forall₂ (HasDirectoryAt (packMembers members)) (places members)
      ((placed members).map Prod.fst) := by
    rw [List.forall₂_map_right_iff, List.forall₂_iff_zip]
    refine ⟨hcount, fun {place p} hp => ?_⟩
    obtain ⟨front, back, hdata, rfl⟩ := hplaced hp
    exact ⟨p.2, back, hlength p (List.of_mem_zip hp).2, by rw [hdata, List.drop_left]⟩
  rwa [map_fst_placed] at hmembers

/-! ## Fonts with as many tables as one likes -/

/-- A record of a table without bytes. -/
def voidRecord : TableRecord := ⟨Tag.named "void", 0, 12, 0⟩

/-- The table that it is a record of. -/
def voidTable : TableData := ⟨Tag.named "void", 0, []⟩

/-- **A font of many records**, all of them of one table without bytes. -/
def wideFont (count : Nat) : Bytes :=
  Layout.directory 0x00010000 (List.replicate count voidRecord)

/-- **Such a font can be read**, and each of its records counts. -/
theorem exists_readAt_wideFont {count : Nat} (hpos : 0 < count) (hlt : count < 65536) :
    ∃ font, readAt (wideFont count) 0 = .ok font ∧
      member font = ⟨0x00010000, List.replicate count voidTable⟩ := by
  have hversion : (0x00010000 : UInt32) ∈ versions := by decide
  have hcount : (List.replicate count voidRecord).length < 65536 := by
    rwa [List.length_replicate]
  have hfits : ∀ r ∈ List.replicate count voidRecord, r.Fits := fun r hr => by
    rw [List.eq_of_mem_replicate hr]
    exact ⟨by decide, by decide⟩
  have hread := readAt_directory hversion hcount hfits [] []
  rw [List.append_nil, List.nil_append] at hread
  refine ⟨_, hread, ?_⟩
  have hslice : voidRecord.slice? (wideFont count) = some [] := by
    have hlength : 12 + 0 ≤ (wideFont count).length := by
      rw [wideFont, Layout.length_directory, Layout.directoryLength]
      omega
    rw [TableRecord.slice?, if_neg (by decide), Bytes.slice?]
    exact if_pos hlength
  have htables : (⟨0x00010000, List.replicate count voidRecord, wideFont count⟩ : Font).tables
      voidRecord.tag = some [] := by
    obtain ⟨n, rfl⟩ := Nat.exists_eq_succ_of_ne_zero (Nat.ne_of_gt hpos)
    rw [tables, List.replicate_succ, List.find?_cons, beq_self_eq_true]
    exact hslice
  refine congrArg (Member.mk _) (List.filterMap_replicate_of_some ?_)
  exact congrArg (Option.map _) htables

/-- **A wide font can be packed** if it has fewer than 4096 tables. -/
theorem exists_pack_wideFont {count : Nat} (hpos : 0 < count) (hlt : count < 4096) :
    ∃ font file, readAt (wideFont count) 0 = .ok font ∧
      (member font).tables.length = count ∧ pack [wideFont count] = .ok file ∧
        collectionOffsets? file = some [16] := by
  obtain ⟨font, hread, hmember⟩ := exists_readAt_wideFont hpos (Nat.lt_trans hlt (by decide))
  have hfonts : List.Forall₂ (fun data font => readAt data 0 = .ok font) [wideFont count]
      [font] := List.Forall₂.cons hread List.Forall₂.nil
  have hcount : (member font).tables.length = count := by rw [hmember, List.length_replicate]
  have hbody : Layout.body (([font].map member).flatMap (·.tables)) = [] := by
    rw [List.map_singleton, List.flatMap_singleton, hmember, Layout.body,
      List.flatMap_eq_nil_iff]
    exact fun t ht => by rw [List.eq_of_mem_replicate ht]; rfl
  have hstart : bodyStart ([font].map member) = 28 + 16 * count := by
    rw [bodyStart, List.map_singleton, List.foldl_cons, List.foldl_nil, hcount,
      List.length_singleton, headerLength, Layout.directoryLength]
    omega
  have hlength : (packMembers ([font].map member)).length < 4294967296 := by
    rw [length_packMembers, hbody, hstart, List.length_nil]
    omega
  have hnone : failure? ([font].map member) = none := by
    refine failure?_eq_none_of_length_lt (fun m hm => ?_) hlength
    rw [List.mem_singleton.mp hm, hcount]
    exact (Layout.isSome_searchFields?_iff (Nat.lt_trans hlt (by decide))).mpr hlt
  have hpack := pack_of_forall₂ (List.cons_ne_nil _ _) hfonts
  rw [hnone] at hpack
  exact ⟨font, _, hread, hcount, hpack, collectionOffsets?_packMembers hnone⟩

/-! ## Where packing breaks off -/

/-- **Packing these members breaks off**: the header can be written, and so
can the members before the first of 4096 tables or more. -/
def BreaksOff (members : List Member) : Prop :=
  headerFits members = true ∧ ∃ before p after, placed members = before ++ p :: after ∧
    4096 ≤ p.1.tables.length ∧
      ∀ q ∈ before, q.1.tables.length < 4096 ∧ ∀ r ∈ q.2, r.Fits

/-- A member breaks a packing off by its number of tables. -/
theorem memberFailure?_eq_overflow_iff {m : Member} {records : List TableRecord}
    (h : m.tables.length < 65536) :
    memberFailure? m records = some .overflow ↔ 4096 ≤ m.tables.length := by
  rw [← Nat.not_lt, ← Layout.isSome_searchFields?_iff h, memberFailure?]
  cases Layout.searchFields? (UInt16.ofNat m.tables.length) with
  | none => exact iff_of_true rfl Bool.false_ne_true
  | some fields =>
    refine iff_of_false (fun hoverflow => ?_) (not_not_intro rfl)
    dsimp only at hoverflow
    split at hoverflow <;> cases hoverflow

/-- **Packing overflows where it breaks off**, and nowhere else. -/
theorem failure?_eq_overflow_iff {members : List Member}
    (hmembers : ∀ m ∈ members, m.tables.length < 65536) :
    failure? members = some .overflow ↔ BreaksOff members := by
  have hlength : ∀ p ∈ placed members, p.1.tables.length < 65536 :=
    fun p hp => hmembers _ (List.of_mem_zip hp).1
  by_cases hheader : headerFits members = true
  · have hfind : failure? members
        = (placed members).findSome? fun p => memberFailure? p.1 p.2 := by
      rw [failure?, if_pos hheader]
      rfl
    rw [hfind, List.findSome?_eq_some_iff, BreaksOff, and_iff_right hheader]
    refine exists_congr fun before => exists_congr fun p => exists_congr fun after =>
      and_congr_right fun hsplit => ?_
    rw [hsplit] at hlength
    refine and_congr (memberFailure?_eq_overflow_iff
      (hlength p (List.mem_append_right _ List.mem_cons_self))) ?_
    refine forall_congr' fun q => forall_congr' fun hq => ?_
    rw [memberFailure?_eq_none_iff,
      Layout.isSome_searchFields?_iff (hlength q (List.mem_append_left _ hq))]
  · have hfailure : failure? members = some .tooLarge := by rw [failure?, if_neg hheader]
    rw [hfailure]
    exact iff_of_false (by decide) fun h => hheader h.1

/-- Packing breaks off only at a member of 4096 tables or more. -/
theorem BreaksOff.exists_le_length {members : List Member} (h : BreaksOff members) :
    ∃ m ∈ members, 4096 ≤ m.tables.length := by
  obtain ⟨-, before, p, after, hsplit, hp, -⟩ := h
  have hmem : p ∈ placed members := by
    rw [hsplit]
    exact List.mem_append_right _ List.mem_cons_self
  exact ⟨p.1, (List.of_mem_zip hmem).1, hp⟩

/-- **Fonts overflow the packing** exactly if it breaks off at one of them. -/
theorem pack_eq_overflow_iff {files : List Bytes} {fonts : List Font}
    (hfonts : List.Forall₂ (fun data font => readAt data 0 = .ok font) files fonts) :
    pack files = .error .overflow ↔ BreaksOff (fonts.map member) := by
  rw [← failure?_eq_overflow_iff fun m hm => (version_mem_and_length_lt hfonts m hm).2]
  rcases eq_or_ne files [] with rfl | hne
  · cases hfonts
    exact iff_of_false nofun nofun
  · rw [pack_of_forall₂ hne hfonts]
    cases failure? (fonts.map member) with
    | none => exact iff_of_false nofun nofun
    | some error => exact ⟨fun h => congrArg some (Except.error.inj h), fun h =>
        congrArg Except.error (Option.some.inj h)⟩

/-- Where nothing keeps a collection from being written, no member has 4096
tables. -/
theorem length_lt_of_failure?_eq_none {members : List Member} (hnone : failure? members = none)
    (hmembers : ∀ m ∈ members, m.tables.length < 65536) :
    ∀ m ∈ members, m.tables.length < 4096 := by
  obtain ⟨-, hplaced⟩ := failure?_eq_none_iff.mp hnone
  intro m hm
  rw [← map_fst_placed members] at hm
  obtain ⟨p, hp, rfl⟩ := List.mem_map.mp hm
  exact (Layout.isSome_searchFields?_iff (hmembers _ (List.of_mem_zip hp).1)).mp
    (memberFailure?_eq_none_iff.mp (hplaced p hp)).1

/-! ## The search numbers of a collection -/

/-- The collection of files has the search numbers of its fonts, in their
directories. -/
theorem searchNumbers?_packMembers {fonts : List Font}
    (hlt : ∀ font ∈ fonts, (member font).tables.length < 4096) :
    List.Forall₂ (fun place font => (member font).tables.length ≠ 0 →
        searchNumbers? ((packMembers (fonts.map member)).drop place)
          = some (searchNumbers (member font).tables.length))
      (places (fonts.map member)) fonts := by
  obtain ⟨hcount, hplaces⟩ := List.forall₂_iff_zip.mp
    (List.forall₂_map_right_iff.mp (forall₂_hasDirectoryAt (fonts.map member)))
  refine List.forall₂_iff_zip.mpr ⟨hcount, fun {place font} hp hne => ?_⟩
  obtain ⟨records, rest, hlength, hdrop⟩ := hplaces hp
  have hrecords := hlt font (List.of_mem_zip hp).2
  rw [← hlength] at hne hrecords ⊢
  rw [hdrop]
  exact Layout.searchNumbers?_directory_of_lt _ rest hne hrecords

/-- **The search numbers of a collection are right wherever there is one.**
Reckoning those of a font fits in sixteen bits exactly if the font brings fewer
than 4096 tables; then it gives the right numbers, and otherwise it overflows.
Packing breaks off exactly if it comes to a font that has more, so it never does
where no font has; and in every collection that is written, the right numbers
stand in the directory of each font that has tables. -/
theorem searchNumbers_iff_of_fonts {files : List Bytes} {fonts : List Font}
    (hfonts : List.Forall₂ (fun data font => readAt data 0 = .ok font) files fonts) :
    (∀ font ∈ fonts, (SearchFits (member font).tables.length
          ↔ (member font).tables.length < 4096) ∧
        ((member font).tables.length ≠ 0 →
          (searchFields? (UInt16.ofNat (member font).tables.length)).map numbersOf
            = if (member font).tables.length < 4096
              then some (searchNumbers (member font).tables.length) else none)) ∧
      (pack files = .error .overflow ↔ BreaksOff (fonts.map member)) ∧
      ((∀ font ∈ fonts, (member font).tables.length < 4096) → pack files ≠ .error .overflow) ∧
      ∀ file, pack files = .ok file →
        (∀ font ∈ fonts, (member font).tables.length < 4096) ∧
        ∃ places, collectionOffsets? file = some places ∧
          List.Forall₂ (fun place font => (member font).tables.length ≠ 0 →
            searchNumbers? (file.drop place)
              = some (searchNumbers (member font).tables.length)) places fonts := by
  have hlength : ∀ m ∈ fonts.map member, m.tables.length < 65536 :=
    fun m hm => (version_mem_and_length_lt hfonts m hm).2
  refine ⟨fun font hfont => ⟨Layout.searchFits_iff _, fun hne => ?_⟩,
    pack_eq_overflow_iff hfonts, fun hlt hoverflow => ?_, fun file hpack => ?_⟩
  · exact Layout.map_numbersOf_searchFields?_ofNat hne (hlength _ (List.mem_map_of_mem hfont))
  · obtain ⟨m, hm, hmany⟩ := ((pack_eq_overflow_iff hfonts).mp hoverflow).exists_le_length
    obtain ⟨font, hfont, rfl⟩ := List.mem_map.mp hm
    exact absurd (hlt font hfont) (Nat.not_lt.mpr hmany)
  · obtain ⟨fonts', hfonts', hnone, rfl⟩ := of_pack_eq_ok hpack
    obtain rfl : fonts = fonts' := Except.ok.inj
      ((mapM_eq_ok_iff_forall₂.mpr hfonts).symm.trans (mapM_eq_ok_iff_forall₂.mpr hfonts'))
    have hlt : ∀ font ∈ fonts, (member font).tables.length < 4096 := fun font hfont =>
      length_lt_of_failure?_eq_none hnone hlength _ (List.mem_map_of_mem hfont)
    exact ⟨hlt, places (fonts.map member), collectionOffsets?_packMembers hnone,
      searchNumbers?_packMembers hlt⟩

/-- With 4095 tables the search numbers are right. -/
theorem searchNumbers_iff_of_fonts_of_wideFont :
    ∃ font file, readAt (wideFont 4095) 0 = .ok font ∧ pack [wideFont 4095] = .ok file ∧
      SearchFits (member font).tables.length ∧ collectionOffsets? file = some [16] ∧
        searchNumbers? (file.drop 16) = some (32768, 11, 32752) := by
  obtain ⟨font, file, hread, hcount, hpack, hplaces⟩ :=
    exists_pack_wideFont (show 0 < 4095 by decide) (by decide)
  obtain ⟨hfits, -, -, hwritten⟩ :=
    searchNumbers_iff_of_fonts (List.Forall₂.cons hread List.Forall₂.nil)
  obtain ⟨hlt, places, hplaces', hnumbers⟩ := hwritten file hpack
  obtain rfl : [16] = places := Option.some.inj (hplaces.symm.trans hplaces')
  have hfirst := (List.forall₂_cons.mp hnumbers).1 (by rw [hcount]; decide)
  have hsingle := List.mem_singleton_self font
  refine ⟨font, file, hread, hpack, (hfits font hsingle).1.mpr (hlt font hsingle), hplaces, ?_⟩
  rw [hfirst, hcount]
  decide

/-- **With 4096 tables packing breaks off**: the first search number should be
65536, which has no place in sixteen bits. -/
theorem pack_wideFont_eq_overflow :
    ∃ font, readAt (wideFont 4096) 0 = .ok font ∧ (member font).tables.length = 4096 ∧
      searchNumbers 4096 = (65536, 12, 0) ∧ ¬SearchFits 4096 ∧
        pack [wideFont 4096] = .error .overflow := by
  obtain ⟨font, hread, hmember⟩ := exists_readAt_wideFont (show 0 < 4096 by decide) (by decide)
  have hcount : (member font).tables.length = 4096 := by rw [hmember, List.length_replicate]
  have hbreaks : BreaksOff ([font].map member) := by
    have hheader : headerFits [member font] = true := rfl
    exact ⟨hheader, [], _, [], rfl, Nat.le_of_eq hcount.symm, nofun⟩
  refine ⟨font, hread, hcount, by decide, by rw [Layout.searchFits_iff]; decide, ?_⟩
  exact (pack_eq_overflow_iff (List.Forall₂.cons hread List.Forall₂.nil)).mpr hbreaks

end Font

end FontCatalog
