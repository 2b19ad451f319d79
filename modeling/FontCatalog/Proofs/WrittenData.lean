import FontCatalog.Proofs.RelatedLists
import FontCatalog.Sfnt.Layout

/-!
# Written data read back

Everything that is written is a concatenation, and a reader sees only what
is left from a position on. So what a reader finds at a position is told
by an equation `b.drop pos = be16 n ++ rest`: for a table with a fixed
layout it holds by computation, and behind a front of known length by
`List.drop_left`.

An array of records is the concatenation of records of one width
(`Bytes.records?_flatMap`). A directory is such an array behind a header,
and `Font.readAt_directory` says that reading a written directory gives
the version and the records it was written from, wherever it stands. That
holds for every list of records whose numbers fit their fields. The three
search numbers are not looked at.

Which bytes a directory's records point at is the other half:
`Font.Stores` relates the records of a font to the tables whose bytes lie
where the records say, and a font that stores tables has those tables
(`Font.tables_of_stores`).
-/

namespace FontCatalog

namespace Bytes

/-! ## Numbers -/

/-- A number that is read has sixteen bits. -/
theorem lt_of_u16?_eq_some {b : Bytes} {pos n : Nat} (h : b.u16? pos = some n) : n < 65536 := by
  unfold u16? at h
  split at h
  · next hi lo _ _ =>
    obtain rfl := Option.some.inj h
    have hhi := hi.toNat_lt
    have hlo := lo.toNat_lt
    omega
  · cases h

/-- The number whose two bytes come next is the number at the position. -/
theorem u16?_of_drop {b rest : Bytes} {pos n : Nat} (h : b.drop pos = be16 n ++ rest) :
    b.u16? pos = some (n % 65536) := by
  have hread := u16?_be16_append [] rest n
  rw [List.nil_append, ← h, List.length_nil, u16?_drop] at hread
  exact hread

/-- The number whose four bytes come next is the number at the position. -/
theorem u32?_of_drop {b rest : Bytes} {pos n : Nat} (h : b.drop pos = be32 n ++ rest) :
    b.u32? pos = some (n % 4294967296) := by
  have hread := u32?_be32_append [] rest n
  rw [List.nil_append, ← h, List.length_nil, u32?_drop] at hread
  exact hread

/-- The signed number whose two bytes come next is the number at the
position, if it is a number of sixteen bits. -/
theorem i16?_of_drop {b rest : Bytes} {pos : Nat} {i : Int}
    (h : b.drop pos = beSigned16 i ++ rest) (hlo : -32768 ≤ i) (hhi : i < 32768) :
    b.i16? pos = some i := by
  rw [i16?, u16?_of_drop h, Option.map_some, signed]
  refine congrArg some ?_
  show Int.bmod _ 65536 = i
  rw [Int.bmod_def]
  split <;> omega

/-- The same for the number of a machine word. -/
theorem i16?_of_drop_toInt {b rest : Bytes} {pos : Nat} {n : Int16}
    (h : b.drop pos = beSigned16 n.toInt ++ rest) : b.i16? pos = some n.toInt :=
  i16?_of_drop h n.le_toInt n.toInt_lt

/-! A written field is left behind by a position after it. -/

theorem drop_be16_append (n : Nat) (b : Bytes) (pos : Nat) :
    (be16 n ++ b).drop (pos + 2) = b.drop pos := rfl

theorem drop_be32_append (n : Nat) (b : Bytes) (pos : Nat) :
    (be32 n ++ b).drop (pos + 4) = b.drop pos := rfl

theorem drop_beSigned16_append (i : Int) (b : Bytes) (pos : Nat) :
    (beSigned16 i ++ b).drop (pos + 2) = b.drop pos := rfl

/-! ## Records -/

/-- A slice ends within the bytes. -/
theorem add_le_length_of_slice?_eq_some {b part : Bytes} {start len : Nat}
    (h : b.slice? start len = some part) : start + len ≤ b.length := by
  unfold slice? at h
  split at h
  · next hfits => exact hfits
  · cases h

theorem from?_append (before rest : Bytes) :
    from? (before ++ rest) before.length = some rest := by
  rw [from?, if_pos (by rw [List.length_append]; omega), List.drop_left]

/-- Data from a position on is what is left there. -/
theorem eq_drop_of_from?_eq_some {b rest : Bytes} {start : Nat}
    (h : b.from? start = some rest) : rest = b.drop start := by
  unfold from? at h
  split at h
  · exact (Option.some.inj h).symm
  · cases h

/-! ## Arrays of records -/

variable {α : Type} {width : Nat} {encode : α → Bytes}

/-- Records of one width have the length of that many widths. -/
theorem length_flatMap_of_width (hwidth : ∀ x, (encode x).length = width) (xs : List α) :
    (xs.flatMap encode).length = width * xs.length := by
  induction xs with
  | nil => rfl
  | cons x xs ih =>
    rw [List.flatMap_cons, List.length_append, hwidth, ih, List.length_cons, Nat.mul_succ,
      Nat.add_comm]

/-- Records of one width fall apart into the records. -/
theorem chunks_flatMap (hwidth : ∀ x, (encode x).length = width) (xs : List α) (rest : Bytes) :
    chunks width xs.length (xs.flatMap encode ++ rest) = xs.map encode := by
  induction xs with
  | nil => rfl
  | cons x xs ih =>
    rw [List.flatMap_cons, List.append_assoc, List.length_cons, chunks, List.map_cons,
      List.take_left' (hwidth x), List.drop_left' (hwidth x), ih]

/-- **A written array reads back** as its records, wherever it stands. -/
theorem records?_flatMap (hwidth : ∀ x, (encode x).length = width) (xs : List α)
    (before rest : Bytes) :
    records? (before ++ (xs.flatMap encode ++ rest)) before.length width xs.length
      = some (xs.map encode) := by
  have hslice := slice?_append before (xs.flatMap encode) rest
  rw [length_flatMap_of_width hwidth] at hslice
  have hchunks := chunks_flatMap hwidth xs []
  rw [List.append_nil] at hchunks
  rw [records?, hslice, Option.map_some, hchunks]

/-- Records that are each read back are read back together. -/
theorem mapM_read_map_encode {β : Type} {read? : Bytes → Option β} (value : α → β)
    {xs : List α} (hread : ∀ x ∈ xs, read? (encode x) = some (value x)) :
    (xs.map encode).mapM read? = some (xs.map value) := by
  induction xs with
  | nil => rfl
  | cons x xs ih =>
    rw [List.map_cons, List.mapM_cons, hread x (List.mem_cons_self ..),
      ih fun y hy => hread y (List.mem_cons_of_mem _ hy)]
    rfl

end Bytes

/-! ## Directories -/

namespace TableRecord

/-- **A record whose numbers fit their four bytes each.** -/
def Fits (r : TableRecord) : Prop := r.offset < 4294967296 ∧ r.length < 4294967296

end TableRecord

theorem Tag.ofNat_toNat (tag : Tag) : Tag.ofNat tag.code.toNat = tag := by
  rw [Tag.ofNat, UInt32.ofNat_toNat]

namespace Layout

/-- A written record reads back. -/
theorem read?_record {r : TableRecord} (h : r.Fits) : TableRecord.read? (record r) = some r := by
  have htag : (record r).u32? 0 = some (r.tag.code.toNat % 4294967296) :=
    Bytes.u32?_of_drop rfl
  have hchecksum : (record r).u32? 4 = some (r.checksum.toNat % 4294967296) :=
    Bytes.u32?_of_drop rfl
  have hoffset : (record r).u32? 8 = some (r.offset % 4294967296) := Bytes.u32?_of_drop rfl
  have hlength : (record r).u32? 12 = some (r.length % 4294967296) :=
    Bytes.u32?_of_drop (show (record r).drop 12 = Bytes.be32 r.length ++ [] from rfl)
  rw [Nat.mod_eq_of_lt r.tag.code.toNat_lt] at htag
  rw [Nat.mod_eq_of_lt r.checksum.toNat_lt] at hchecksum
  rw [Nat.mod_eq_of_lt h.1] at hoffset
  rw [Nat.mod_eq_of_lt h.2] at hlength
  simp only [TableRecord.read?, htag, hchecksum, hoffset, hlength, Option.bind_eq_bind,
    Option.bind_some, Option.pure_def, Tag.ofNat_toNat, UInt32.ofNat_toNat]

/-- Placed records stay within their body. -/
theorem offset_add_length_le_of_mem_place {start : Nat} {ts : List TableData} {r : TableRecord}
    (h : r ∈ place start ts) :
    start ≤ r.offset ∧ r.offset + r.length ≤ start + (body ts).length := by
  induction ts generalizing start with
  | nil => cases h
  | cons t ts ih =>
    have hpadded := Bytes.length_padded t.bytes
    rw [body, List.flatMap_cons, List.length_append]
    rcases List.mem_cons.mp h with rfl | h
    · exact ⟨Nat.le_refl _, by dsimp only; omega⟩
    · have hrest := ih h
      rw [body] at hrest
      omega

/-- The records are in the order of their tables. -/
theorem map_tag_place (start : Nat) (ts : List TableData) :
    (place start ts).map (·.tag) = ts.map (·.tag) := by
  induction ts generalizing start with
  | nil => rfl
  | cons t ts ih => rw [place, List.map_cons, List.map_cons, ih]

/-- Tables behind other tables are placed behind their bodies. -/
theorem place_append (start : Nat) (ts us : List TableData) :
    place start (ts ++ us) = place start ts ++ place (start + (body ts).length) us := by
  induction ts generalizing start with
  | nil => rfl
  | cons t ts ih =>
    rw [List.cons_append, place, place, ih, List.cons_append, body, body, List.flatMap_cons,
      List.length_append, Nat.add_assoc]

/-- A directory is its version, the number of its records, six bytes for
searches and the records. -/
theorem directory_eq (version : UInt32) (records : List TableRecord) :
    ∃ search : Bytes, search.length = 6 ∧
      directory version records
        = Bytes.be32 version.toNat ++ (Bytes.be16 (records.length % 65536)
            ++ (search ++ records.flatMap record)) := by
  let fields := (searchFields? (UInt16.ofNat records.length)).getD (0, 0, 0)
  refine ⟨Bytes.be16 fields.1.toNat
    ++ (Bytes.be16 fields.2.1.toNat ++ Bytes.be16 fields.2.2.toNat), rfl, ?_⟩
  rw [directory, UInt16.toNat_ofNat']
  simp only [List.append_assoc, fields]

end Layout

namespace Font

/-- **A written directory reads back**, wherever it stands in the data. -/
theorem readAt_directory {version : UInt32} {records : List TableRecord}
    (hversion : version ∈ versions) (hcount : records.length < 65536)
    (hfits : ∀ r ∈ records, r.Fits) (before rest : Bytes) :
    readAt (before ++ (Layout.directory version records ++ rest)) before.length
      = .ok ⟨version, records, before ++ (Layout.directory version records ++ rest)⟩ := by
  obtain ⟨search, hsearch, hdirectory⟩ := Layout.directory_eq version records
  rw [Nat.mod_eq_of_lt hcount] at hdirectory
  -- What is left of the data where the directory starts, and the three numbers read there.
  have hversion? : (Layout.directory version records ++ rest).u32? 0
      = some version.toNat := by
    rw [Bytes.u32?_of_drop (n := version.toNat) (by rw [hdirectory, List.append_assoc]; rfl),
      Nat.mod_eq_of_lt version.toNat_lt]
  have hcount? : (Layout.directory version records ++ rest).u16? 4
      = some records.length := by
    rw [Bytes.u16?_of_drop (n := records.length)
        (by rw [hdirectory, List.append_assoc, List.append_assoc]; rfl),
      Nat.mod_eq_of_lt hcount]
  have hrecords? : (Layout.directory version records ++ rest).records? 12 16 records.length
      = some (records.map Layout.record) := by
    have hheader : (Bytes.be32 version.toNat ++ (Bytes.be16 records.length ++ search)).length
        = 12 := by
      rw [List.length_append, List.length_append, hsearch]
      rfl
    have hread := Bytes.records?_flatMap Layout.length_record records
      (Bytes.be32 version.toNat ++ (Bytes.be16 records.length ++ search)) rest
    rw [hheader] at hread
    rw [hdirectory]
    simpa only [List.append_assoc] using hread
  have hmap : (records.map Layout.record).mapM TableRecord.read? = some (records.map id) :=
    Bytes.mapM_read_map_encode id fun r hr => Layout.read?_record (hfits r hr)
  rw [List.map_id] at hmap
  simp only [readAt, Bytes.from?_append, hcount?, hrecords?, hversion?, hmap,
    Option.bind_eq_bind, Option.bind_some, Option.pure_def, UInt32.ofNat_toNat, hversion,
    if_true]

/-! ## The tables a font has -/

/-- **The records of a font point at these tables**, one by one: the tags
and checksums agree, and where a record says, the bytes of its table
lie. -/
def Stores (data : Bytes) : List TableRecord → List TableData → Prop :=
  List.Forall₂ fun r t => r.tag = t.tag ∧ r.checksum = t.checksum ∧ r.slice? data = some t.bytes

/-- Placed records store the tables they were placed for. -/
theorem stores_place {before : Bytes} (hbefore : before ≠ []) (ts : List TableData)
    (rest : Bytes) :
    Stores (before ++ (Layout.body ts ++ rest)) (Layout.place before.length ts) ts := by
  induction ts generalizing before with
  | nil => exact List.Forall₂.nil
  | cons t ts ih =>
    have hdata : before ++ (Layout.body (t :: ts) ++ rest)
        = before ++ t.bytes.padded ++ (Layout.body ts ++ rest) := by
      rw [Layout.body, List.flatMap_cons, Layout.body, List.append_assoc, List.append_assoc]
    have hrest := ih (List.append_ne_nil_of_left_ne_nil hbefore t.bytes.padded)
    rw [← hdata, List.length_append] at hrest
    refine List.Forall₂.cons ⟨rfl, rfl, ?_⟩ hrest
    rw [TableRecord.slice?, if_neg (Nat.ne_of_gt (List.length_pos_of_ne_nil hbefore)), hdata,
      Bytes.padded, List.append_assoc, List.append_assoc]
    exact Bytes.slice?_append before t.bytes _

/-- **A font has the tables it stores**: of several with one tag, the
first. -/
theorem tables_of_stores {font : Font} {ts : List TableData}
    (h : Stores font.data font.records ts) (tag : Tag) :
    font.tables tag = (ts.find? (·.tag == tag)).map (·.bytes) := by
  rw [tables]
  generalize font.records = records at h
  induction h with
  | nil => rfl
  | @cons r t rs ts hrt hrest ih =>
    obtain ⟨htag, -, hslice⟩ := hrt
    rw [List.find?_cons, List.find?_cons, htag]
    cases t.tag == tag with
    | true => exact hslice
    | false => exact ih

/-- Where tags tell records apart, a tag finds the table of its record. -/
theorem tables_tag_of_mem {font : Font} (hnodup : (font.records.map (·.tag)).Nodup)
    {r : TableRecord} (hr : r ∈ font.records) : font.tables r.tag = r.slice? font.data := by
  rw [tables, find?_key_of_mem hnodup hr]
  rfl

/-- Where no record has a tag, there is no table of it. -/
theorem tables_eq_none_of_notMem {font : Font} {tag : Tag}
    (h : tag ∉ font.records.map (·.tag)) : font.tables tag = none := by
  rw [tables, Option.bind_eq_none_iff]
  intro r hr
  have htag := List.find?_some hr
  have hmem : r.tag ∈ font.records.map (·.tag) :=
    List.mem_map_of_mem (List.mem_of_find?_eq_some hr)
  rw [beq_iff_eq.mp htag] at hmem
  exact absurd hmem h

end Font

end FontCatalog
