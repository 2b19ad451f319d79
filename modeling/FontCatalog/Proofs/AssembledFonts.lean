import FontCatalog.Proofs.RelatedLists
import FontCatalog.Proofs.WrittenData
import FontCatalog.Sfnt.Checksum
import Mathlib.Data.List.Perm.Basic

/-!
# Assembled fonts read back

`Font.assemble` does two things to the tables it is given that a reader
must not notice. The directory is sorted by tags while the tables stay in
their order, and the `head` table is written with an adjustment that is
known only when everything else is.

The first is harmless since a record points at its table wherever the
record stands, as long as no two tables have one tag: then a tag finds its
record in any order of the records (`Font.tables_tag_of_mem`). The second is
harmless since it keeps the length of the table, so no table moves.
`Font.readAt_assemble` puts both together: the file reads back as a font
that has the given tables and no others, the `head` table but for the four
bytes of its adjustment.
-/

namespace FontCatalog

/-- Places depend only on the lengths of tables, and records on their tags
and checksums besides. -/
theorem Layout.place_map_congr {α : Type} {xs : List α} {table other : α → TableData}
    (h : ∀ x ∈ xs, (table x).tag = (other x).tag ∧ (table x).checksum = (other x).checksum ∧
      (table x).bytes.length = (other x).bytes.length) (start : Nat) :
    place start (xs.map table) = place start (xs.map other) := by
  induction xs generalizing start with
  | nil => rfl
  | cons x xs ih =>
    obtain ⟨htag, hchecksum, hlength⟩ := h x (List.mem_cons_self ..)
    rw [List.map_cons, List.map_cons, place, place, htag, hchecksum, Bytes.length_padded,
      Bytes.length_padded, hlength, ih fun y hy => h y (List.mem_cons_of_mem _ hy)]

namespace Font

/-! ## The adjustment -/

/-- A complete `head` table keeps its length. -/
theorem length_withAdjustment {head : Bytes} (h : 12 ≤ head.length) (n : UInt32) :
    (withAdjustment head n).length = head.length := by
  rw [withAdjustment, List.length_append, List.length_append, List.length_take,
    List.length_drop, Bytes.length_be32]
  omega

/-- Behind the adjustment the table is as it was. -/
theorem drop_withAdjustment {head : Bytes} (h : 12 ≤ head.length) (n : UInt32) {pos : Nat}
    (hpos : 12 ≤ pos) : (withAdjustment head n).drop pos = head.drop pos := by
  have hfront : (head.take 8 ++ Bytes.be32 n.toNat).length = 12 := by
    rw [List.length_append, List.length_take, Bytes.length_be32]
    omega
  obtain ⟨k, rfl⟩ := Nat.exists_eq_add_of_le hpos
  rw [← List.drop_drop, withAdjustment, List.drop_left' hfront, List.drop_drop]

/-- **The bytes of a table in a file** that is adjusted by `n`. -/
def adjustedBytes (n : UInt32) (tag : Tag) (bytes : Bytes) : Bytes :=
  if tag = Tag.named "head" then withAdjustment bytes n else bytes

/-- A table other than `head` is written as it is. -/
theorem adjustedBytes_of_ne {tag : Tag} (h : tag ≠ Tag.named "head") (n : UInt32)
    (bytes : Bytes) : adjustedBytes n tag bytes = bytes := if_neg h

/-- A table as it lies in the file: the checksum is that of the table as
it was given. -/
def adjusted (n : UInt32) (t : Tag × Bytes) : TableData :=
  ⟨t.1, t.2.checksum, adjustedBytes n t.1 t.2⟩

variable {version : UInt32} {tables : List (Tag × Bytes)}

/-- The directory of an assembled font: the records of its tables, sorted
by their tags. -/
def sortedRecords (tables : List (Tag × Bytes)) : List TableRecord :=
  (Layout.place (Layout.directoryLength tables.length)
    (tables.map fun t => checked t.1 t.2)).mergeSort fun r s => r.tag.le s.tag

/-- **An assembled font** is its directory and the adjusted tables. -/
theorem assemble_eq (version : UInt32) (tables : List (Tag × Bytes)) :
    ∃ n, assemble version tables
      = Layout.directory version (sortedRecords tables)
        ++ Layout.body (tables.map (adjusted n)) := by
  have hadjusted : ∀ n, (tables.map fun t => checked t.1 t.2).map (fun t =>
      if t.tag = Tag.named "head" then { t with bytes := withAdjustment t.bytes n } else t)
        = tables.map (adjusted n) := by
    intro n
    rw [List.map_map]
    refine List.map_congr_left fun t _ => ?_
    rw [Function.comp_apply, adjusted, adjustedBytes, checked]
    split <;> rfl
  obtain ⟨n, hn⟩ : ∃ n, assemble version tables
      = Layout.directory version ((Layout.place
          (Layout.directoryLength (tables.map fun t => checked t.1 t.2).length)
          (tables.map fun t => checked t.1 t.2)).mergeSort fun r s => r.tag.le s.tag)
        ++ Layout.body ((tables.map fun t => checked t.1 t.2).map fun t =>
          if t.tag = Tag.named "head" then { t with bytes := withAdjustment t.bytes n } else t) :=
    ⟨_, rfl⟩
  refine ⟨n, ?_⟩
  rw [hn, hadjusted, List.length_map]
  rfl

/-! ## What a reader finds -/

/-- The adjusted table is as long as the table that was given. -/
theorem length_adjustedBytes {t : Tag × Bytes}
    (h : t.1 = Tag.named "head" → 12 ≤ t.2.length) (n : UInt32) :
    (adjustedBytes n t.1 t.2).length = t.2.length := by
  unfold adjustedBytes
  split
  · next hhead => exact length_withAdjustment (h hhead) n
  · rfl

/-- The body of the adjusted tables is as long as that of the tables that
were given. -/
theorem length_body_adjusted (hhead : ∀ t ∈ tables, t.1 = Tag.named "head" → 12 ≤ t.2.length)
    (n : UInt32) :
    (Layout.body (tables.map (adjusted n))).length
      = (Layout.body (tables.map fun t => checked t.1 t.2)).length := by
  induction tables with
  | nil => rfl
  | cons t tables ih =>
    obtain ⟨ht, htables⟩ := List.forall_mem_cons.mp hhead
    have hlength : (adjusted n t).bytes.length = (checked t.1 t.2).bytes.length :=
      length_adjustedBytes ht n
    have hrest := ih htables
    rw [Layout.body, Layout.body] at hrest
    rw [Layout.body, Layout.body, List.map_cons, List.map_cons, List.flatMap_cons,
      List.flatMap_cons, List.length_append, List.length_append, hrest, Bytes.length_padded,
      Bytes.length_padded, hlength]

theorem length_sortedRecords (tables : List (Tag × Bytes)) :
    (sortedRecords tables).length = tables.length := by
  rw [sortedRecords, List.length_mergeSort, Layout.length_place, List.length_map]

/-- **The records point at the adjusted tables**, which have the places of
the tables that were given. -/
theorem sortedRecords_perm (hhead : ∀ t ∈ tables, t.1 = Tag.named "head" → 12 ≤ t.2.length)
    (n : UInt32) :
    (sortedRecords tables).Perm
      (Layout.place (Layout.directoryLength tables.length) (tables.map (adjusted n))) := by
  have hsame : ∀ t ∈ tables, (checked t.1 t.2).tag = (adjusted n t).tag ∧
      (checked t.1 t.2).checksum = (adjusted n t).checksum ∧
      (checked t.1 t.2).bytes.length = (adjusted n t).bytes.length :=
    fun t ht => ⟨rfl, rfl, (length_adjustedBytes (hhead t ht) n).symm⟩
  rw [sortedRecords, Layout.place_map_congr hsame]
  exact List.mergeSort_perm _ _

/-- The records have the tags of the tables, in another order. -/
theorem map_tag_sortedRecords (tables : List (Tag × Bytes)) :
    ((sortedRecords tables).map (·.tag)).Perm (tables.map Prod.fst) := by
  have hplaced : ((Layout.place (Layout.directoryLength tables.length)
      (tables.map fun t => checked t.1 t.2)).map (·.tag)) = tables.map Prod.fst := by
    rw [Layout.map_tag_place, List.map_map]
    rfl
  exact hplaced ▸ (List.mergeSort_perm _ _).map _

/-- How long an assembled font is. -/
theorem length_assemble (hhead : ∀ t ∈ tables, t.1 = Tag.named "head" → 12 ≤ t.2.length) :
    (assemble version tables).length = Layout.directoryLength tables.length
      + (Layout.body (tables.map fun t => checked t.1 t.2)).length := by
  obtain ⟨n, hfile⟩ := assemble_eq version tables
  rw [hfile, List.length_append, Layout.length_directory, length_sortedRecords,
    length_body_adjusted hhead]

/-- **What an assembled font reads back as.** In the file there are the
tables that were given, the `head` table with some adjustment, and there is
no other table. -/
theorem readAt_assemble (hversion : version ∈ versions) (hcount : tables.length < 65536)
    (hnodup : (tables.map Prod.fst).Nodup)
    (hhead : ∀ t ∈ tables, t.1 = Tag.named "head" → 12 ≤ t.2.length)
    (hlength : (assemble version tables).length < 4294967296) :
    ∃ n font, readAt (assemble version tables) 0 = .ok font ∧
      (∀ t ∈ tables, font.tables t.1 = some (adjustedBytes n t.1 t.2)) ∧
      ∀ tag, tag ∉ tables.map Prod.fst → font.tables tag = none := by
  rw [length_assemble hhead] at hlength
  obtain ⟨n, hfile⟩ := assemble_eq version tables
  have hdirectory : (Layout.directory version (sortedRecords tables)).length
      = Layout.directoryLength tables.length := by
    rw [Layout.length_directory, length_sortedRecords]
  have hfits : ∀ r ∈ sortedRecords tables, r.Fits := by
    intro r hr
    rw [(sortedRecords_perm hhead n).mem_iff] at hr
    have hwithin := Layout.offset_add_length_le_of_mem_place hr
    rw [length_body_adjusted hhead] at hwithin
    exact ⟨by omega, by omega⟩
  have hread := readAt_directory hversion (length_sortedRecords _ ▸ hcount) hfits []
    (Layout.body (tables.map (adjusted n)))
  rw [List.nil_append, ← hfile] at hread
  let font : Font := ⟨version, sortedRecords tables, assemble version tables⟩
  have htags : (font.records.map (·.tag)).Perm (tables.map Prod.fst) :=
    map_tag_sortedRecords tables
  refine ⟨n, font, hread, fun t ht => ?_, fun tag htag => ?_⟩
  · -- A table lies where its record says, whatever the place of the record.
    have hpos : 0 < (Layout.directory version (sortedRecords tables)).length := by
      rw [hdirectory]
      exact Nat.lt_of_lt_of_le (by decide) (Nat.le_add_right 12 _)
    have hplaced := stores_place (List.ne_nil_of_length_pos hpos) (tables.map (adjusted n)) []
    rw [hdirectory, List.append_nil, ← hfile] at hplaced
    obtain ⟨r, hr, htag, -, hslice⟩ := exists_left_of_mem_right hplaced (List.mem_map_of_mem ht)
    have hmem : r ∈ font.records := (sortedRecords_perm hhead n).mem_iff.mpr hr
    have hfound := tables_tag_of_mem (htags.nodup_iff.mpr hnodup) hmem
    rw [htag] at hfound
    exact hfound.trans hslice
  · exact tables_eq_none_of_notMem fun hmem => htag (htags.mem_iff.mp hmem)

/-- The body takes the bytes of the tables and some padding. -/
theorem length_body_checked_le (tables : List (Tag × Bytes)) :
    (Layout.body (tables.map fun t => checked t.1 t.2)).length
      ≤ (tables.flatMap (·.2)).length + 3 * tables.length := by
  induction tables with
  | nil => exact Nat.le_refl _
  | cons t tables ih =>
    have hpadded : (checked t.1 t.2).bytes.padded.length ≤ t.2.length + 3 := by
      rw [Bytes.length_padded, Bytes.paddingOf]
      show t.2.length + _ ≤ _
      omega
    rw [List.map_cons, List.flatMap_cons, List.length_append, List.length_cons, Layout.body,
      List.flatMap_cons, List.length_append]
    rw [Layout.body] at ih
    omega

/-- How long an assembled font is at most: every table takes a record, its
bytes and some padding. -/
theorem length_assemble_le (hhead : ∀ t ∈ tables, t.1 = Tag.named "head" → 12 ≤ t.2.length) :
    (assemble version tables).length
      ≤ 12 + ((tables.flatMap (·.2)).length + 19 * tables.length) := by
  have hbody := length_body_checked_le tables
  rw [length_assemble hhead, Layout.directoryLength]
  omega

end Font

end FontCatalog
