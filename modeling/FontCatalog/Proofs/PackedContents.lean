import FontCatalog.Bundle.Document
import FontCatalog.Proofs.PackedFonts
import FontCatalog.Proofs.SameFonts

/-!
# What is packed comes out as it went in

A package is filled by appending: fonts, of which it remembers where they lie,
and other things, of which it does not. Two things are to be seen of it from
outside, its bytes and its ranges, and both are fixed by what was appended, in
its order.

The bytes are the payloads one behind the other, and between them nothing but
the zeros that bring the next font to a multiple of four (`PackageItem.Takes`).
The ranges start at such multiples and follow each other without overlapping
(`FontPackage.Tidy`), and since bytes are only ever added at the end, what they
select they go on selecting. Each appended item keeps all this, and so does any
number of them.

From there it is a matter of reading. An owner can lend the fonts exactly if it
has enough bytes for each of them (`FontPackage.Tidy.exists_sources_iff`), and
the package itself has. A document is a package that starts with a text, so its
text and its fonts are those it was made from; and a set that is built from its
fonts is the set of the fonts on their own, because a set does not depend on
who owns the data.
-/

namespace FontCatalog

/-! ## Items -/

/-- **Something that is appended to a package.** -/
inductive PackageItem where
  /-- A font, with its name. -/
  | font (name : String) (data : Bytes)
  /-- Anything else. -/
  | raw (data : Bytes)

namespace PackageItem

/-- The font, if the item is one. -/
def font? : PackageItem → Option (String × Bytes)
  | font name data => some (name, data)
  | raw _ => none

/-- **The bytes an item takes**: its own, and before those of a font up to
three zeros. -/
inductive Takes : PackageItem → Bytes → Prop
  /-- A font may have zeros before it. -/
  | font (name : String) (data : Bytes) {gap : Nat} (h : gap ≤ 3) :
    Takes (.font name data) (Bytes.zeros gap ++ data)
  /-- Nothing comes before anything else. -/
  | raw (data : Bytes) : Takes (.raw data) data

end PackageItem

/-- A range is lent exactly if it is a range of the owner's bytes. -/
theorem FontSource.exists_ofRange_iff {name : String} {owner : Bytes} {start stop : Nat} :
    (∃ source, ofRange name owner start stop = .ok source)
      ↔ start ≤ stop ∧ stop ≤ owner.length := by
  rw [ofRange]
  split
  · next h => exact iff_of_true ⟨_, rfl⟩ h
  · next h =>
    refine iff_of_false ?_ h
    rintro ⟨source, hsource⟩
    cases hsource

/-- **The source of a font on its own**, which owns its data and nothing
else. -/
def FontSource.alone (font : String × Bytes) : FontSource := .whole font.1 font.2

/-- A source that is a font is the same font as the one on its own. -/
theorem FontSource.Is.sameAs_alone {source : FontSource} {font : String × Bytes}
    (h : source.Is font) : source.SameAs (.alone font) :=
  ⟨h.1, h.2.trans (FontSource.data_whole font.1 font.2).symm⟩

namespace FontPackage

variable {b : FontPackage}

/-- The package with an item appended. -/
def add (b : FontPackage) : PackageItem → FontPackage
  | .font name data => b.push name data
  | .raw data => b.pushRaw data

/-- The package with several items appended, from the first to the last. -/
def addAll (b : FontPackage) (items : List PackageItem) : FontPackage := items.foldl add b

/-! ## The bytes -/

/-- An item comes behind the bytes that are there. -/
theorem exists_takes_add (b : FontPackage) (item : PackageItem) :
    ∃ piece, item.Takes piece ∧ (b.add item).bytes = b.bytes ++ piece := by
  cases item with
  | font name data =>
    have hgap := Bytes.paddingOf_le b.bytes.length
    exact ⟨_, .font name data hgap, List.append_assoc ..⟩
  | raw data => exact ⟨data, .raw data, rfl⟩

/-- **The bytes of a package are those of its items**, one behind the other. -/
theorem exists_takes_addAll (b : FontPackage) (items : List PackageItem) :
    ∃ pieces, List.Forall₂ PackageItem.Takes items pieces ∧
      (b.addAll items).bytes = b.bytes ++ pieces.flatten := by
  induction items generalizing b with
  | nil => exact ⟨[], .nil, (List.append_nil _).symm⟩
  | cons item items ih =>
    obtain ⟨piece, hpiece, hbytes⟩ := b.exists_takes_add item
    obtain ⟨pieces, hpieces, hrest⟩ := ih (b.add item)
    refine ⟨piece :: pieces, .cons hpiece hpieces, ?_⟩
    rw [List.flatten_cons, ← List.append_assoc, ← hbytes]
    exact hrest

theorem bytes_prefix_addAll (b : FontPackage) (items : List PackageItem) :
    b.bytes <+: (b.addAll items).bytes := by
  obtain ⟨pieces, -, hbytes⟩ := b.exists_takes_addAll items
  exact hbytes ▸ List.prefix_append _ _

/-! ## The ranges -/

/-- **A package whose ranges are in order**: each starts at a multiple of four
and lies within the bytes, and none begins before the one in front of it has
stopped. -/
structure Tidy (b : FontPackage) : Prop where
  /-- Fonts start at multiples of four. -/
  aligned : ∀ part ∈ b.parts, part.start % 4 = 0
  /-- Each range is one of the bytes. -/
  within : ∀ part ∈ b.parts, part.start ≤ part.stop ∧ part.stop ≤ b.bytes.length
  /-- The ranges do not overlap. -/
  apart : b.parts.Pairwise fun part next => part.stop ≤ next.start

theorem tidy_empty : empty.Tidy :=
  ⟨List.forall_mem_nil _, List.forall_mem_nil _, List.Pairwise.nil⟩

/-- **An item more, and the ranges are still in order.** A font begins behind
the bytes that were there, so behind all other fonts. -/
theorem Tidy.add (h : b.Tidy) (item : PackageItem) : (b.add item).Tidy := by
  have hwithin : ∀ part ∈ b.parts, part.start ≤ part.stop ∧
      part.stop ≤ (b.add item).bytes.length := by
    intro part hpart
    obtain ⟨piece, -, hbytes⟩ := b.exists_takes_add item
    obtain ⟨horder, hstop⟩ := h.within part hpart
    rw [hbytes, List.length_append]
    exact ⟨horder, Nat.le_add_right_of_le hstop⟩
  cases item with
  | raw data => exact ⟨h.aligned, hwithin, h.apart⟩
  | font name data =>
    have hstart := Bytes.length_padded b.bytes
    refine ⟨?_, ?_, ?_⟩
    · exact List.forall_mem_append.mpr ⟨h.aligned,
        List.forall_mem_singleton.mpr (Bytes.four_dvd_length_padded _)⟩
    · refine List.forall_mem_append.mpr ⟨hwithin, List.forall_mem_singleton.mpr ?_⟩
      exact ⟨Nat.le_add_right _ _, Nat.le_of_eq List.length_append.symm⟩
    · refine List.pairwise_append.mpr ⟨h.apart, List.pairwise_singleton _ _, ?_⟩
      intro part hpart next hnext
      obtain rfl := List.mem_singleton.mp hnext
      have hstop := (h.within part hpart).2
      show part.stop ≤ b.bytes.padded.length
      omega

/-- **The ranges of a package are in order**, whatever is appended. -/
theorem Tidy.addAll (h : b.Tidy) (items : List PackageItem) : (b.addAll items).Tidy := by
  induction items generalizing b with
  | nil => exact h
  | cons item items ih => exact ih (h.add item)

/-- An item changes no range that was recorded. -/
theorem parts_prefix_add (b : FontPackage) (item : PackageItem) :
    b.parts <+: (b.add item).parts := by
  cases item with
  | font name data => exact List.prefix_append _ _
  | raw data => exact List.prefix_rfl

theorem parts_prefix_addAll (b : FontPackage) (items : List PackageItem) :
    b.parts <+: (b.addAll items).parts := by
  induction items generalizing b with
  | nil => exact List.prefix_rfl
  | cons item items ih => exact (b.parts_prefix_add item).trans (ih (b.add item))

/-- **A package holds the fonts among its items**, in their order. -/
theorem Packs.addAll {fonts : List (String × Bytes)} (h : b.Packs fonts)
    (items : List PackageItem) : (b.addAll items).Packs (fonts ++ items.filterMap (·.font?)) := by
  induction items generalizing b fonts with
  | nil =>
    rw [List.filterMap_nil, List.append_nil]
    exact h
  | cons item items ih =>
    cases item with
    | font name data =>
      have hrest := ih (h.push name data)
      rwa [List.append_assoc] at hrest
    | raw data => exact ih (h.pushRaw data)

/-! ## The sources -/

/-- **An owner lends the fonts exactly if it has enough bytes for each.** -/
theorem Tidy.exists_sources_iff (h : b.Tidy) (owner : Bytes) :
    (∃ sources, b.sources owner = .ok sources) ↔ ∀ part ∈ b.parts, part.stop ≤ owner.length := by
  simp only [sources, mapM_eq_ok_iff_forall₂]
  constructor
  · rintro ⟨sources, hsources⟩ part hpart
    obtain ⟨source, -, hsource⟩ := exists_right_of_mem_left hsources hpart
    exact (FontSource.exists_ofRange_iff.mp ⟨source, hsource⟩).2
  · intro hfits
    refine exists_forall₂_of_forall_mem fun part hpart => ?_
    exact FontSource.exists_ofRange_iff.mpr ⟨(h.within part hpart).1, hfits part hpart⟩

/-- **Otherwise it fails on the first font that it has not enough bytes
for.** -/
theorem Tidy.sources_eq_error_iff (h : b.Tidy) (owner : Bytes) (e : FontError) :
    b.sources owner = .error e ↔ ∃ before part after, b.parts = before ++ part :: after ∧
      (∀ other ∈ before, other.stop ≤ owner.length) ∧ owner.length < part.stop ∧
      e = .outOfBounds part.name part.start part.stop owner.length := by
  rw [sources, mapM_eq_error_iff]
  refine exists_congr fun before => exists_congr fun part => exists_congr fun after =>
    and_congr_right fun hparts => ?_
  have horder : ∀ other ∈ before ++ part :: after, other.start ≤ other.stop :=
    fun other hother => (h.within other (hparts ▸ hother)).1
  obtain ⟨hbefore, hrest⟩ := List.forall_mem_append.mp horder
  have hpart := hrest part List.mem_cons_self
  refine and_congr (forall₂_congr fun other hother => ?_) ?_
  · rw [FontSource.exists_ofRange_iff]
    exact and_iff_right (hbefore other hother)
  · rw [FontSource.ofRange_eq_error_iff, or_iff_right (Nat.not_lt.mpr hpart)]

end FontPackage

/-! ## Documents -/

namespace Document

/-- Reading inverts writing for UTF-8. -/
theorem fromUTF8?_utf8 (text : String) :
    String.fromUTF8? ⟨(utf8 text).toArray⟩ = some text := by
  rw [utf8, Array.toArray_toList]
  exact dif_pos text.isValidUTF8

/-- **The text of a document is the one it was made from.** -/
theorem text_ofText (text : String) (fonts : List (String × Bytes)) :
    (ofText text fonts).text = text := by
  have hbytes := (FontPackage.empty.pushRaw (utf8 text)).bytes_prefix_pushAll fonts
  have htake : (ofText text fonts).package.bytes.take (utf8 text).length = utf8 text :=
    (List.prefix_iff_eq_take.mp hbytes).symm
  show (String.fromUTF8? ⟨(List.take (utf8 text).length _).toArray⟩).getD "" = text
  rw [htake, fromUTF8?_utf8, Option.getD_some]

/-- **The fonts of a document are those it was made from.** -/
theorem exists_fontSources_ofText (text : String) (fonts : List (String × Bytes)) :
    ∃ sources, (ofText text fonts).fontSources = .ok sources ∧
      List.Forall₂ FontSource.Is sources fonts := by
  have hpacks : (ofText text fonts).package.Packs fonts :=
    (FontPackage.packs_empty.pushRaw (utf8 text)).pushAll fonts
  exact hpacks.sources

end Document

/-! ## Everything together -/

/-- **What is packed comes out as it went in.** Let any items be appended to
an empty package, and then any others.

The bytes are those of the items, in their order, with at most three zeros
before each font. Every range starts at a multiple of four and lies within the
bytes, and ranges follow one another without overlapping. Later items change
none of them, and they still select the fonts that were appended, each with its
name.

An owner lends the fonts exactly if it has enough bytes for each of them, and
otherwise the first for which it has not is out of bounds. The package itself
lends them all, in their order, with the names and the data they had.

A document has the text and the fonts that it was made from; and in every
catalogue, the fonts build the set that they build on their own, or fail as
they fail on their own, and the faces that are read afterwards are the same. -/
theorem FontPackage.unpacked_as_packed (items later : List PackageItem) (owner : Bytes)
    (text : String) (fonts : List (String × Bytes)) :
    (∃ pieces, List.Forall₂ PackageItem.Takes items pieces ∧
      (empty.addAll items).bytes = pieces.flatten) ∧
    (∀ part ∈ (empty.addAll items).parts, part.start % 4 = 0 ∧ part.start ≤ part.stop ∧
      part.stop ≤ (empty.addAll items).bytes.length) ∧
    ((empty.addAll items).parts.Pairwise fun part next => part.stop ≤ next.start) ∧
    (empty.addAll items).parts <+: (empty.addAll (items ++ later)).parts ∧
    List.Forall₂ (fun part font => part.Selects (empty.addAll (items ++ later)).bytes font)
      (empty.addAll items).parts (items.filterMap (·.font?)) ∧
    ((∃ sources, (empty.addAll items).sources owner = .ok sources) ↔
      ∀ part ∈ (empty.addAll items).parts, part.stop ≤ owner.length) ∧
    (∀ e, (empty.addAll items).sources owner = .error e ↔
      ∃ before part after, (empty.addAll items).parts = before ++ part :: after ∧
        (∀ other ∈ before, other.stop ≤ owner.length) ∧ owner.length < part.stop ∧
        e = .outOfBounds part.name part.start part.stop owner.length) ∧
    (∃ sources, (empty.addAll items).sources (empty.addAll items).bytes = .ok sources ∧
      List.Forall₂ FontSource.Is sources (items.filterMap (·.font?))) ∧
    (Document.ofText text fonts).text = text ∧
    ∃ sources, (Document.ofText text fonts).fontSources = .ok sources ∧
      List.Forall₂ FontSource.Is sources fonts ∧
      ∀ (σ : Type) (c : Catalog) (w : LoaderWorld σ) (s : σ),
        (c.buildFromMemory w sources s).1 = (c.buildFromMemory w (fonts.map .alone) s).1 ∧
        (c.buildFromMemory w sources s).2.2
          = (c.buildFromMemory w (fonts.map .alone) s).2.2 ∧
        (c.buildFromMemory w sources s).2.1.fontSet
          = (c.buildFromMemory w (fonts.map .alone) s).2.1.fontSet ∧
        ∀ (entry : FontEntry) (t : σ),
          ((c.buildFromMemory w sources s).2.1.inWorld w).readFace entry t
            = ((c.buildFromMemory w (fonts.map .alone) s).2.1.inWorld w).readFace entry t := by
  have htidy : (empty.addAll items).Tidy := tidy_empty.addAll items
  have hpacks : (empty.addAll items).Packs (items.filterMap (·.font?)) :=
    packs_empty.addAll items
  have hlater : empty.addAll (items ++ later) = (empty.addAll items).addAll later :=
    List.foldl_append
  obtain ⟨pieces, hpieces, hbytes⟩ := exists_takes_addAll empty items
  obtain ⟨sources, hsources, hfonts⟩ := Document.exists_fontSources_ofText text fonts
  refine ⟨⟨pieces, hpieces, hbytes⟩, fun part hpart => ⟨htidy.aligned part hpart,
    htidy.within part hpart⟩, htidy.apart, ?_, ?_, htidy.exists_sources_iff owner,
    htidy.sources_eq_error_iff owner, hpacks.sources, Document.text_ofText text fonts, sources,
    hsources, hfonts, ?_⟩
  · exact hlater ▸ parts_prefix_addAll _ later
  · rw [hlater]
    exact hpacks.imp fun _ _ hpart => hpart.of_prefix (bytes_prefix_addAll _ later)
  · intro σ c w s
    have hsame : List.Forall₂ FontSource.SameAs sources (fonts.map .alone) :=
      List.forall₂_map_right_iff.mpr (hfonts.imp fun _ _ h => h.sameAs_alone)
    obtain ⟨hresult, hworld, hset, hbytes⟩ := c.buildFromMemory_congr w s hsame
    exact ⟨hresult, hworld, hset, hbytes.readFace_eq⟩

end FontCatalog
