import FontCatalog.Bundle.Package
import FontCatalog.Proofs.RelatedLists

/-!
# Fonts in a package come out again

A package remembers ranges while its buffer keeps growing, so a range has to
go on selecting what it selected when it was recorded. It does because the
buffer only grows at its end (`FontPackage.bytes_prefix_push`,
`FontPackage.bytes_prefix_pushRaw`). `FontPackage.Packs` says of a package
which fonts it holds; it is kept by every step, and a package that holds
fonts hands them out with their names and their data
(`FontPackage.Packs.sources`).
-/

namespace FontCatalog

/-- **A part that selects a font** from the bytes of its package: it has the
font's name, and its range is the font's data. -/
structure FontPart.Selects (part : FontPart) (bytes : Bytes) (font : String × Bytes) : Prop where
  /-- The part is named like the font. -/
  name : part.name = font.1
  /-- The range is in order. -/
  start_le_stop : part.start ≤ part.stop
  /-- The range is that of the data. -/
  data : bytes.slice? part.start (part.stop - part.start) = some font.2

/-- A part still selects its font when the bytes go on. -/
theorem FontPart.Selects.of_prefix {part : FontPart} {bytes more : Bytes} {font : String × Bytes}
    (h : part.Selects bytes font) (hmore : bytes <+: more) : part.Selects more font :=
  ⟨h.name, h.start_le_stop, Bytes.slice?_of_prefix hmore h.data⟩

/-- **A source that is a font**: with its name and its data. -/
def FontSource.Is (source : FontSource) (font : String × Bytes) : Prop :=
  source.name = font.1 ∧ source.data = font.2

/-- A range that selects a font is the source of that font. -/
theorem FontPart.Selects.exists_source {part : FontPart} {owner : Bytes} {font : String × Bytes}
    (h : part.Selects owner font) :
    ∃ source, FontSource.ofRange part.name owner part.start part.stop = .ok source ∧
      source.Is font := by
  have hstop : part.stop ≤ owner.length := by
    have hdata := h.data
    have horder := h.start_le_stop
    rw [Bytes.slice?] at hdata
    split at hdata
    · omega
    · cases hdata
  have hsource : FontSource.ofRange part.name owner part.start part.stop
      = .ok ⟨part.name, owner, part.start, part.stop, h.start_le_stop, hstop⟩ := by
    rw [FontSource.ofRange, dif_pos ⟨h.start_le_stop, hstop⟩]
  refine ⟨_, hsource, h.name, ?_⟩
  exact Option.some.inj ((FontSource.slice?_of_ofRange hsource).symm.trans h.data)

namespace FontPackage

variable {b : FontPackage} {fonts : List (String × Bytes)}

/-- **A package that holds fonts**: each of its parts selects one of them, in
order. -/
def Packs (b : FontPackage) (fonts : List (String × Bytes)) : Prop :=
  List.Forall₂ (fun part font => part.Selects b.bytes font) b.parts fonts

theorem packs_empty : empty.Packs [] := List.Forall₂.nil

/-- What is appended besides fonts changes no font. -/
theorem Packs.pushRaw (h : b.Packs fonts) (data : Bytes) : (b.pushRaw data).Packs fonts :=
  h.imp fun _ _ hpart => hpart.of_prefix (b.bytes_prefix_pushRaw data)

/-- **A font that is appended comes last**, and the others stay what they
are. -/
theorem Packs.push (h : b.Packs fonts) (name : String) (data : Bytes) :
    (b.push name data).Packs (fonts ++ [(name, data)]) := by
  refine List.rel_append (h.imp fun _ _ hpart => hpart.of_prefix (b.bytes_prefix_push name data))
    (List.Forall₂.cons ⟨rfl, Nat.le_add_right _ _, ?_⟩ List.Forall₂.nil)
  rw [Nat.add_sub_cancel_left]
  exact b.slice?_push name data

/-- Several fonts come behind the others, in their order. -/
theorem Packs.pushAll (h : b.Packs fonts) (more : List (String × Bytes)) :
    (b.pushAll more).Packs (fonts ++ more) := by
  induction more generalizing b fonts with
  | nil =>
    rw [List.append_nil]
    exact h
  | cons font more ih =>
    have hrest := ih (h.push font.1 font.2)
    rwa [List.append_assoc] at hrest

/-- **A package hands out the fonts it holds**, where it is the owner
itself. -/
theorem Packs.sources (h : b.Packs fonts) :
    ∃ sources, b.sources b.bytes = .ok sources ∧ List.Forall₂ FontSource.Is sources fonts := by
  obtain ⟨sources, hsources, hfonts⟩ := exists_forall₂_of_forall₂ h fun _ _ hpart =>
    hpart.exists_source
  exact ⟨sources, mapM_eq_ok_iff_forall₂.mpr hsources, hfonts⟩

end FontPackage

end FontCatalog
