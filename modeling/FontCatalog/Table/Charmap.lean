import FontCatalog.Search
import FontCatalog.Sfnt.Font

/-!
# The character map

The `cmap` table holds several maps from characters to glyphs, each meant
for a platform and an encoding. One of them is chosen, by how much of
Unicode its encoding promises; of equally good ones the last. Two formats
of maps are read: segments of 16-bit characters, and groups of 32-bit
ones. Glyph zero stands for "no glyph", so mapping to it is not mapping.

A map for symbols moves its characters to `U+F000` and on. When such a map
is chosen and does not have a character of the first 256 itself, its place
there is tried.
-/

namespace FontCatalog

/-- **How good a map is**: what its encoding promises. -/
inductive CharmapKind where
  /-- The basic plane of Unicode, or as much as older encodings have. -/
  | basic
  /-- All of Unicode. -/
  | full
  /-- Symbols, on a page of their own. -/
  | symbol
deriving DecidableEq, Inhabited

/-- **A map from characters to glyphs**, in one of the two formats. -/
inductive Charmap where
  /-- Segments of consecutive 16-bit characters. -/
  | segments (data : Bytes) (count : Nat)
  /-- Groups of consecutive 32-bit characters. -/
  | groups (data : Bytes) (count : Nat)

namespace CharmapKind

/-- The kind of map that a platform and an encoding stand for. -/
def of? (platform encoding : Nat) : Option CharmapKind :=
  match platform, encoding with
  | 3, 0 => some symbol
  | 3, 10 | 0, 4 => some full
  | 0, 5 => none
  | 0, _ | 2, _ | 3, 1 => some basic
  | _, _ => none

/-- Better kinds have higher ranks. -/
def rank : CharmapKind → Nat
  | basic => 1
  | full => 2
  | symbol => 3

end CharmapKind

namespace Charmap

/-- The map that the data of a subtable holds, in a format that is read
and with all of its arrays there. -/
def read? (b : Bytes) : Option Charmap := do
  match ← b.u16? 0 with
  | 4 =>
    let count := (← b.u16? 6) / 2
    if 16 + 8 * count ≤ b.length then some (segments b count) else none
  | 12 =>
    let count ← b.u32? 12
    if 16 + 12 * count ≤ b.length then some (groups b count) else none
  | _ => none

/-- The glyph of a 16-bit character in segment `i` of `count`, which
starts at `first`. A segment either shifts its characters by a delta or
looks them up in the array behind all segments, at a distance that counts
from the segment's own place. -/
def segmentGlyph? (b : Bytes) (count i c first : Nat) : Option Nat := do
  let delta ← b.i16? (16 + 4 * count + 2 * i)
  let distance ← b.u16? (16 + 6 * count + 2 * i)
  if distance = 0 then return ((c + delta) % 65536).toNat
  let glyph ← b.u16? (16 + 8 * count + 2 * (distance / 2 + (c - first) - (count - i)))
  if glyph = 0 then none else return ((glyph + delta) % 65536).toNat

/-- **The glyph of a character**, by binary search for its segment or
group. -/
def glyph? : Charmap → Nat → Option Nat
  | segments b count, c => do
    if 65535 < c then none
    let i ← bisect (fun i => do
      if c < (← b.u16? (16 + 2 * count + 2 * i)) then return .lt
      if (← b.u16? (14 + 2 * i)) < c then return .gt
      return .eq) 0 count
    segmentGlyph? b count i c (← b.u16? (16 + 2 * count + 2 * i))
  | groups b count, c => do
    let i ← bisect (fun i => do
      if c < (← b.u32? (16 + 12 * i)) then return .lt
      if (← b.u32? (20 + 12 * i)) < c then return .gt
      return .eq) 0 count
    return ((← b.u32? (24 + 12 * i)) + (c - (← b.u32? (16 + 12 * i)))) % 0x100000000

/-- The glyph of a character, unless it is glyph zero. -/
def nonzeroGlyph? (m : Charmap) (c : Nat) : Option Nat := (m.glyph? c).filter (· ≠ 0)

/-- The better of a map chosen so far and one that comes up; only a map of
a better kind replaces the chosen one. -/
def better (chosen : Option (CharmapKind × Charmap)) (kind : CharmapKind) (m : Charmap) :
    Option (CharmapKind × Charmap) :=
  match chosen with
  | some (best, _) => if best.rank < kind.rank then some (kind, m) else chosen
  | none => some (kind, m)

/-- **The map chosen from a `cmap` table.** The records are gone through
from the last to the first, so of several maps of one kind the last is
taken. -/
def chosen? (b : Bytes) : Option (CharmapKind × Charmap) := do
  let records ← b.records? 4 8 (← b.u16? 2)
  records.reverse.foldl (fun chosen record =>
    let candidate? : Option (CharmapKind × Charmap) := do
      let kind ← CharmapKind.of? (← record.u16? 0) (← record.u16? 2)
      let start ← record.u32? 4
      if start = 0 then none
      return (kind, ← read? (← b.from? start))
    match candidate? with
    | some (kind, m) => better chosen kind m
    | none => chosen) none

end Charmap

/-- **The glyph of a character in a font.** -/
def Tables.glyph? (tables : Tables) (c : Char) : Option Nat := do
  let (kind, m) ← Charmap.chosen? (← tables (Tag.named "cmap"))
  (m.nonzeroGlyph? c.toNat).or
    (if kind = .symbol ∧ c.toNat ≤ 0xFF then m.nonzeroGlyph? (c.toNat + 0xF000) else none)

end FontCatalog
