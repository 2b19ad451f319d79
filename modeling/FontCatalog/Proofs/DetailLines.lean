import FontCatalog.Proofs.CanonicalNames
import FontCatalog.Proofs.Conversations
import FontCatalog.Proofs.HeightBounds
import FontCatalog.Proofs.LineFields
import Mathlib.Algebra.Order.Round
import Mathlib.Data.Rat.Floor

/-!
# Lines of details can be read back

A line of details has the name of a font in front of a number. Names come
from font data and may be anything, also what looks like the front of
another line. The line is read back all the same: behind the last separator
there is only a number, so what is in front of it is the name, and the whole
name (`readDetailLine?_detailLine`). The number always has a place in 64
bits, since heights are not that large.

One name is lost. A font without a name is called by its number, but a font
can also have the empty text for its name, and then its line starts with the
separator. So a line names its font exactly if the name of the face is not
the empty text (`isDetailLine_detailLine_iff`). White space is a name like
any other.
-/

namespace FontCatalog

/-! ## Reading a line -/

/-- **A line of details, read back**: what is in front of the last
separator, and the number behind it. -/
def readDetailLine? (line : String) : Option (String × Int) :=
  match Text.splitLast? ": x-height = ".toList line.toList with
  | none => none
  | some (name, number) => (Text.readInt64? number).map fun n => (String.ofList name, n)

/-- **Whether a text is a line of details**: it can be read back, and
something is named in it. -/
def isDetailLine (line : String) : Bool :=
  (readDetailLine? line).any fun p => p.1 ≠ ""

/-- **A line reads back** as the name in front, whatever that is, and the
number. -/
theorem readDetailLine?_line (name : String) {n : Int} (h : Text.FitsInt64 n) :
    readDetailLine? (name ++ ": x-height = " ++ toString n) = some (name, n) := by
  -- The colon of the separator is not in the rest of it, and in no number.
  have hnew : ':' ∉ " x-height = ".toList ++ (toString n).toList := fun hcolon => by
    rcases List.mem_append.mp hcolon with hcolon | hcolon
    · exact absurd hcolon (by decide)
    · exact absurd (Text.isDigit_or_minus_of_mem_toString hcolon) (by decide)
  have hcut : Text.splitLast? ": x-height = ".toList (name ++ ": x-height = " ++ toString n).toList
      = some (name.toList, (toString n).toList) := by
    rw [String.toList_append, String.toList_append, List.append_assoc]
    exact Text.splitLast?_append hnew
  rw [readDetailLine?, hcut]
  show (Text.readInt64? (toString n).toList).map (fun n => (String.ofList name.toList, n)) = _
  rw [Text.readInt64?_toString h, Option.map_some, String.ofList_toList]

/-! ## The line of a face -/

/-- **The nearest whole number**; of two that are equally near, the one
farther from zero. -/
def nearest (q : ℚ) : ℤ := if 0 ≤ q then round q else -round (-q)

/-- A whole number is the nearest to itself. -/
@[simp] theorem nearest_intCast (n : ℤ) : nearest n = n := by
  unfold nearest
  split
  · exact round_intCast n
  · rw [← Int.cast_neg, round_intCast, neg_neg]

example : nearest (5 / 2) = 3 ∧ nearest (-5 / 2) = -3 := by decide +kernel

/-- A distance as an exact number of units. -/
def Metric.exact (m : Metric) : ℚ := m.toInt

/-- Distances are whole numbers, and rounding leaves them as they are. -/
@[simp] theorem Metric.nearest_exact (m : Metric) : nearest m.exact = m.toInt :=
  nearest_intCast m.toInt

/-- **How a font is called in its line**: by the name of its face, or by its
number. -/
def nameInLine (index : Nat) (face : FontFace) : String :=
  face.fullName.getD ("Font " ++ toString index)

/-- The line of a face, with its name and its number. -/
theorem detailLine_eq (index : Nat) (face : FontFace) :
    detailLine index face
      = nameInLine index face ++ ": x-height = "
        ++ toString (nearest face.metrics.xHeight.exact) := by
  rw [Metric.nearest_exact]
  rfl

/-- A font is called by the empty text exactly if that is the name of its
face: its number is never empty. -/
theorem nameInLine_eq_empty_iff (index : Nat) (face : FontFace) :
    nameInLine index face = "" ↔ face.fullName = some "" := by
  unfold nameInLine
  cases face.fullName with
  | none => simp
  | some name => simp

variable {face : FontFace}

/-- **The line of a face reads back** as its name and its height. -/
theorem readDetailLine?_detailLine (index : Nat)
    (h : Text.FitsInt64 face.metrics.xHeight.toInt) :
    readDetailLine? (detailLine index face)
      = some (nameInLine index face, nearest face.metrics.xHeight.exact) := by
  rw [detailLine_eq]
  exact readDetailLine?_line _ (by rwa [Metric.nearest_exact])

/-- **A line names its font** exactly if the name of the face is not the
empty text. -/
theorem isDetailLine_detailLine_iff (index : Nat)
    (h : Text.FitsInt64 face.metrics.xHeight.toInt) :
    isDetailLine (detailLine index face) = true ↔ face.fullName ≠ some "" := by
  rw [isDetailLine, readDetailLine?_detailLine index h, Option.any_some, decide_eq_true_iff, Ne,
    nameInLine_eq_empty_iff]

/-- The height of a face that was read has a place in 64 bits. -/
theorem FontEntry.fitsInt64_of_face {entry : FontEntry} {source : Option FontSource}
    (h : entry.face source = .ok face) : Text.FitsInt64 face.metrics.xHeight.toInt := by
  cases source with
  | none => cases h
  | some source =>
    rw [FontEntry.face] at h
    split at h
    · cases h
    next font _ =>
    obtain rfl := Except.ok.inj h
    exact font.tables.fitsInt64_xHeight_metricsOf entry.instanceIndex

/-! ## The lines of a call -/

/-- The line of a number belongs to the entry of that number, and is that of
the face that was read for it. -/
theorem Conversation.exists_face_of_getElem? {fired : Bool} {entries : List FontEntry}
    {log : List Exchange} {lines : List String} (h : Conversation fired entries log lines)
    {i : Nat} {line : String} (hline : lines[i]? = some line) :
    ∃ earlier waited source later entry face, entries[i]? = some entry ∧
      log = requested entries ++ (earlier ++ (waited ++ entry.file.dataIs source :: later)) ∧
      Visited 0 (entries.take i) earlier (lines.take i) ∧ Wait entry.file waited true ∧
      entry.face source = .ok face ∧ line = detailLine i face := by
  rcases h.lines_eq_nil_or with rfl | ⟨hlength, hgives⟩
  · cases hline
  · obtain ⟨hi, -⟩ := List.getElem?_eq_some_iff.mp hline
    have hentry : entries[i]? = some entries[i] := List.getElem?_eq_getElem (hlength ▸ hi)
    obtain ⟨earlier, waited, source, face, later, hlog, hearlier, hwait, hface, hgiven⟩ :=
      hgives i _ hentry
    exact ⟨earlier, waited, source, later, _, face, hentry, hlog, hearlier, hwait, hface,
      Option.some.inj (hline.symm.trans hgiven)⟩

/-- **Lines of details can be read back.** Take any call for details, of any
catalogue in any world. It has a transcript, and each of its lines comes
from the face that was read, right after the wait for the entry of the same
number, from the data in that transcript. The line has the name of this
face, or the number where the face has none, and the height of the face to
the nearest whole number; and both are what is read back at the last
separator. So the line names its font, except where the name of the face is
the empty text. -/
theorem Catalog.details_readBack {σ : Type} (w : LoaderWorld σ) (signal : StopSignal σ)
    (timeout : Duration) (patience : Nat) (c : Catalog) (t : Timed σ) :
    ∃ log, (c.inWorld w).transcribed.details (signal ∘ Prod.fst) timeout patience c.entries
          (t.noting [])
        = ((c.details w signal timeout patience t).1,
          (c.details w signal timeout patience t).2.noting log) ∧
      ∀ i line, (c.details w signal timeout patience t).1[i]? = some line →
        ∃ earlier waited source later entry face, c.entries[i]? = some entry ∧
          log = requested c.entries
            ++ (earlier ++ (waited ++ entry.file.dataIs source :: later)) ∧
          Visited 0 (c.entries.take i) earlier
            ((c.details w signal timeout patience t).1.take i) ∧
          Wait entry.file waited true ∧ entry.face source = .ok face ∧
          line = face.fullName.getD ("Font " ++ toString i) ++ ": x-height = "
            ++ toString (nearest face.metrics.xHeight.exact) ∧
          readDetailLine? line = some (face.fullName.getD ("Font " ++ toString i),
            nearest face.metrics.xHeight.exact) ∧
          (isDetailLine line = true ↔ face.fullName ≠ some "") := by
  obtain ⟨log, hrun, hconversation⟩ :=
    (c.inWorld w).details_transcribed signal timeout patience c.entries t
  refine ⟨log, hrun, fun i line hline => ?_⟩
  obtain ⟨earlier, waited, source, later, entry, face, hentry, hlog, hearlier, hwait, hface, rfl⟩ :=
    hconversation.exists_face_of_getElem? hline
  have hfits := FontEntry.fitsInt64_of_face hface
  exact ⟨earlier, waited, source, later, entry, face, hentry, hlog, hearlier, hwait, hface,
    detailLine_eq i face, readDetailLine?_detailLine i hfits,
    isDetailLine_detailLine_iff i hfits⟩

/-! ### Fonts with names that do not look like names -/

/-- A font of nothing but a full name in English of the United States. -/
def fullNameFont (name : String) : Bytes :=
  let text : Bytes := name.toList.flatMap fun c => [0, c.toNat.toUInt8]
  LoaderWorld.nameFont
    ([0, 0, 0, 1, 0, 18] ++ [0, 3, 0, 1, 4, 9, 0, 4, 0, text.length.toUInt8, 0, 0] ++ text)

/-- A catalogue of fonts in memory. -/
def Catalog.ofFonts (fonts : List Bytes) : Catalog :=
  ((Catalog.new (.empty true)).buildFromMemory .vacant (fonts.map (.whole "font")) ()).2.1

/-- A name that looks like a line of its own, a blank name and no name: the
first line still reads back as the name of its face. -/
theorem Catalog.details_readBack_of_imitated_line :
    ∃ (c : Catalog) (entry : FontEntry) (source : Option FontSource) (face : FontFace),
      c.details .vacant .silent 0 0 ⟨(), 0⟩
        = (["A: x-height = 7: x-height = 0", " : x-height = 0", "Font 2: x-height = 0"],
          ⟨(), 0⟩) ∧
      c.entries[0]? = some entry ∧ entry.face source = .ok face ∧
      face.fullName = some "A: x-height = 7" ∧
      readDetailLine? "A: x-height = 7: x-height = 0"
        = some (face.fullName.getD ("Font " ++ toString 0), nearest face.metrics.xHeight.exact) ∧
      isDetailLine "A: x-height = 7: x-height = 0" = true := by
  let c := Catalog.ofFonts
    [fullNameFont "A: x-height = 7", fullNameFont " ", LoaderWorld.nameFont []]
  have hdetails : (c.details .vacant .silent 0 0 ⟨(), 0⟩).1
      = ["A: x-height = 7: x-height = 0", " : x-height = 0", "Font 2: x-height = 0"] := by
    decide +kernel
  obtain ⟨_, -, hlines⟩ := Catalog.details_readBack .vacant .silent 0 0 c ⟨(), 0⟩
  obtain ⟨_, _, source, _, entry, face, hentry, -, -, -, hface, -, hread, hnames⟩ :=
    hlines 0 "A: x-height = 7: x-height = 0" (by rw [hdetails]; rfl)
  have hname : face.fullName.getD ("Font " ++ toString 0) = "A: x-height = 7" := by
    have hpair : readDetailLine? "A: x-height = 7: x-height = 0"
        = some ("A: x-height = 7", 0) := by decide +kernel
    exact congrArg Prod.fst (Option.some.inj (hread.symm.trans hpair))
  have hstated : face.fullName = some "A: x-height = 7" := by
    cases hfull : face.fullName with
    | none =>
      rw [hfull] at hname
      exact absurd hname (by decide)
    | some name =>
      rw [hfull] at hname
      exact congrArg some hname
  refine ⟨c, entry, source, face, Prod.ext hdetails rfl, hentry, hface, hstated, hread,
    hnames.mpr ?_⟩
  rw [hstated]
  decide

/-- **A font that has the empty text for its name** gets a line that names
no font: it is not called by its number. -/
theorem Catalog.details_of_empty_name :
    (Catalog.ofFonts [fullNameFont ""]).details .vacant .silent 0 0 ⟨(), 0⟩
        = ([": x-height = 0"], ⟨(), 0⟩) ∧
      readDetailLine? ": x-height = 0" = some ("", 0) ∧
      isDetailLine ": x-height = 0" = false := by
  refine ⟨Prod.ext ?_ rfl, ?_, ?_⟩ <;> decide +kernel

end FontCatalog
