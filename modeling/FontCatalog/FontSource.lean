import FontCatalog.FontError
import FontCatalog.Text.Quoted

/-!
# Sources of font data

Font data that is in memory already is part of something larger as often
as not: of a document, or of the package of an application. A source is
a name, the bytes of its owner, and the range of them that is the font; it
never copies the owner's bytes, and a range that is not a range of them is
refused when the source is made (`FontSource.ofRange?`).
-/

namespace FontCatalog

/-- **A named range of its owner's bytes.** -/
structure FontSource where
  /-- The name of the font data. -/
  name : String
  /-- All bytes of the owner. -/
  owner : Bytes
  /-- Where the range starts. -/
  start : Nat
  /-- Where the range stops, not counting this position. -/
  stop : Nat
  /-- The range is in order. -/
  start_le_stop : start ≤ stop
  /-- The range is within the owner's bytes. -/
  stop_le_length : stop ≤ owner.length
deriving DecidableEq

namespace FontSource

/-- The source of all bytes of its owner. -/
def whole (name : String) (owner : Bytes) : FontSource :=
  ⟨name, owner, 0, owner.length, Nat.zero_le _, Nat.le_refl _⟩

/-- **The source of a range**, if it is a range of the owner's bytes. -/
def ofRange (name : String) (owner : Bytes) (start stop : Nat) : Except FontError FontSource :=
  if h : start ≤ stop ∧ stop ≤ owner.length then .ok ⟨name, owner, start, stop, h.1, h.2⟩
  else .error (.outOfBounds name start stop owner.length)

/-- How many bytes the font data has. -/
def length (s : FontSource) : Nat := s.stop - s.start

/-- Whether the font data is empty. -/
def isEmpty (s : FontSource) : Bool := s.length == 0

/-- **The font data.** -/
def data (s : FontSource) : Bytes := (s.owner.drop s.start).take s.length

/-- A source in one line. -/
def describe (s : FontSource) : String :=
  "FontByteSource \x7b name: " ++ Text.quoted s.name ++ ", range: " ++ toString s.start
    ++ ".." ++ toString s.stop ++ ", .. \x7d"

/-- A source of everything has everything. -/
@[simp] theorem data_whole (name : String) (owner : Bytes) : (whole name owner).data = owner := by
  simp [data, length, whole]

/-- The font data is as long as the range. -/
@[simp] theorem length_data (s : FontSource) : s.data.length = s.length := by
  have h₁ := s.start_le_stop
  have h₂ := s.stop_le_length
  simp only [data, length, List.length_take, List.length_drop]
  omega

/-- **A range is refused exactly when it is not a range of the bytes**, and
the error says what was asked for. -/
theorem ofRange_eq_error_iff {name : String} {owner : Bytes} {start stop : Nat} {e : FontError} :
    ofRange name owner start stop = .error e ↔
      (stop < start ∨ owner.length < stop) ∧ e = .outOfBounds name start stop owner.length := by
  unfold ofRange
  split
  · next h => exact ⟨nofun, fun h' => absurd h'.1 (by omega)⟩
  · next h =>
    rw [Except.error.injEq]
    exact ⟨fun h' => ⟨by omega, h'.symm⟩, fun h' => h'.2.symm⟩

/-- An accepted range slices the owner's bytes. -/
theorem slice?_of_ofRange {name : String} {owner : Bytes} {start stop : Nat} {s : FontSource}
    (h : ofRange name owner start stop = .ok s) :
    owner.slice? start (stop - start) = some s.data := by
  unfold ofRange at h
  split at h
  · next hrange =>
    cases h
    have hfits : start + (stop - start) ≤ owner.length := by omega
    simp only [Bytes.slice?, hfits, if_true, data, length]
  · cases h

end FontSource

end FontCatalog
