import FontCatalog.Face
import FontCatalog.Proofs.LineFields

/-!
# How high lower-case letters can be

A font states a height in 16 bits, and so it does with the top of a glyph
and with the changes of its metrics over the axes. What is said of a face is
one of these or the sum of two, so no font makes it leave 17 bits
(`Tables.xHeight_metricsAt_bounds`), whatever else is in its tables.
-/

namespace FontCatalog

/-- What is kept in 16 bits has a place there. -/
theorem Fixed.wrap16_bounds (n : Int) : -0x8000 ≤ Fixed.wrap16 n ∧ Fixed.wrap16 n < 0x8000 :=
  ⟨Int.le_bmod (by decide), Int.bmod_lt (by decide)⟩

/-- A number of 16 bits that was read is one. -/
theorem Bytes.i16?_bounds {b : Bytes} {pos : Nat} {n : Int} (h : b.i16? pos = some n) :
    -0x8000 ≤ n ∧ n < 0x8000 := by
  obtain ⟨m, -, rfl⟩ := Option.map_eq_some_iff.mp h
  exact Fixed.wrap16_bounds m

/-- The change of a metric that a table gives is kept in 16 bits. -/
theorem metricDelta?_bounds {mvar : Bytes} {tag : Tag} {location : List Int} {delta : Int}
    (h : metricDelta? mvar tag location = some delta) : -0x8000 ≤ delta ∧ delta < 0x8000 := by
  simp only [metricDelta?, Option.bind_eq_bind, Option.bind_eq_some_iff] at h
  obtain ⟨_, -, _, -, _, -, _, -, start, -, hdelta⟩ := h
  split at hdelta
  · cases hdelta
  · simp only [Option.bind_eq_some_iff] at hdelta
    obtain ⟨_, -, _, -, _, -, n, -, hwrapped⟩ := hdelta
    obtain rfl := Option.some.inj hwrapped
    exact Fixed.wrap16_bounds _

namespace Tables

variable {tables : Tables} {n : Int}

theorem metricDelta_bounds (tables : Tables) (tag : Tag) (location : List Int) :
    -0x8000 ≤ tables.metricDelta tag location ∧ tables.metricDelta tag location < 0x8000 := by
  unfold metricDelta
  cases hdelta : tables.mvar?.bind fun mvar => metricDelta? mvar tag location with
  | none => decide
  | some delta =>
    obtain ⟨mvar, -, hmvar⟩ := Option.bind_eq_some_iff.mp hdelta
    exact metricDelta?_bounds hmvar

/-- A height that a font states has 16 bits. -/
theorem xHeight_bounds_of_os2? {os2 : Os2} (h : tables.os2? = some os2)
    (hx : os2.xHeight = some n) : -0x8000 ≤ n ∧ n < 0x8000 := by
  obtain ⟨b, -, hread⟩ := Option.bind_eq_some_iff.mp h
  simp only [Os2.read?, Option.bind_eq_bind, Option.bind_eq_some_iff] at hread
  obtain ⟨version, -, hfields⟩ := hread
  split at hfields
  · cases hfields
  · simp only [Option.bind_eq_some_iff] at hfields
    obtain ⟨_, -, _, -, _, -, _, -, _, -, hos2⟩ := hfields
    obtain rfl := Option.some.inj hos2
    dsimp only at hx
    split at hx
    · exact Bytes.i16?_bounds hx
    · cases hx

/-- The top of a glyph has 16 bits. -/
theorem glyphTop?_bounds {glyph : Nat} (h : tables.glyphTop? glyph = some n) :
    -0x8000 ≤ n ∧ n < 0x8000 := by
  simp only [glyphTop?, Option.bind_eq_bind, Option.bind_eq_some_iff] at h
  obtain ⟨start, -, stop, -, glyf, -, hbox⟩ := h
  split at hbox
  · -- An empty glyph has its top at zero.
    obtain rfl := Option.some.inj hbox
    decide
  · split at hbox
    · cases hbox
    · simp only [Option.bind_eq_some_iff] at hbox
      obtain ⟨outline, -, contours, -, top, htop, hread⟩ := hbox
      have hn : top = n := by
        split at hread
        · exact Option.some.inj hread
        · simp only [Option.bind_eq_some_iff] at hread
          obtain ⟨_, -, _, -, hlast⟩ := hread
          exact Option.some.inj hlast
      exact hn ▸ Bytes.i16?_bounds htop

/-- **The height of lower-case letters** has 17 bits, at every location. -/
theorem xHeight_metricsAt_bounds (tables : Tables) (location : List Int) :
    -0x10000 ≤ (tables.metricsAt location).xHeight.toInt ∧
      (tables.metricsAt location).xHeight.toInt < 0x10000 := by
  unfold metricsAt
  dsimp only
  cases hstated : tables.os2?.bind (·.xHeight) with
  | some n =>
    obtain ⟨os2, hos2, hx⟩ := Option.bind_eq_some_iff.mp hstated
    have hn := xHeight_bounds_of_os2? hos2 hx
    have hdelta := tables.metricDelta_bounds (Tag.named "xhgt") location
    rw [Option.map_some, Option.some_or, Option.getD_some]
    split
    · rw [Metric.toInt_move, Metric.toInt_whole]
      omega
    · rw [Metric.toInt_whole]
      omega
  | none =>
    rw [Option.map_none, Option.none_or]
    cases hmeasured : (tables.glyph? 'x').bind tables.glyphTop? with
    | some n =>
      obtain ⟨glyph, -, htop⟩ := Option.bind_eq_some_iff.mp hmeasured
      have hn := glyphTop?_bounds htop
      rw [Option.map_some, Option.getD_some, Metric.toInt_whole]
      omega
    | none => decide

/-- What is said of the height of a face has a place in 64 bits. -/
theorem fitsInt64_xHeight_metricsOf (tables : Tables) (index : Option Nat) :
    Text.FitsInt64 (tables.metricsOf index).xHeight.toInt := by
  have hfits (location : List Int) :
      Text.FitsInt64 (tables.metricsAt location).xHeight.toInt := by
    have hsmall := tables.xHeight_metricsAt_bounds location
    unfold Text.FitsInt64
    omega
  exact hfits _

end Tables

end FontCatalog
