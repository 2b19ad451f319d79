import FontCatalog.Proofs.SyntheticFonts

/-!
# Heights that are drawn and not stated

An order may state no height of lower-case letters and have the letter x
drawn up to a height instead. The font then has an `OS/2` table of the
version without heights, and a reader measures: it looks the letter up in
the character map, finds its outline by the `loca` table, and takes the top
of its bounding box (`SyntheticFont.glyphTop?_eq`). A box that is drawn
downwards has its top on the baseline, so what is measured is the height or
zero, whichever is greater.

The height of the box has no place of its own in an order, it takes the
place of the height of capitals. So a height of capitals that is given
afterwards is the height the box is drawn up to, and it is measured as the
height of lower-case letters (`SyntheticFont.buildSet_of_drawn`). The height
that was asked for comes out exactly if no other height of capitals was
given after it, or one that comes to the same.
-/

namespace FontCatalog

namespace SyntheticSetting

/-- The height of lower-case letters that a setting states, or that it states
none. -/
def xHeight? : SyntheticSetting → Option (Option Int16)
  | .xHeight n => some (some n)
  | .drawnXHeight _ => some none
  | _ => none

/-- What a setting puts in the place of the height of capitals. -/
def capHeight? : SyntheticSetting → Option Int16
  | .capHeight n => some n
  | .drawnXHeight n => some n
  | _ => none

/-- Nothing is given by settings none of which gives anything. -/
theorem lastGiven?_eq_none {α : Type} {value? : SyntheticSetting → Option α}
    {settings : List SyntheticSetting} (h : ∀ setting ∈ settings, value? setting = none) :
    lastGiven? value? settings = none :=
  List.findSome?_eq_none_iff.mpr fun setting hsetting => h setting (List.mem_reverse.mp hsetting)

end SyntheticSetting

namespace SyntheticFont

open SyntheticSetting

/-! ## The order -/

variable (f : SyntheticFont) (settings : List SyntheticSetting)

theorem xHeight_adjust :
    (f.adjust settings).xHeight = (lastGiven? xHeight? settings).getD f.xHeight :=
  adjust_eq_lastGiven?_getD xHeight xHeight? (fun _ setting => by cases setting <;> rfl)
    f settings

theorem capHeight_adjust :
    (f.adjust settings).capHeight = (lastGiven? capHeight? settings).getD f.capHeight :=
  adjust_eq_lastGiven?_getD capHeight capHeight? (fun _ setting => by cases setting <;> rfl)
    f settings

/-- **An order with a drawn height** and no height stated after it: no height
is stated, and the height of the box is in the place of the height of
capitals. -/
theorem adjust_drawnXHeight (before : List SyntheticSetting) {after : List SyntheticSetting}
    {h : Int16} (hafter : ∀ setting ∈ after, xHeight? setting = none) :
    (f.adjust (before ++ .drawnXHeight h :: after)).xHeight = none ∧
      (f.adjust (before ++ .drawnXHeight h :: after)).capHeight
        = (lastGiven? capHeight? after).getD h := by
  have hadjust : f.adjust (before ++ .drawnXHeight h :: after)
      = ((f.adjust before).set (.drawnXHeight h)).adjust after := by
    rw [adjust, List.foldl_append, List.foldl_cons]
    rfl
  rw [hadjust, xHeight_adjust, lastGiven?_eq_none hafter, capHeight_adjust]
  exact ⟨rfl, rfl⟩

/-! ## The letter x -/

variable {f} {tables : Tables}

/-- The one character of a synthetic font has the second glyph. -/
theorem glyph?_eq (hcmap : tables (Tag.named "cmap") = some cmapTable) :
    tables.glyph? 'x' = some 1 := by
  rw [Tables.glyph?, hcmap]
  decide +kernel

/-- The formats of `loca` and `glyf` are the ones that are written. -/
theorem i16?_headTable (n : UInt32) :
    (Font.withAdjustment f.headTable n).i16? 50 = some 0 := by
  have hlength : 12 ≤ f.headTable.length := by
    rw [length_headTable]
    decide
  have hzeros : ∀ (b : Bytes) (pos : Nat), (Bytes.zeros 16 ++ b).drop (pos + 16) = b.drop pos :=
    fun _ _ => rfl
  have hdrop : f.headTable.drop 50 = Bytes.beSigned16 0 ++ Bytes.be16 0 := by
    simp only [headTable, List.append_assoc, Bytes.drop_be16_append, Bytes.drop_be32_append,
      Bytes.drop_beSigned16_append, hzeros]
    rfl
  rw [← Font.drop_withAdjustment hlength n (by decide)] at hdrop
  exact Bytes.i16?_of_drop hdrop (by decide) (by decide)

/-- The outlines are brought to an even length. -/
theorem length_glyfTable_mod_two (top : Int) : (glyfTable top).length % 2 = 0 := by
  rw [glyfTable, List.length_append, Bytes.length_zeros]
  omega

/-- The bounding box of the box, and where it says that there are no
instructions. -/
theorem glyfTable_eq (top : Int) :
    ∃ rest, glyfTable top = Bytes.beSigned16 1 ++ (Bytes.be16 boxLeft
      ++ (Bytes.beSigned16 (min 0 top) ++ (Bytes.be16 boxRight
        ++ (Bytes.beSigned16 (max 0 top) ++ (Bytes.be16 3 ++ (Bytes.be16 0 ++ rest)))))) :=
  ⟨_, by rw [glyfTable, box]; simp only [List.append_assoc]; rfl⟩

/-- Where the outlines of the two glyphs start, and where the second ends. -/
theorem outlineStart?_eq {n : UInt32} {top : Int}
    (hhead : tables (Tag.named "head") = some (Font.withAdjustment f.headTable n))
    (hloca : tables (Tag.named "loca") = some (locaTable top)) :
    tables.outlineStart? 1 = some 0 ∧
      tables.outlineStart? 2 = some (glyfTable top).length := by
  have hshort := length_glyfTable_le top
  have hlast : (locaTable top).u16? 4 = some ((glyfTable top).length / 2) := by
    rw [Bytes.u16?_of_drop (n := (glyfTable top).length / 2)
        (show (locaTable top).drop 4 = _ ++ [] from rfl),
      Nat.mod_eq_of_lt (by omega)]
  have heven : 2 * ((glyfTable top).length / 2) = (glyfTable top).length := by
    have hmod := length_glyfTable_mod_two top
    omega
  have hlength : (locaTable top).length = 6 := rfl
  have hplace : ∀ glyph, tables.outlineStart? glyph
      = ((locaTable top).u16? (2 * glyph)).map (2 * ·) := by
    intro glyph
    rw [Tables.outlineStart?, head?_eq hhead, hloca]
    simp only [Option.bind_eq_bind, Option.bind_some, i16?_headTable]
    rw [if_neg (by decide), hlength, if_pos (by decide)]
  rw [hplace, hplace]
  refine ⟨rfl, ?_⟩
  rw [hlast, Option.map_some, heven]

/-- **The top of the box** is what it was drawn up to, or the baseline. -/
theorem glyphTop?_eq {n : UInt32} {top : Int16}
    (hhead : tables (Tag.named "head") = some (Font.withAdjustment f.headTable n))
    (hloca : tables (Tag.named "loca") = some (locaTable top.toInt))
    (hglyf : tables (Tag.named "glyf") = some (glyfTable top.toInt)) :
    tables.glyphTop? 1 = some (max 0 top.toInt) := by
  obtain ⟨hstart, hstop⟩ := outlineStart?_eq hhead hloca
  obtain ⟨rest, hbox⟩ := glyfTable_eq top.toInt
  have hlength : 14 ≤ (glyfTable top.toInt).length := by
    rw [hbox]
    exact Nat.le_add_left 14 _
  have hslice : (glyfTable top.toInt).slice? 0 ((glyfTable top.toInt).length - 0)
      = some (glyfTable top.toInt) := by
    have hall := Bytes.slice?_append [] (glyfTable top.toInt) []
    rwa [List.nil_append, List.append_nil] at hall
  have hdrop : ∀ pos, (glyfTable top.toInt).drop pos = _ := fun pos => congrArg (·.drop pos) hbox
  have hcontours : (glyfTable top.toInt).i16? 0 = some 1 :=
    Bytes.i16?_of_drop (hdrop 0) (by decide) (by decide)
  have htop : (glyfTable top.toInt).i16? 8 = some (max 0 top.toInt) := by
    have hlo := top.le_toInt
    have hhi := top.toInt_lt
    exact Bytes.i16?_of_drop (hdrop 8) (by omega) (by omega)
  have hinstructions : (glyfTable top.toInt).u16? 12 = some 0 := Bytes.u16?_of_drop (hdrop 12)
  have hnone : (glyfTable top.toInt).slice? 14 0 = some [] := by
    rw [Bytes.slice?, if_pos hlength, List.take_zero]
  have hsome : 0 ≠ (glyfTable top.toInt).length := by omega
  rw [Tables.glyphTop?, hstart, hstop, hglyf]
  simp only [Option.bind_eq_bind, Option.bind_some, if_neg hsome, Nat.not_lt_zero, if_false,
    hslice, hcontours, htop]
  rw [if_neg (show ¬(1 : Int) < 0 by decide)]
  -- There is one contour, so its end takes the two bytes behind the box.
  show ((glyfTable top.toInt).u16? 12).bind _ = _
  rw [hinstructions, Option.bind_some]
  show ((glyfTable top.toInt).slice? 14 0).bind _ = _
  rw [hnone, Option.bind_some]
  rfl

/-! ## The font as it is loaded -/

/-- **A height that is not stated is measured.** -/
theorem xHeight_metricsOf_none {n : UInt32} (hx : f.xHeight = none)
    (hhead : tables (Tag.named "head") = some (Font.withAdjustment f.headTable n))
    (hos2 : tables (Tag.named "OS/2") = some f.os2Table)
    (hcmap : tables (Tag.named "cmap") = some cmapTable)
    (hloca : tables (Tag.named "loca") = some (locaTable f.boxHeight.toInt))
    (hglyf : tables (Tag.named "glyf") = some (glyfTable f.boxHeight.toInt)) :
    (tables.metricsOf none).xHeight = .whole (max 0 f.boxHeight.toInt) := by
  show (((tables.os2?.bind (·.xHeight)).map fun h => Metric.whole h).or
    (((tables.glyph? 'x').bind tables.glyphTop?).map Metric.whole)).getD _ = _
  rw [os2?_eq hos2, Option.bind_some, os2, hx, glyph?_eq hcmap, Option.bind_some,
    glyphTop?_eq hhead hloca hglyf]
  rfl

variable {b : Bytes} {σ : Type} {w : LoaderWorld σ} {s : σ} {file : FontFile}
  {registered : List LoaderId}

/-- **An order that states no height, built and loaded.** The set has one
entry, the `OS/2` table has no heights, and the face has the top of the box
for its height of lower-case letters. -/
theorem buildSet_of_unstated (hbuild : f.build = .ok b) (hx : f.xHeight = none)
    (hfile : w.Holds s file b) (hregistered : file.loader ∈ registered) :
    ∃ (font : Font) (os2 : Os2) (entry : FontEntry) (face : FontFace),
      Font.readAt b 0 = .ok font ∧ font.tables.os2? = some os2 ∧
      os2.xHeight = none ∧ os2.capHeight = none ∧
      w.buildSet registered [file] s = (.ok ⟨[entry]⟩, s) ∧
      w.readFace entry s = (.ok face, s) ∧ face.metrics.capHeight = none ∧
      face.metrics.xHeight = .whole (max 0 f.capHeight.toInt) := by
  obtain ⟨names, n, font, -, hread, htables, hothers⟩ := readAt_of_build hbuild
  obtain ⟨hset, hface⟩ := LoaderWorld.buildSet_of_holds_single hfile hregistered hread
  rw [ofTables_of_fvar_eq_none (hothers _ (by decide))] at hset hface
  have hhead : font.tables (Tag.named "head") = some (Font.withAdjustment f.headTable n) :=
    htables (Tag.named "head", f.headTable) (List.mem_cons_self ..)
  have hhhea : font.tables (Tag.named "hhea") = some f.hheaTable :=
    tables_eq_of_ne_head htables (by simp [tableList]) (by decide)
  have hos2 : font.tables (Tag.named "OS/2") = some f.os2Table :=
    tables_eq_of_ne_head htables (by simp [tableList]) (by decide)
  have hcmap : font.tables (Tag.named "cmap") = some cmapTable :=
    tables_eq_of_ne_head htables (by simp [tableList]) (by decide)
  have hloca : font.tables (Tag.named "loca") = some (locaTable f.boxHeight.toInt) :=
    tables_eq_of_ne_head htables (by simp [tableList]) (by decide)
  have hglyf : font.tables (Tag.named "glyf") = some (glyfTable f.boxHeight.toInt) :=
    tables_eq_of_ne_head htables (by simp [tableList]) (by decide)
  have hbox : f.boxHeight = f.capHeight := by
    rw [boxHeight, hx]
    rfl
  obtain ⟨-, -, -, hcap, -⟩ := metricsOf_none hhead hhhea hos2
  rw [hx] at hcap
  have hmeasured := xHeight_metricsOf_none hx hhead hos2 hcmap hloca hglyf
  rw [hbox] at hmeasured
  refine ⟨font, f.os2, _, _, hread, os2?_eq hos2, ?_, ?_, hset,
    hface _ (List.mem_singleton_self _), hcap, hmeasured⟩
  · rw [os2, hx]
    rfl
  · rw [os2, hx]
    rfl

/-- **What becomes of a drawn height.** An order has a drawn height and no
height is stated or drawn after it. If it can be filled, the font that is
loaded has no heights in its `OS/2` table, its face has no height of
capitals, and the height of its lower-case letters is measured. It is the
drawn height, or zero if that is below the baseline, exactly if the height of
capitals given last after it, where one is given, comes to the same. -/
theorem buildSet_of_drawn {family style : String} {before after : List SyntheticSetting}
    {h : Int16} (hafter : ∀ setting ∈ after, xHeight? setting = none)
    (hbuild : ((ofNames family style).adjust (before ++ .drawnXHeight h :: after)).build = .ok b)
    (hfile : w.Holds s file b) (hregistered : file.loader ∈ registered) :
    ∃ (font : Font) (os2 : Os2) (entry : FontEntry) (face : FontFace) (height : Int),
      Font.readAt b 0 = .ok font ∧ font.tables.os2? = some os2 ∧
      os2.xHeight = none ∧ os2.capHeight = none ∧
      w.buildSet registered [file] s = (.ok ⟨[entry]⟩, s) ∧
      w.readFace entry s = (.ok face, s) ∧ face.metrics.capHeight = none ∧
      face.metrics.xHeight = .whole height ∧
      height = max 0 ((lastGiven? capHeight? after).getD h).toInt ∧
      (height = max 0 h.toInt ↔
        ∀ n, lastGiven? capHeight? after = some n → max 0 n.toInt = max 0 h.toInt) := by
  obtain ⟨hx, hcap⟩ := (ofNames family style).adjust_drawnXHeight before hafter
  obtain ⟨font, os2, entry, face, hread, hos2, hnoX, hnoCap, hset, hface, hfaceCap, hheight⟩ :=
    buildSet_of_unstated hbuild hx hfile hregistered
  rw [hcap] at hheight
  refine ⟨font, os2, entry, face, _, hread, hos2, hnoX, hnoCap, hset, hface, hfaceCap, hheight,
    rfl, ?_⟩
  cases lastGiven? capHeight? after with
  | none => exact iff_of_true rfl nofun
  | some m => exact ⟨fun hm n hn => Option.some.inj hn ▸ hm, fun hall => hall m rfl⟩

/-- A height of capitals and a stated height before the drawn one are of no
account. -/
theorem buildSet_of_drawn_of_earlier_capitals :
    ∃ (b : Bytes) (w : LoaderWorld Unit) (entry : FontEntry) (face : FontFace),
      ((ofNames "Drawn" "Regular").adjust
        ([.capHeight 700, .xHeight 500] ++ .drawnXHeight 470 :: [.ascender 900])).build = .ok b ∧
      w.Holds () ⟨.memory, ⟨0⟩, "font"⟩ b ∧
      w.buildSet [.memory] [⟨.memory, ⟨0⟩, "font"⟩] () = (.ok ⟨[entry]⟩, ()) ∧
      w.readFace entry () = (.ok face, ()) ∧ face.metrics.capHeight = none ∧
      face.metrics.xHeight = .whole 470 := by
  obtain ⟨b, hbuild⟩ : ∃ b, ((ofNames "Drawn" "Regular").adjust
      [.capHeight 700, .xHeight 500, .drawnXHeight 470, .ascender 900]).build = .ok b :=
    exists_build (by decide +kernel) (by decide +kernel)
  have hsettings : ([.capHeight 700, .xHeight 500, .drawnXHeight 470, .ascender 900] :
      List SyntheticSetting)
        = [.capHeight 700, .xHeight 500] ++ .drawnXHeight 470 :: [.ascender 900] := rfl
  rw [hsettings] at hbuild
  have hafter : ∀ setting ∈ [SyntheticSetting.ascender 900], xHeight? setting = none := by
    decide
  let memory : MemoryLoader := ⟨[.whole "font" b]⟩
  have hfile : (LoaderWorld.vacant.withMemory memory).Holds () ⟨.memory, ⟨0⟩, "font"⟩ b :=
    LoaderWorld.holds_whole rfl
  obtain ⟨-, -, entry, face, height, -, -, -, -, hset, hface, hcap, hmeasured, -, hsame⟩ :=
    buildSet_of_drawn hafter hbuild hfile (List.mem_singleton_self LoaderId.memory)
  have hheight : height = max 0 (470 : Int16).toInt := hsame.mpr nofun
  rw [hheight] at hmeasured
  exact ⟨b, _, entry, face, hbuild, hfile, hset, hface, hcap, hmeasured⟩

/-- **A height of capitals after the drawn height replaces it**: the box is
asked for up to 470 and measured up to 700. -/
theorem xHeight_of_later_capitals :
    ∃ (b : Bytes) (w : LoaderWorld Unit) (entry : FontEntry) (face : FontFace),
      ((ofNames "Drawn" "Regular").adjust [.drawnXHeight 470, .capHeight 700]).build = .ok b ∧
      w.Holds () ⟨.memory, ⟨0⟩, "font"⟩ b ∧
      w.buildSet [.memory] [⟨.memory, ⟨0⟩, "font"⟩] () = (.ok ⟨[entry]⟩, ()) ∧
      w.readFace entry () = (.ok face, ()) ∧ face.metrics.capHeight = none ∧
      face.metrics.xHeight = .whole 700 ∧
      face.metrics.xHeight ≠ .whole (max 0 (470 : Int16).toInt) := by
  obtain ⟨b, hbuild⟩ : ∃ b, ((ofNames "Drawn" "Regular").adjust
      [.drawnXHeight 470, .capHeight 700]).build = .ok b :=
    exists_build (by decide +kernel) (by decide +kernel)
  let memory : MemoryLoader := ⟨[.whole "font" b]⟩
  have hfile : (LoaderWorld.vacant.withMemory memory).Holds () ⟨.memory, ⟨0⟩, "font"⟩ b :=
    LoaderWorld.holds_whole rfl
  obtain ⟨-, -, entry, face, -, -, -, -, hset, hface, hcap, hmeasured⟩ :=
    buildSet_of_unstated hbuild rfl hfile (List.mem_singleton_self LoaderId.memory)
  refine ⟨b, _, entry, face, hbuild, hfile, hset, hface, hcap, hmeasured, ?_⟩
  rw [hmeasured]
  decide

end SyntheticFont

end FontCatalog
