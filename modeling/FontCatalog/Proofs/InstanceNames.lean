import FontCatalog.Proofs.BestMatches
import FontCatalog.Proofs.CanonicalNames
import FontCatalog.Proofs.SetOrder

/-!
# The names of named instances

A font does not say what its named instances are called. It has names for the
style of each and names for the family, and a full name is composed of a style
and the family that suits the language of the style best
(`LocalizedName.ComposedOf`). So an instance has as many full names as its style
has names, in the same order and the same languages, whatever languages the
family has names in.

This is why a choice among the full names is a choice among the names of the
style (`LocalizedName.selected?_map_instanceFullName`): which name is the best
match depends on the languages alone, and these are kept. The texts do not
matter, and two of them may well be the same.

A composed name has no white space around it. `Text.Trimmed` says what this
means of a text and what is left of it, and `Text.trimmed_iff` that trimming
does that.
-/

namespace FontCatalog

/-! ## White space around a text -/

namespace Text

/-- **A text with no white space at its ends.** -/
structure Bare (t : String) : Prop where
  /-- The first character is not white space. -/
  first : ∀ c, t.toList.head? = some c → isBlank c = false
  /-- The last character is not white space. -/
  last : ∀ c, t.toList.getLast? = some c → isBlank c = false

/-- **What is left of a text without the white space around it.** -/
structure Trimmed (s t : String) : Prop where
  /-- Only white space is missing, and only at the ends. -/
  around : ∃ before after, s.toList = before ++ (t.toList ++ after) ∧
    (∀ c ∈ before, isBlank c = true) ∧ ∀ c ∈ after, isBlank c = true
  /-- None is left there. -/
  bare : Bare t

/-- Blank characters are dropped, and nothing from the first other one on. -/
theorem dropWhile_isBlank_append {before cs : List Char}
    (hbefore : ∀ c ∈ before, isBlank c = true)
    (hfirst : ∀ c, cs.head? = some c → isBlank c = false) :
    (before ++ cs).dropWhile isBlank = cs := by
  rw [List.dropWhile_append_of_pos hbefore]
  cases cs with
  | nil => rfl
  | cons c cs => rw [List.dropWhile_cons, hfirst c rfl, if_neg Bool.false_ne_true]

/-- Of a text with white space around it, the text is left. -/
theorem trimChars_append {before cs after : List Char} (hbefore : ∀ c ∈ before, isBlank c = true)
    (hafter : ∀ c ∈ after, isBlank c = true) (hfirst : ∀ c, cs.head? = some c → isBlank c = false)
    (hlast : ∀ c, cs.getLast? = some c → isBlank c = false) :
    trimChars (before ++ (cs ++ after)) = cs := by
  rw [trimChars]
  cases cs with
  | nil =>
    -- all is blank, and already the first pass drops all of it
    have hall : ∀ c ∈ before ++ after, isBlank c = true :=
      List.forall_mem_append.mpr ⟨hbefore, hafter⟩
    have hdrop : (before ++ after ++ []).dropWhile isBlank = [] :=
      dropWhile_isBlank_append hall hfirst
    rw [List.nil_append, ← List.append_nil (before ++ after), hdrop]
    rfl
  | cons c cs =>
    rw [dropWhile_isBlank_append hbefore (by simpa using hfirst), List.reverse_append,
      dropWhile_isBlank_append (fun d hd => hafter d (List.mem_reverse.mp hd))
        (fun d hd => hlast d (List.head?_reverse ▸ hd)),
      List.reverse_reverse]

/-- Trimming takes off white space, and stops only where there is none. -/
theorem trimmed_trim (s : String) : Trimmed s (trim s) := by
  have hblank : ∀ ds : List Char, ∀ c ∈ ds.takeWhile isBlank, isBlank c = true :=
    fun ds => List.all_eq_true.mp List.all_takeWhile
  have hstop : ∀ (ds : List Char) (c : Char),
      (ds.dropWhile isBlank).head? = some c → isBlank c = false := by
    intro ds c h
    have hnot := List.head?_dropWhile_not isBlank ds
    rw [h] at hnot
    exact hnot
  let after := ((s.toList.dropWhile isBlank).reverse.takeWhile isBlank).reverse
  -- without the blank front, there is the trimmed text and the blank back
  have hback : s.toList.dropWhile isBlank = (trim s).toList ++ after := by
    rw [trim, String.toList_ofList, trimChars, ← List.reverse_append,
      List.takeWhile_append_dropWhile, List.reverse_reverse]
  refine ⟨⟨s.toList.takeWhile isBlank, after, ?_, hblank _, fun c hc => ?_⟩, ⟨fun c hc => ?_,
    fun c hc => ?_⟩⟩
  · rw [← hback, List.takeWhile_append_dropWhile]
  · exact hblank _ c (List.mem_reverse.mp hc)
  · refine hstop s.toList c ?_
    rw [hback, List.head?_append, hc, Option.some_or]
  · rw [trim, String.toList_ofList, trimChars, List.getLast?_reverse] at hc
    exact hstop _ c hc

/-- **Trimming leaves the text without the white space around it.** -/
theorem trimmed_iff {s t : String} : Trimmed s t ↔ trim s = t := by
  constructor
  · rintro ⟨⟨before, after, hs, hbefore, hafter⟩, hbare⟩
    rw [trim, hs, trimChars_append hbefore hafter hbare.first hbare.last, String.ofList_toList]
  · rintro rfl
    exact trimmed_trim s

end Text

/-! ## Composed names -/

namespace LocalizedName

/-- **The family in a language**: the best match among the names of the family,
and the empty text where the family has no name. -/
inductive FamilyFor (locale : String) (families : List LocalizedName) : String → Prop
  /-- The family has names. -/
  | best {family : LocalizedName} (h : BestMatch locale families family) :
    FamilyFor locale families family.value
  /-- It has none. -/
  | missing (h : families = []) : FamilyFor locale families ""

/-- **A name composed of a family and a style**: it is in the language of the
style, and it is the family in this language, a space, and the style, without
white space around them. For a style without a language the family is the one
in English of the United States. -/
structure ComposedOf (families : List LocalizedName) (style name : LocalizedName) : Prop where
  /-- The language is that of the style. -/
  language : name.language = style.language
  /-- The text is that of family and style. -/
  value : ∃ family, FamilyFor (style.language.getD "en-US") families family ∧
    Text.Trimmed (family ++ " " ++ style.value) name.value

variable {families styles : List LocalizedName} {style name : LocalizedName} {locale : String}

theorem familyFor_iff {family : String} :
    FamilyFor locale families family ↔ (select? families locale).getD "" = family := by
  constructor
  · intro h
    cases h with
    | best h => rw [select?_eq_some_iff.mpr ⟨_, h, rfl⟩, Option.getD_some]
    | missing h => rw [select?_eq_none_iff.mpr h, Option.getD_none]
  · rintro rfl
    cases hbest : select? families locale with
    | none => exact .missing (select?_eq_none_iff.mp hbest)
    | some value =>
      obtain ⟨family, hfamily, rfl⟩ := select?_eq_some_iff.mp hbest
      exact .best hfamily

/-- There is one such name, and it is the one that is made. -/
theorem composedOf_iff :
    ComposedOf families style name ↔ name = Tables.instanceFullName families style := by
  constructor
  · rintro ⟨hlanguage, family, hfamily, hvalue⟩
    obtain ⟨language, value⟩ := name
    obtain rfl : language = style.language := hlanguage
    obtain rfl := familyFor_iff.mp hfamily
    exact congrArg (LocalizedName.mk _) (Text.trimmed_iff.mp hvalue).symm
  · rintro rfl
    exact ⟨rfl, _, familyFor_iff.mpr rfl, Text.trimmed_iff.mpr rfl⟩

/-- **Choosing a full name is choosing a style**: the best full name is the one
composed of the best name of the style. -/
theorem selected?_map_instanceFullName :
    selected? (styles.map (Tables.instanceFullName families)) locale
      = (selected? styles locale).map (Tables.instanceFullName families) := by
  have hisIn : ∀ tag, isIn tag ∘ Tables.instanceFullName families = isIn tag := fun _ => rfl
  rw [selected?, selected?, List.find?_map, List.find?_map, List.head?_map, hisIn, hisIn,
    Option.map_or, Option.map_or]

end LocalizedName

/-! ## Instances of a font -/

namespace Tables

/-- The full names of an instance, name by name of its style. -/
theorem forall₂_composedOf (tables : Tables) (i : NamedInstance) :
    List.Forall₂ (LocalizedName.ComposedOf tables.familyNames) (tables.strings i.subfamilyId)
      (tables.instanceProperties i).fullName :=
  List.forall₂_map_right_iff.mpr
    (List.forall₂_same.mpr fun _ _ => LocalizedName.composedOf_iff.mpr rfl)

/-- The names of the family are the typographic ones, and the older ones only
where there are none of these. -/
theorem familyNames_eq (tables : Tables) :
    (tables.strings NameId.typographicFamily ≠ [] →
        tables.familyNames = tables.strings NameId.typographicFamily) ∧
      (tables.strings NameId.typographicFamily = [] →
        tables.familyNames = tables.strings NameId.family) := by
  rw [familyNames]
  split
  · next h => exact ⟨fun hne => absurd h hne, fun _ => rfl⟩
  · next hne => exact ⟨fun _ => rfl, fun h => absurd h hne⟩

/-- A choice among the full names of an instance is made by a choice among the
names of its style. -/
theorem select?_instanceProperties (tables : Tables) (i : NamedInstance) (locale : String) :
    LocalizedName.select? (tables.instanceProperties i).fullName locale
      = (LocalizedName.selected? (tables.strings i.subfamilyId) locale).map fun style =>
        (instanceFullName tables.familyNames style).value := by
  rw [LocalizedName.select?, instanceProperties, LocalizedName.selected?_map_instanceFullName,
    Option.map_map]
  rfl

end Tables

namespace LoaderWorld

variable {σ : Type} {w : LoaderWorld σ} {registered : List LoaderId} {files : List FontFile}
  {s s' : σ} {entry : FontEntry}

/-- The entries of a set are the ones that its files brought. -/
theorem entries_of_buildSet {set : FontSet} (h : w.buildSet registered files s = (.ok set, s')) :
    w.entries registered files s = (.ok set.entries, s') := by
  rw [buildSet] at h
  generalize w.entries registered files s = made at h ⊢
  obtain ⟨_ | made, t⟩ := made
  · cases h
  · cases h
    rfl

/-- **An entry of a named instance keeps what its record gives**: it was made
from data, and in the font there the record is found by its number. -/
theorem exists_namedInstance_of_mem_buildSet {set : FontSet} {j : Nat}
    (h : w.buildSet registered files s = (.ok set, s')) (hentry : entry ∈ set.entries)
    (hj : entry.instanceIndex = some j) :
    ∃ source font i, w.MadeFrom registered files s entry (some source) ∧
      Font.face source.data entry.faceIndex = .ok font ∧
      font.tables.namedInstance? j = some i ∧
      entry.properties = font.tables.instanceProperties i := by
  obtain ⟨answer, part, hmade, hpart, hmem⟩ :=
    exists_madeFrom_of_mem_entries (entries_of_buildSet h) hentry
  cases answer with
  | none =>
    -- an entry without data is not of any instance
    obtain rfl := Except.ok.inj hpart
    rw [List.mem_singleton.mp hmem] at hj
    cases hj
  | some source =>
    obtain ⟨font, hface, hmem⟩ := FontEntry.exists_font_of_mem_ofFile hpart hmem
    obtain ⟨i, hi, hproperties, -⟩ := FontEntry.exists_namedInstance_of_mem hmem hj
    exact ⟨source, font, i, hmade, hface, hi, hproperties⟩

/-- A face of a named instance is called by the names of the entry. -/
theorem fullName_of_readFace {j : Nat} (hj : entry.instanceIndex = some j) {face : FontFace}
    (h : (w.readFace entry s).1 = .ok face) :
    face.fullName = LocalizedName.select? entry.properties.fullName "en-US" := by
  rw [readFace] at h
  dsimp only at h
  generalize (w.data entry.file.loader entry.file.key s).1 = answer at h
  rw [FontEntry.face.eq_def] at h
  split at h
  · cases h
  · split at h
    · cases h
    · obtain rfl := Except.ok.inj h
      rw [hj]
      rfl

/-- **The full names of a named instance.** Take any entry of a set that is of a
named instance. It was made from data, and its number is that of a record in the
font there. Its full names are those composed of the names of the style and the
names of the family, in the order and the languages of the style, and there is
no white space at their ends. A query finds one for each language, unless the
style has no name; and the one that it finds is composed of the name of the style
that the same query would find. A face of the entry that is read, from whatever
data, has the full name that is found for English of the United States; and it
is read where the data is the same. -/
theorem fullName_of_namedInstance {set : FontSet} {j : Nat}
    (h : w.buildSet registered files s = (.ok set, s')) (hentry : entry ∈ set.entries)
    (hj : entry.instanceIndex = some j) :
    ∃ source font i families styles, w.MadeFrom registered files s entry (some source) ∧
      Font.face source.data entry.faceIndex = .ok font ∧
      font.tables.namedInstance? j = some i ∧
      (font.tables.strings NameId.typographicFamily ≠ [] →
        families = font.tables.strings NameId.typographicFamily) ∧
      (font.tables.strings NameId.typographicFamily = [] →
        families = font.tables.strings NameId.family) ∧
      styles = font.tables.strings i.subfamilyId ∧
      List.Forall₂ (LocalizedName.ComposedOf families) styles entry.properties.fullName ∧
      (∀ name ∈ entry.properties.fullName, Text.Bare name.value) ∧
      (∀ locale,
        (LocalizedName.select? entry.properties.fullName locale = none ↔ styles = []) ∧
        ∀ style, LocalizedName.BestMatch locale styles style →
          ∃ name ∈ entry.properties.fullName, LocalizedName.ComposedOf families style name ∧
            LocalizedName.select? entry.properties.fullName locale = some name.value) ∧
      (∀ (w' : LoaderWorld σ) (t : σ) (face : FontFace), (w'.readFace entry t).1 = .ok face →
        face.fullName = LocalizedName.select? entry.properties.fullName "en-US") ∧
      ∀ (w' : LoaderWorld σ) (t : σ) (now : FontSource),
        (w'.data entry.file.loader entry.file.key t).1 = some now → now.data = source.data →
        ∃ face, (w'.readFace entry t).1 = .ok face := by
  obtain ⟨source, font, i, hmade, hface, hi, hproperties⟩ :=
    exists_namedInstance_of_mem_buildSet h hentry hj
  have hcomposed := font.tables.forall₂_composedOf i
  have hselect := font.tables.select?_instanceProperties i
  rw [← hproperties] at hcomposed hselect
  obtain ⟨htypographic, holder⟩ := font.tables.familyNames_eq
  refine ⟨source, font, i, font.tables.familyNames, font.tables.strings i.subfamilyId, hmade,
    hface, hi, htypographic, holder, rfl, hcomposed, fun name hname => ?_, fun locale => ⟨?_,
    fun style hstyle => ?_⟩, fun w' t face => fullName_of_readFace hj, fun w' t now hnow hsame => ?_⟩
  · obtain ⟨style, -, -, family, -, htrimmed⟩ := exists_left_of_mem_right hcomposed hname
    exact htrimmed.bare
  · rw [hselect, Option.map_eq_none_iff, ← Option.not_isSome_iff_eq_none,
      LocalizedName.selected?_isSome_iff, not_not]
  · have hbest := LocalizedName.selected?_eq_some_iff.mpr hstyle
    refine ⟨Tables.instanceFullName font.tables.familyNames style, ?_,
      LocalizedName.composedOf_iff.mpr rfl, by rw [hselect, hbest, Option.map_some]⟩
    rw [hproperties]
    exact List.mem_map_of_mem (LocalizedName.mem_of_selected? hbest)
  · refine ⟨entry.faceOf font.tables, ?_⟩
    rw [readFace]
    dsimp only
    rw [hnow]
    exact FontEntry.face_eq_faceOf (hsame ▸ hface)

/-- A variable font with one instance. The family is called `G` in German and
`F` in English of the United States, and the style `B`, with a space behind it,
in German and `A` without a language. The font itself says that it is called
`Z`. -/
def styledFont : Bytes :=
  Layout.directory 0x00010000
      [⟨Tag.named "fvar", 0, 44, 44⟩, ⟨Tag.named "name", 0, 88, 78⟩]
    ++ [0, 1, 0, 0, 0, 16, 0, 2, 0, 1, 0, 20, 0, 1, 0, 8]
    ++ [0x77, 0x67, 0x68, 0x74, 0, 100, 0, 0, 1, 144, 0, 0, 3, 132, 0, 0, 0, 0, 1, 0]
    ++ [1, 0, 0, 0, 0, 100, 0, 0]
    ++ [0, 0, 0, 5, 0, 66] ++ [0, 3, 0, 1, 4, 7, 0, 1, 0, 2, 0, 0]
    ++ [0, 3, 0, 1, 4, 9, 0, 1, 0, 2, 0, 2] ++ [0, 3, 0, 1, 4, 9, 0, 4, 0, 2, 0, 4]
    ++ [0, 3, 0, 1, 4, 7, 1, 0, 0, 4, 0, 6] ++ [0, 0, 0, 3, 0, 0, 1, 0, 0, 2, 0, 10]
    ++ [0, 71, 0, 70, 0, 90, 0, 66, 0, 32, 0, 65]

/-- The style without a language goes with the English family, and the German
one with the German family. The name of the face is not the one that the font
states. -/
theorem fullName_of_namedInstance_of_styledFont :
    ∃ (set : FontSet) (entry : FontEntry) (face : FontFace),
      (worldOf styledFont).buildSet [.memory] [onlyFile] () = (.ok set, ()) ∧
      entry ∈ set.entries ∧ entry.instanceIndex = some 0 ∧
      entry.properties.fullName = [⟨some "de-DE", "G B"⟩, ⟨none, "F A"⟩] ∧
      ((worldOf styledFont).readFace entry ()).1 = .ok face ∧ face.fullName = some "G B" := by
  let entry : FontEntry := ⟨onlyFile, 0, some 0,
    ⟨[⟨some "de-DE", "G B"⟩, ⟨none, "F A"⟩], [⟨some "de-DE", "G"⟩, ⟨some "en-US", "F"⟩], []⟩⟩
  have hset : (worldOf styledFont).buildSet [.memory] [onlyFile] () = (.ok ⟨[entry]⟩, ()) := by
    decide +kernel
  have hentry : entry ∈ (FontSet.mk [entry]).entries := List.mem_singleton_self _
  obtain ⟨source, _, _, _, _, ⟨_, _, _, hanswer⟩, -, -, -, -, -, -, -, -, hname, hread⟩ :=
    fullName_of_namedInstance hset hentry rfl
  obtain ⟨face, hface⟩ := hread (worldOf styledFont) () source hanswer rfl
  refine ⟨_, entry, face, hset, hentry, rfl, rfl, hface, ?_⟩
  rw [hname _ _ face hface]
  decide +kernel

end LoaderWorld

end FontCatalog
