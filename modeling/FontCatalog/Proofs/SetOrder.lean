import FontCatalog.Proofs.HeldData
import FontCatalog.Proofs.NamedInstances
import FontCatalog.Proofs.RelatedLists
import FontCatalog.Sfnt.Layout

/-!
# Sets in the order of their files

A set is built by three loops, one inside the other: over the files, over the
fonts of a file, and over the named instances of a font. Each of them counts
on its own, and each can be left early: a file may not be there yet, or may
not be usable at all, and a font may have no instances. The numbers that come
out are all that an entry keeps of it, and a face is read by these numbers
alone.

Where asking for data has no effect, the three loops are three
concatenations. What a file brings into a set does not depend on the files
around it (`contribution`), so the set has the contributions of its files one
behind the other, and fails with the first file that fails
(`buildSet_of_quiet`). The rest is said of one file: which error it gives
(`contribution_eq_error_iff`), what it brings (`contribution_eq_ok_iff`), and
that this is found again by its numbers
(`FontEntry.exists_namedInstance_of_mem`).
-/

namespace FontCatalog

/-! ## All fonts of a file -/

namespace Font

/-- **Where the fonts of a file have their directories**: in a collection where
its header says, and at the start of any other file. -/
def starts (data : Bytes) : List Nat := (collectionOffsets? data).getD [0]

/-- **Why the fonts of a file cannot be read**: for the first of them that
cannot. -/
def Rejects (data : Bytes) (error : ReadError) : Prop :=
  FirstError (readAt data) (starts data) error

theorem faces_eq_mapM (data : Bytes) : faces data = (starts data).mapM (readAt data) := by
  rw [faces, starts]
  cases collectionOffsets? data with
  | some places => rfl
  | none =>
    rw [Option.getD_none, List.mapM_cons, List.mapM_nil]
    cases readAt data 0 with
    | ok font => rfl
    | error error => rfl

theorem faces_eq_error_iff {data : Bytes} {error : ReadError} :
    faces data = .error error ↔ Rejects data error := by
  rw [faces_eq_mapM]
  exact mapM_eq_error_iff

theorem faces_eq_ok_iff {data : Bytes} {fonts : List Font} :
    faces data = .ok fonts
      ↔ List.Forall₂ (fun place font => readAt data place = .ok font) (starts data) fonts := by
  rw [faces_eq_mapM]
  exact mapM_eq_ok_iff_forall₂

/-- A file is rejected exactly if one of its fonts is. -/
theorem exists_rejects_iff {data : Bytes} :
    (∃ error, Rejects data error)
      ↔ ∃ place ∈ starts data, ∃ error, readAt data place = .error error := by
  rw [← exists_mapM_eq_error_iff]
  exact exists_congr fun error => mapM_eq_error_iff.symm

end Font

/-! ## All entries of a font -/

namespace FontEntry

/-- **The entries of a font.** One that has no named instance under any number
has one entry. Otherwise there is an entry at each number under which there is
an instance, and it is the entry of that instance. -/
inductive AreOf (file : FontFile) (index : Nat) (tables : Tables) : List FontEntry → Prop
  /-- The font has no named instances. -/
  | plain (h : ∀ j, tables.namedInstance? j = none) :
    AreOf file index tables [⟨file, index, none, tables.faceProperties⟩]
  /-- The font has named instances. -/
  | instances {entries : List FontEntry} (hne : entries ≠ [])
    (h : ∀ j : Nat, entries[j]? = (tables.namedInstance? j).map fun i =>
      ⟨file, index, some j, tables.instanceProperties i⟩) :
    AreOf file index tables entries

variable {file : FontFile} {index : Nat} {tables : Tables} {entries : List FontEntry}

theorem getElem?_ofTables (hne : tables.variation.instances ≠ []) (j : Nat) :
    (ofTables file index tables)[j]? = (tables.namedInstance? j).map fun i =>
      ⟨file, index, some j, tables.instanceProperties i⟩ := by
  rw [← tables.instances_getElem? j]
  unfold ofTables
  split
  · next hnil => exact absurd hnil hne
  · rw [List.getElem?_map, List.getElem?_zipIdx, Option.map_map, Nat.zero_add]
    rfl

/-- There is one list of entries of a font, and it is the one that is made. -/
theorem areOf_iff : AreOf file index tables entries ↔ entries = ofTables file index tables := by
  constructor
  · intro h
    cases h with
    | plain h =>
      have hnil : tables.variation.instances = [] :=
        List.ext_getElem? fun j => (tables.instances_getElem? j).trans (h j)
      rw [ofTables, hnil]
    | instances hne h =>
      have hinstances : tables.variation.instances ≠ [] := by
        intro hnil
        have hfirst := h 0
        rw [← tables.instances_getElem? 0, hnil] at hfirst
        exact hne (List.eq_nil_of_length_eq_zero
          (Nat.le_zero.mp (List.getElem?_eq_none_iff.mp hfirst)))
      exact List.ext_getElem? fun j => (h j).trans (getElem?_ofTables hinstances j).symm
  · rintro rfl
    by_cases hinstances : tables.variation.instances = []
    · have hplain : ofTables file index tables
          = [⟨file, index, none, tables.faceProperties⟩] := by rw [ofTables, hinstances]
      rw [hplain]
      exact AreOf.plain fun j => by rw [← tables.instances_getElem? j, hinstances]; rfl
    · refine AreOf.instances ?_ (getElem?_ofTables hinstances)
      obtain ⟨i, rest, hcons⟩ := List.exists_cons_of_ne_nil hinstances
      rw [ofTables, hcons]
      exact List.cons_ne_nil _ _

/-- **An entry is found again by its numbers**: what it keeps of a named
instance, and where its face lies, come from the same record. -/
theorem exists_namedInstance_of_mem {entry : FontEntry} (h : entry ∈ ofTables file index tables)
    {j : Nat} (hj : entry.instanceIndex = some j) :
    ∃ i, tables.namedInstance? j = some i ∧ entry.properties = tables.instanceProperties i ∧
      (entry.faceOf tables).metrics = tables.metricsAt (tables.location i) := by
  by_cases hinstances : tables.variation.instances = []
  · rw [ofTables, hinstances, List.mem_singleton] at h
    rw [h] at hj
    cases hj
  · obtain ⟨k, hk⟩ := List.mem_iff_getElem?.mp h
    rw [getElem?_ofTables hinstances k] at hk
    obtain ⟨i, hi, rfl⟩ := Option.map_eq_some_iff.mp hk
    obtain rfl := Option.some.inj hj
    refine ⟨i, hi, rfl, ?_⟩
    have hfound : tables.variation.instances[k]? = some i :=
      (tables.instances_getElem? k).trans hi
    rw [faceOf, Tables.metricsOf, Option.bind_some, hfound]

/-- **The entries of all fonts of a file**, font by font, each with its place in
the file. -/
def PartsOf (file : FontFile) (fonts : List Font) (parts : List (List FontEntry)) : Prop :=
  List.Forall₂ (fun (p : Font × Nat) part => AreOf file p.2 p.1.tables part) fonts.zipIdx parts

theorem partsOf_iff {fonts : List Font} {parts : List (List FontEntry)} :
    PartsOf file fonts parts
      ↔ parts = fonts.zipIdx.map fun p => ofTables file p.2 p.1.tables := by
  constructor
  · intro h
    have hparts : List.Forall₂ Eq parts
        (fonts.zipIdx.map fun p => ofTables file p.2 p.1.tables) :=
      List.forall₂_map_right_iff.mpr (h.flip.imp fun part p hpart => areOf_iff.mp hpart)
    rwa [List.forall₂_eq_eq_eq] at hparts
  · rintro rfl
    exact List.forall₂_map_right_iff.mpr (List.forall₂_same.mpr fun p _ => areOf_iff.mpr rfl)

/-- A file has the entries of its fonts, one font behind the other. -/
theorem ofFonts_eq_flatten {fonts : List Font} {parts : List (List FontEntry)}
    (h : PartsOf file fonts parts) : ofFonts file fonts = parts.flatten := by
  rw [partsOf_iff.mp h, ofFonts, List.flatMap_def]
  rfl

end FontEntry

/-! ## One file -/

namespace LoaderWorld

variable {σ : Type} (w : LoaderWorld σ) (registered : List LoaderId) (s : σ)

/-- **What one file brings into a set**, whatever other files there are. -/
def contribution (file : FontFile) : Except FontError (List FontEntry) :=
  if file.loader ∉ registered then .error (.notRegistered file.name)
  else FontEntry.ofFile file (w.data file.loader file.key s).1

/-- **What is wrong with a file** that cannot be used. -/
inductive Fault (file : FontFile) : FontError → Prop
  /-- Its loader is not registered. -/
  | unregistered (h : file.loader ∉ registered) : Fault file (.notRegistered file.name)
  /-- Its data is there, and cannot be read. -/
  | rejected (h : file.loader ∈ registered) {source : FontSource}
    (hdata : (w.data file.loader file.key s).1 = some source) {error : ReadError}
    (herror : Font.Rejects source.data error) : Fault file (.unreadable file.name error)

/-- **What a file brings** that can be used. -/
inductive Brings (file : FontFile) : List FontEntry → Prop
  /-- Of data that is not there, an entry without properties. -/
  | remote (h : file.loader ∈ registered) (hdata : (w.data file.loader file.key s).1 = none) :
    Brings file [⟨file, 0, none, ⟨[], [], []⟩⟩]
  /-- The entries of all its fonts. -/
  | fonts (h : file.loader ∈ registered) {source : FontSource}
    (hdata : (w.data file.loader file.key s).1 = some source) {fonts : List Font}
    (hfonts : List.Forall₂ (fun place font => Font.readAt source.data place = .ok font)
      (Font.starts source.data) fonts)
    {parts : List (List FontEntry)} (hparts : FontEntry.PartsOf file fonts parts) :
    Brings file parts.flatten

variable {w registered s} {file : FontFile}

/-- **A file fails with what is wrong with it.** -/
theorem contribution_eq_error_iff {error : FontError} :
    w.contribution registered s file = .error error ↔ w.Fault registered s file error := by
  unfold contribution
  constructor
  · intro h
    split at h
    · next hfile =>
      obtain rfl := Except.error.inj h
      exact Fault.unregistered hfile
    · next hfile =>
      cases hdata : (w.data file.loader file.key s).1 with
      | none =>
        rw [hdata] at h
        cases h
      | some source =>
        rw [hdata, FontEntry.ofFile] at h
        split at h
        · cases h
        · next e he =>
          obtain rfl := Except.error.inj h
          exact Fault.rejected (not_not.mp hfile) hdata (Font.faces_eq_error_iff.mp he)
  · intro h
    cases h with
    | unregistered h => rw [if_pos h]
    | rejected h hdata herror =>
      rw [if_neg (not_not_intro h), hdata, FontEntry.ofFile, Font.faces_eq_error_iff.mpr herror]

/-- **Any other file brings what it has.** -/
theorem contribution_eq_ok_iff {part : List FontEntry} :
    w.contribution registered s file = .ok part ↔ w.Brings registered s file part := by
  unfold contribution
  constructor
  · intro h
    split at h
    · cases h
    · next hfile =>
      cases hdata : (w.data file.loader file.key s).1 with
      | none =>
        rw [hdata] at h
        obtain rfl := Except.ok.inj h
        exact Brings.remote (not_not.mp hfile) hdata
      | some source =>
        rw [hdata, FontEntry.ofFile] at h
        split at h
        · next fonts hfonts =>
          have hparts : FontEntry.PartsOf file fonts _ := FontEntry.partsOf_iff.mpr rfl
          rw [← Except.ok.inj h, FontEntry.ofFonts_eq_flatten hparts]
          exact Brings.fonts (not_not.mp hfile) hdata (Font.faces_eq_ok_iff.mp hfonts) hparts
        · cases h
  · intro h
    cases h with
    | remote h hdata =>
      rw [if_neg (not_not_intro h), hdata]
      rfl
    | fonts h hdata hfonts hparts =>
      rw [if_neg (not_not_intro h), hdata, FontEntry.ofFile, Font.faces_eq_ok_iff.mpr hfonts]
      exact congrArg _ (FontEntry.ofFonts_eq_flatten hparts)

/-- What a file brings is made from the answer of its loader. -/
theorem Brings.ofFile_eq {part : List FontEntry} (h : w.Brings registered s file part) :
    FontEntry.ofFile file (w.data file.loader file.key s).1 = .ok part := by
  have hpart := contribution_eq_ok_iff.mpr h
  unfold contribution at hpart
  split at hpart
  · cases hpart
  · exact hpart

/-! ## All files -/

/-- **Asking for the data of files has no effect**, as long as nothing else
happens. -/
def IsQuietFor (w : LoaderWorld σ) (s : σ) (files : List FontFile) : Prop :=
  ∀ file ∈ files, (w.data file.loader file.key s).2 = s

variable {files : List FontFile}

/-- **Each file brings its own**, one after the other. -/
theorem entries_of_quiet (hquiet : w.IsQuietFor s files) :
    w.entries registered files s
      = ((files.mapM (w.contribution registered s)).map List.flatten, s) := by
  induction files with
  | nil => rfl
  | cons file files ih =>
    obtain ⟨hfirst, hrest⟩ := List.forall_mem_cons.mp hquiet
    rw [entries, List.mapM_cons, contribution]
    split
    · rfl
    · dsimp only
      rw [hfirst, ih hrest]
      cases FontEntry.ofFile file (w.data file.loader file.key s).1 with
      | error error => rfl
      | ok first =>
        cases files.mapM (w.contribution registered s) with
        | error error => rfl
        | ok rest => rfl

/-- **A set has what its files bring**, one behind the other. -/
theorem buildSet_of_quiet (hquiet : w.IsQuietFor s files) :
    w.buildSet registered files s
      = ((files.mapM (w.contribution registered s)).map fun parts => ⟨parts.flatten⟩, s) := by
  rw [buildSet, entries_of_quiet hquiet]
  cases files.mapM (w.contribution registered s) with
  | error error => rfl
  | ok parts => rfl

/-- It fails as its files fail. -/
theorem buildSet_eq_error_iff_mapM (hquiet : w.IsQuietFor s files) {error : FontError} :
    (w.buildSet registered files s).1 = .error error
      ↔ files.mapM (w.contribution registered s) = .error error := by
  rw [buildSet_of_quiet hquiet]
  cases files.mapM (w.contribution registered s) with
  | error e =>
    exact ⟨fun h => congrArg _ (Except.error.inj h), fun h => congrArg _ (Except.error.inj h)⟩
  | ok parts => exact ⟨nofun, nofun⟩

/-- **A set fails with the first file that fails.** -/
theorem buildSet_eq_error_iff (hquiet : w.IsQuietFor s files) {error : FontError} :
    (w.buildSet registered files s).1 = .error error ↔
      ∃ before file after, files = before ++ file :: after ∧
        (∀ other ∈ before, ∀ e, ¬w.Fault registered s other e) ∧
        w.Fault registered s file error := by
  -- A file without a fault brings something.
  have hsound : ∀ other, (∃ part, w.contribution registered s other = .ok part)
      ↔ ∀ e, ¬w.Fault registered s other e := by
    intro other
    cases hother : w.contribution registered s other with
    | ok part =>
      refine iff_of_true ⟨part, rfl⟩ fun e he => ?_
      rw [contribution_eq_error_iff.mpr he] at hother
      cases hother
    | error e =>
      exact iff_of_false nofun fun h => h e (contribution_eq_error_iff.mp hother)
  rw [buildSet_eq_error_iff_mapM hquiet, mapM_eq_error_iff, FirstError]
  simp only [hsound, contribution_eq_error_iff]

/-- **Any other set is the concatenation of what its files bring.** -/
theorem buildSet_eq_ok_iff (hquiet : w.IsQuietFor s files) {set : FontSet} :
    (w.buildSet registered files s).1 = .ok set ↔
      ∃ parts, List.Forall₂ (w.Brings registered s) files parts ∧ set.entries = parts.flatten := by
  have hall : ∀ parts, files.mapM (w.contribution registered s) = .ok parts
      ↔ List.Forall₂ (w.Brings registered s) files parts := by
    intro parts
    rw [mapM_eq_ok_iff_forall₂]
    simp only [contribution_eq_ok_iff]
  simp only [← hall]
  rw [buildSet_of_quiet hquiet]
  cases files.mapM (w.contribution registered s) with
  | error e => exact ⟨nofun, nofun⟩
  | ok parts =>
    constructor
    · intro h
      exact ⟨parts, rfl, by rw [← Except.ok.inj h]⟩
    · rintro ⟨others, hothers, hset⟩
      obtain rfl := Except.ok.inj hothers
      exact congrArg Except.ok (congrArg FontSet.mk hset.symm)

/-- A file cannot be used if its loader is not registered, or if it has data
and one of its fonts cannot be read. -/
theorem exists_fault_iff : (∃ error, w.Fault registered s file error) ↔
    file.loader ∉ registered ∨ ∃ source, (w.data file.loader file.key s).1 = some source ∧
      ∃ place ∈ Font.starts source.data, ∃ error,
        Font.readAt source.data place = .error error := by
  constructor
  · rintro ⟨_, h⟩
    cases h with
    | unregistered h => exact Or.inl h
    | rejected _ hdata herror =>
      exact Or.inr ⟨_, hdata, Font.exists_rejects_iff.mp ⟨_, herror⟩⟩
  · intro h
    by_cases hfile : file.loader ∈ registered
    · obtain ⟨source, hdata, hplace⟩ := h.resolve_left (not_not_intro hfile)
      obtain ⟨error, herror⟩ := Font.exists_rejects_iff.mpr hplace
      exact ⟨_, Fault.rejected hfile hdata herror⟩
    · exact ⟨_, Fault.unregistered hfile⟩

/-- **Sets of files one behind the other** are concatenated. -/
theorem buildSet_append_eq_ok_iff {front back : List FontFile}
    (hquiet : w.IsQuietFor s (front ++ back)) {set : FontSet} :
    (w.buildSet registered (front ++ back) s).1 = .ok set ↔
      ∃ first second, (w.buildSet registered front s).1 = .ok first ∧
        (w.buildSet registered back s).1 = .ok second ∧
        set.entries = first.entries ++ second.entries := by
  obtain ⟨hfront, hback⟩ := List.forall_mem_append.mp hquiet
  rw [buildSet_eq_ok_iff hquiet]
  constructor
  · rintro ⟨parts, hparts, hset⟩
    refine ⟨⟨(parts.take front.length).flatten⟩, ⟨(parts.drop front.length).flatten⟩, ?_, ?_, ?_⟩
    · exact (buildSet_eq_ok_iff hfront).mpr
        ⟨_, (List.forall₂_take_append parts front back hparts.flip).flip, rfl⟩
    · exact (buildSet_eq_ok_iff hback).mpr
        ⟨_, (List.forall₂_drop_append parts front back hparts.flip).flip, rfl⟩
    · rw [hset, ← List.flatten_append, List.take_append_drop]
  · rintro ⟨first, second, hfirst, hsecond, hset⟩
    obtain ⟨parts, hparts, hentries⟩ := (buildSet_eq_ok_iff hfront).mp hfirst
    obtain ⟨others, hothers, hentries'⟩ := (buildSet_eq_ok_iff hback).mp hsecond
    exact ⟨parts ++ others, List.rel_append hparts hothers, by
      rw [hset, hentries, hentries', List.flatten_append]⟩

/-- **A set is built in the order of its files.** Where asking for data has no
effect, building a set has none. It fails exactly if some file has a loader
that is not registered, or data of which a font cannot be read; and then with
the error of the first such file. Otherwise the set has what its files bring,
one behind the other. The entries are read back: where there is data, the face
of an entry is there, and what the entry of a named instance keeps and the
metrics of its face are of one and the same record. And if files are in two
parts, the set is the sets of the parts. -/
theorem buildSet_in_order (w : LoaderWorld σ) (registered : List LoaderId) (s : σ)
    (files : List FontFile) (hquiet : w.IsQuietFor s files) :
    (w.buildSet registered files s).2 = s ∧
      ((∃ error, (w.buildSet registered files s).1 = .error error) ↔
        ∃ file ∈ files, file.loader ∉ registered ∨
          ∃ source, (w.data file.loader file.key s).1 = some source ∧
            ∃ place ∈ Font.starts source.data, ∃ error,
              Font.readAt source.data place = .error error) ∧
      (∀ error, (w.buildSet registered files s).1 = .error error ↔
        ∃ before file after, files = before ++ file :: after ∧
          (∀ other ∈ before, ∀ e, ¬w.Fault registered s other e) ∧
          w.Fault registered s file error) ∧
      (∀ set, (w.buildSet registered files s).1 = .ok set ↔
        ∃ parts, List.Forall₂ (w.Brings registered s) files parts ∧
          set.entries = parts.flatten) ∧
      (∀ set, (w.buildSet registered files s).1 = .ok set → ∀ entry ∈ set.entries, ∀ source,
        (w.data entry.file.loader entry.file.key s).1 = some source →
        ∃ font face, Font.face source.data entry.faceIndex = .ok font ∧
          w.readFace entry s = (.ok face, s) ∧
          ∀ j, entry.instanceIndex = some j → ∃ i, font.tables.namedInstance? j = some i ∧
            entry.properties = font.tables.instanceProperties i ∧
            face.metrics = font.tables.metricsAt (font.tables.location i)) ∧
      ∀ front back, files = front ++ back → ∀ set,
        (w.buildSet registered files s).1 = .ok set ↔
          ∃ first second, (w.buildSet registered front s).1 = .ok first ∧
            (w.buildSet registered back s).1 = .ok second ∧
            set.entries = first.entries ++ second.entries := by
  refine ⟨by rw [buildSet_of_quiet hquiet], ?_, fun _ => buildSet_eq_error_iff hquiet,
    fun _ => buildSet_eq_ok_iff hquiet, ?_, ?_⟩
  · simp only [buildSet_eq_error_iff_mapM hquiet, exists_mapM_eq_error_iff,
      contribution_eq_error_iff, exists_fault_iff]
  · intro set hset entry hentry source hsource
    obtain ⟨parts, hparts, hflatten⟩ := (buildSet_eq_ok_iff hquiet).mp hset
    rw [hflatten] at hentry
    obtain ⟨part, hpart, hentry⟩ := List.mem_flatten.mp hentry
    obtain ⟨file, hfile, hbrings⟩ := exists_left_of_mem_right hparts hpart
    have hpart := hbrings.ofFile_eq
    obtain rfl := FontEntry.file_of_mem_ofFile hpart hentry
    rw [hsource] at hpart
    obtain ⟨font, hface, hmem⟩ := FontEntry.exists_font_of_mem_ofFile hpart hentry
    refine ⟨font, _, hface, ?_, fun j hj => FontEntry.exists_namedInstance_of_mem hmem hj⟩
    have hanswer : w.data entry.file.loader entry.file.key s = (some source, s) :=
      Prod.ext hsource (hquiet entry.file hfile)
    exact readFace_of_holds ⟨source, hanswer, rfl⟩ hface
  · rintro front back rfl set
    exact buildSet_append_eq_ok_iff hquiet

/-- A variable font of one axis with two instances, whose styles are called
`Thin` and `Bold`. -/
def variedFont : Bytes :=
  Layout.directory 0x00010000
      [⟨Tag.named "fvar", 0, 44, 52⟩, ⟨Tag.named "name", 0, 96, 46⟩]
    ++ [0, 1, 0, 0, 0, 16, 0, 2, 0, 1, 0, 20, 0, 2, 0, 8]
    ++ [0x77, 0x67, 0x68, 0x74, 0, 100, 0, 0, 1, 144, 0, 0, 3, 132, 0, 0, 0, 0, 1, 0]
    ++ [1, 0, 0, 0, 0, 100, 0, 0] ++ [1, 1, 0, 0, 3, 132, 0, 0]
    ++ [0, 0, 0, 2, 0, 30] ++ [0, 3, 0, 1, 4, 9, 1, 0, 0, 8, 0, 0]
    ++ [0, 3, 0, 1, 4, 9, 1, 1, 0, 8, 0, 8]
    ++ [0, 84, 0, 104, 0, 105, 0, 110] ++ [0, 66, 0, 111, 0, 108, 0, 100]

/-- A file that is not there yet, a collection of two fonts without tables,
and a variable font. The face of its second instance is read from the second
record. With a file of a loader that is not registered behind them, there is
no set. -/
theorem buildSet_in_order_of_mixed_files :
    ∃ (w : LoaderWorld Unit) (registered : List LoaderId) (far two varied stray : FontFile)
      (set : FontSet) (thin bold : FontProperties),
      w.IsQuietFor () [far, two, varied] ∧
      (w.buildSet registered [far, two, varied] ()).1 = .ok set ∧
      set.entries = [⟨far, 0, none, ⟨[], [], []⟩⟩, ⟨two, 0, none, ⟨[], [], []⟩⟩,
        ⟨two, 1, none, ⟨[], [], []⟩⟩, ⟨varied, 0, some 0, thin⟩, ⟨varied, 0, some 1, bold⟩] ∧
      thin.fullName = [⟨some "en-US", "Thin"⟩] ∧ bold.fullName = [⟨some "en-US", "Bold"⟩] ∧
      (∃ (font : Font) (face : FontFace) (i : NamedInstance),
        w.readFace ⟨varied, 0, some 1, bold⟩ () = (.ok face, ()) ∧
        font.tables.namedInstance? 1 = some i ∧ bold = font.tables.instanceProperties i ∧
        face.metrics = font.tables.metricsAt (font.tables.location i)) ∧
      ∃ error, (w.buildSet registered [far, two, varied, stray] ()).1 = .error error := by
  let bare : Bytes := Layout.directory 0x00010000 []
  let pair : Bytes := [0x74, 0x74, 0x63, 0x66, 0, 1, 0, 0, 0, 0, 0, 2, 0, 0, 0, 20, 0, 0, 0, 20]
  let memory : MemoryLoader := ⟨[.whole "two" (pair ++ bare), .whole "varied" variedFont]⟩
  let w : LoaderWorld Unit := vacant.withMemory memory
  let registered : List LoaderId := [.outside 3, .memory]
  let far : FontFile := ⟨.outside 3, ⟨0⟩, "far"⟩
  let two : FontFile := ⟨.memory, ⟨0⟩, "two"⟩
  let varied : FontFile := ⟨.memory, ⟨1⟩, "varied"⟩
  let stray : FontFile := ⟨.outside 4, ⟨0⟩, "stray"⟩
  let thin : FontProperties := ⟨[⟨some "en-US", "Thin"⟩], [], []⟩
  let bold : FontProperties := ⟨[⟨some "en-US", "Bold"⟩], [], []⟩
  let set : FontSet := ⟨[⟨far, 0, none, ⟨[], [], []⟩⟩, ⟨two, 0, none, ⟨[], [], []⟩⟩,
    ⟨two, 1, none, ⟨[], [], []⟩⟩, ⟨varied, 0, some 0, thin⟩, ⟨varied, 0, some 1, bold⟩]⟩
  have hset : (w.buildSet registered [far, two, varied] ()).1 = .ok set := by decide +kernel
  obtain ⟨-, -, -, -, hread, -⟩ :=
    buildSet_in_order w registered () [far, two, varied] fun _ _ => rfl
  obtain ⟨font, face, -, hface, hinstance⟩ := hread set hset ⟨varied, 0, some 1, bold⟩
    (by decide +kernel) (.whole "varied" variedFont) rfl
  obtain ⟨i, hi, hproperties, hmetrics⟩ := hinstance 1 rfl
  obtain ⟨-, hfails, -⟩ :=
    buildSet_in_order w registered () [far, two, varied, stray] fun _ _ => rfl
  refine ⟨w, registered, far, two, varied, stray, set, thin, bold, fun _ _ => rfl, hset, rfl, rfl,
    rfl, ⟨font, face, i, hface, hi, hproperties, hmetrics⟩, ?_⟩
  exact hfails.mpr ⟨stray, by decide +kernel, Or.inl (by decide +kernel)⟩

end LoaderWorld

end FontCatalog
