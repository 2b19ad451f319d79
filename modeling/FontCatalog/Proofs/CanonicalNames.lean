import FontCatalog.Proofs.HeldData
import FontCatalog.Sfnt.Layout
import Mathlib.Data.List.Find

/-!
# The canonical full name

A font has full names in several languages, and one of them is its canonical
name. There are two ways to it. A query takes the names that an entry keeps
and picks the one in the fallback language, or the first; a face is read from
the font anew. For a named instance the face has no names to read, and asks
the same question as the query. For any other font it picks the most English
name, and that is another question: plain English and no language at all also
count, and come before the first name.

Both questions are of one kind. There are wishes, in order, and the name is the
first that meets the earliest wish that any name meets
(`LocalizedName.choose?`). What such a choice gives can be said without its
searches: it is the `Foremost` name, the one that nothing outranks and that
nothing before it equals (`choose?_eq_some_iff`). So the two ways agree on a
font exactly if its two foremost names are the same text
(`LoaderWorld.fullName_eq_select_iff`). They need not be.
-/

namespace FontCatalog

/-! ## The foremost of some names -/

namespace LocalizedName

/-- **A choice by wishes**: the first name that meets the first wish, else the
first that meets the second, and so on; else the first name of all. -/
def choose? : List (LocalizedName → Bool) → List LocalizedName → Option LocalizedName
  | [], names => names.head?
  | wish :: wishes, names => (names.find? wish).or (choose? wishes names)

/-- **The rank of a name**: how many wishes are left from the first that it
meets. -/
def rank : List (LocalizedName → Bool) → LocalizedName → Nat
  | [], _ => 0
  | wish :: wishes, name => if wish name then wishes.length + 1 else rank wishes name

theorem rank_le (wishes : List (LocalizedName → Bool)) (name : LocalizedName) :
    rank wishes name ≤ wishes.length := by
  induction wishes with
  | nil => exact Nat.le_refl 0
  | cons wish wishes ih =>
    rw [rank, List.length_cons]
    split
    · exact Nat.le_refl _
    · exact Nat.le_succ_of_le ih

/-- **The foremost name**: none has a higher rank, and none before it has the
same. -/
def Foremost (wishes : List (LocalizedName → Bool)) (names : List LocalizedName)
    (name : LocalizedName) : Prop :=
  ∃ before after, names = before ++ name :: after ∧
    (∀ other ∈ before, rank wishes other < rank wishes name) ∧
    ∀ other ∈ after, rank wishes other ≤ rank wishes name

variable {wishes : List (LocalizedName → Bool)} {names : List LocalizedName}

theorem Foremost.mem {name : LocalizedName} (h : Foremost wishes names name) : name ∈ names := by
  obtain ⟨before, after, rfl, -⟩ := h
  exact List.mem_append_right _ List.mem_cons_self

theorem Foremost.rank_le_rank {a b : LocalizedName} (h : Foremost wishes names a)
    (hb : b ∈ names) : rank wishes b ≤ rank wishes a := by
  obtain ⟨before, after, rfl, hbefore, hafter⟩ := h
  rcases List.mem_append.mp hb with hb | hb
  · exact Nat.le_of_lt (hbefore b hb)
  · rcases List.mem_cons.mp hb with rfl | hb
    · exact Nat.le_refl _
    · exact hafter b hb

/-- There is no more than one foremost name. -/
theorem Foremost.unique {a b : LocalizedName} (ha : Foremost wishes names a)
    (hb : Foremost wishes names b) : a = b := by
  have hab := ha.rank_le_rank hb.mem
  have hba := hb.rank_le_rank ha.mem
  obtain ⟨before, after, hnames, hbefore, -⟩ := ha
  obtain ⟨before', after', hnames', hbefore', -⟩ := hb
  -- Of two places one comes first, and the name there would be outranked.
  rcases List.append_eq_append_iff.mp (hnames.symm.trans hnames') with
    ⟨between, hbetween, hrest⟩ | ⟨between, hbetween, hrest⟩
  · cases between with
    | nil => exact (List.cons.inj hrest).1
    | cons c between =>
      obtain rfl := (List.cons.inj hrest).1
      have hlt := hbefore' a (hbetween ▸ List.mem_append_right _ List.mem_cons_self)
      omega
  · cases between with
    | nil => exact (List.cons.inj hrest).1.symm
    | cons c between =>
      obtain rfl := (List.cons.inj hrest).1
      have hlt := hbefore b (hbetween ▸ List.mem_append_right _ List.mem_cons_self)
      omega

/-- Wishes that no name meets make no difference. -/
theorem foremost_cons_of_forall_not {wish : LocalizedName → Bool}
    (h : ∀ name ∈ names, wish name = false) {name : LocalizedName} :
    Foremost (wish :: wishes) names name ↔ Foremost wishes names name := by
  have hrank : ∀ other ∈ names, rank (wish :: wishes) other = rank wishes other := by
    intro other hother
    rw [rank, h other hother, if_neg Bool.false_ne_true]
  refine exists_congr fun before => exists_congr fun after => and_congr_right fun hnames => ?_
  subst hnames
  obtain ⟨hbefore, hrest⟩ := List.forall_mem_append.mp hrank
  obtain ⟨hname, hafter⟩ := List.forall_mem_cons.mp hrest
  refine and_congr (forall₂_congr fun other hother => ?_) (forall₂_congr fun other hother => ?_)
  · rw [hbefore other hother, hname]
  · rw [hafter other hother, hname]

/-- The first name that meets the first wish is foremost. -/
theorem foremost_of_find? {wish : LocalizedName → Bool} {name : LocalizedName}
    (h : names.find? wish = some name) : Foremost (wish :: wishes) names name := by
  obtain ⟨hname, before, after, hnames, hbefore⟩ := List.find?_eq_some_iff_append.mp h
  have hrank : rank (wish :: wishes) name = wishes.length + 1 := by rw [rank, if_pos hname]
  refine ⟨before, after, hnames, fun other hother => ?_, fun other _ => ?_⟩
  · have hnot : wish other = false := by simpa using hbefore other hother
    rw [hrank, rank, hnot, if_neg Bool.false_ne_true]
    exact Nat.lt_succ_of_le (rank_le wishes other)
  · rw [hrank]
    exact rank_le (wish :: wishes) other

/-- **A choice gives the foremost name.** -/
theorem choose?_eq_some_iff {name : LocalizedName} :
    choose? wishes names = some name ↔ Foremost wishes names name := by
  induction wishes with
  | nil =>
    constructor
    · intro h
      obtain ⟨rest, rfl⟩ := List.head?_eq_some_iff.mp h
      exact ⟨[], rest, rfl, fun _ hother => absurd hother List.not_mem_nil,
        fun _ _ => Nat.le_refl 0⟩
    · rintro ⟨before, after, rfl, hbefore, -⟩
      cases before with
      | nil => rfl
      | cons other before => exact absurd (hbefore other List.mem_cons_self) (Nat.lt_irrefl 0)
  | cons wish wishes ih =>
    rw [choose?]
    cases hfind : names.find? wish with
    | some other =>
      rw [Option.some_or, Option.some.injEq]
      constructor
      · rintro rfl
        exact foremost_of_find? hfind
      · exact fun h => (foremost_of_find? hfind).unique h
    | none =>
      have hnone : ∀ name ∈ names, wish name = false := fun name hname => by
        simpa using List.find?_eq_none.mp hfind name hname
      rw [Option.none_or, ih, foremost_cons_of_forall_not hnone]

/-- There is a choice where there is a name. -/
theorem exists_choose? (wishes : List (LocalizedName → Bool)) (hne : names ≠ []) :
    ∃ name, choose? wishes names = some name := by
  induction wishes with
  | nil => exact ⟨names.head hne, List.head?_eq_some_head hne⟩
  | cons wish wishes ih =>
    obtain ⟨name, hname⟩ := ih
    rw [choose?, hname]
    cases names.find? wish with
    | some other => exact ⟨other, rfl⟩
    | none => exact ⟨name, rfl⟩

/-! ## The two choices -/

/-- What a face wishes for: the fallback language, English, no language. -/
def englishWishes : List (LocalizedName → Bool) :=
  [(·.language == some Language.fallback), (·.language == some "en"), (·.language == none)]

/-- What a query in the fallback language wishes for: this language, in
whatever case. -/
def fallbackWishes : List (LocalizedName → Bool) := [isIn Language.fallback]

theorem english?_eq_choose? (names : List LocalizedName) :
    english? names = choose? englishWishes names := rfl

theorem selected?_fallback_eq_choose? (names : List LocalizedName) :
    selected? names Language.fallback = choose? fallbackWishes names := by
  rw [selected?, ← Option.or_assoc, Option.or_self]
  rfl

/-- **Names of which both choices take the same text.** -/
def Agree (names : List LocalizedName) : Prop :=
  ∀ a b, Foremost englishWishes names a → Foremost fallbackWishes names b → a.value = b.value

/-- The two choices are the same text for names that agree, and for no
others. -/
theorem english?_eq_select?_iff (names : List LocalizedName) :
    (english? names).map value = select? names Language.fallback ↔ Agree names := by
  rw [select?, english?_eq_choose?, selected?_fallback_eq_choose?]
  by_cases hne : names = []
  · rw [hne]
    exact iff_of_true rfl fun a _ ha => absurd ha.mem List.not_mem_nil
  · obtain ⟨a, ha⟩ := exists_choose? englishWishes hne
    obtain ⟨b, hb⟩ := exists_choose? fallbackWishes hne
    rw [ha, hb, Option.map_some, Option.map_some, Option.some.injEq]
    have ha := choose?_eq_some_iff.mp ha
    have hb := choose?_eq_some_iff.mp hb
    refine ⟨fun heq a' b' ha' hb' => ?_, fun h => h a b ha hb⟩
    rw [ha'.unique ha, hb'.unique hb]
    exact heq

/-- **Names that all say their language agree**, if the fallback language is
always spelled the same and English without a country does not come up. -/
theorem agree_of_spelled
    (h : ∀ name ∈ names, name.language ≠ none ∧ name.language ≠ some "en" ∧
      (isIn Language.fallback name = true → name.language = some Language.fallback)) :
    Agree names := by
  have hfallback : names.find? (·.language == some Language.fallback)
      = names.find? (isIn Language.fallback) := by
    refine List.find?_congr fun name hname => ?_
    rw [Bool.eq_iff_iff, beq_iff_eq]
    refine ⟨fun hlanguage => ?_, (h name hname).2.2⟩
    rw [isIn, hlanguage]
    decide
  have henglish : names.find? (·.language == some "en") = none :=
    List.find?_eq_none.mpr fun name hname => by simpa using (h name hname).2.1
  have huntagged : names.find? (·.language == none) = none :=
    List.find?_eq_none.mpr fun name hname => by simpa using (h name hname).1
  rw [← english?_eq_select?_iff, select?, selected?_fallback_eq_choose?, english?, hfallback,
    henglish, huntagged]
  rfl

end LocalizedName

/-! ## The names of faces -/

namespace FontEntry

variable {file : FontFile} {index : Nat} {tables : Tables} {entry : FontEntry}

/-- **The face of a named instance has the name that the entry keeps**; that of
any other font does exactly if its names agree. -/
theorem fullName_faceOf_eq_select?_iff (h : entry ∈ ofTables file index tables) :
    (entry.faceOf tables).fullName
        = LocalizedName.select? entry.properties.fullName Language.fallback
      ↔ entry.instanceIndex ≠ none ∨ LocalizedName.Agree entry.properties.fullName := by
  cases hinstance : entry.instanceIndex with
  | some j =>
    refine iff_of_true ?_ (Or.inl nofun)
    rw [faceOf, hinstance]
  | none =>
    rw [or_iff_right (not_not_intro rfl), properties_of_mem_ofTables h hinstance,
      ← LocalizedName.english?_eq_select?_iff, faceOf, hinstance]
    rfl

end FontEntry

namespace LoaderWorld

variable {σ : Type} {w : LoaderWorld σ} {registered : List LoaderId} {files : List FontFile}
  {s s' : σ} {entry : FontEntry}

/-- **The answer that an entry was made from**: what the loader of its file
said when the files before it had been read. -/
def MadeFrom (w : LoaderWorld σ) (registered : List LoaderId) (files : List FontFile) (s : σ)
    (entry : FontEntry) (answer : Option FontSource) : Prop :=
  ∃ before after, files = before ++ entry.file :: after ∧
    (w.data entry.file.loader entry.file.key (w.entries registered before s).2).1 = answer

/-- Behind a file that brings something, the others are read in the state that
reading it left. -/
theorem entries_cons_snd {file : FontFile} {first : List FontEntry}
    (hfile : file.loader ∈ registered)
    (hfirst : FontEntry.ofFile file (w.data file.loader file.key s).1 = .ok first) :
    (w.entries registered (file :: files) s).2
      = (w.entries registered files (w.data file.loader file.key s).2).2 := by
  rw [entries, if_neg (not_not_intro hfile)]
  dsimp only
  rw [hfirst]
  dsimp only
  cases w.entries registered files (w.data file.loader file.key s).2 with
  | mk rest t => cases rest <;> rfl

/-- Each entry of a set is made from an answer, and brought by its file. -/
theorem exists_madeFrom_of_mem_entries {made : List FontEntry}
    (h : w.entries registered files s = (.ok made, s')) (hentry : entry ∈ made) :
    ∃ answer part, w.MadeFrom registered files s entry answer ∧
      FontEntry.ofFile entry.file answer = .ok part ∧ entry ∈ part := by
  induction files generalizing s s' made with
  | nil =>
    cases h
    cases hentry
  | cons file files ih =>
    rw [entries] at h
    split at h
    · cases h
    next hfile =>
    dsimp only at h
    split at h
    · cases h
    next first hfirst =>
    split at h
    next rest t hrest =>
      cases h
      rcases List.mem_append.mp hentry with hmem | hmem
      · obtain rfl := FontEntry.file_of_mem_ofFile hfirst hmem
        exact ⟨_, first, ⟨[], files, rfl, rfl⟩, hfirst, hmem⟩
      · obtain ⟨answer, part, ⟨before, after, rfl, hanswer⟩, hpart, hmem⟩ := ih hrest hmem
        refine ⟨answer, part, ⟨file :: before, after, rfl, ?_⟩, hpart, hmem⟩
        rw [entries_cons_snd (not_not.mp hfile) hfirst]
        exact hanswer
    · cases h

/-- **When the canonical name of a face is the one that its entry gives.** Take
any entry of a set. Its loader had an answer when the set was built. Without
data nothing is known of the font. With data the face can be read whenever the
loader has the same data; and then its full name is the one that a query in
the fallback language picks from the names of the entry, if the entry is of a
named instance. For any other entry it is that name exactly if the names
agree. -/
theorem fullName_eq_select_iff {set : FontSet}
    (h : w.buildSet registered files s = (.ok set, s')) (hentry : entry ∈ set.entries) :
    ∃ answer, w.MadeFrom registered files s entry answer ∧
      (answer = none → entry = .anonymous entry.file) ∧
      ∀ source, answer = some source → ∀ (w' : LoaderWorld σ) (t : σ) (now : FontSource),
        (w'.data entry.file.loader entry.file.key t).1 = some now → now.data = source.data →
        ∃ face, (w'.readFace entry t).1 = .ok face ∧
          (face.fullName = LocalizedName.select? entry.properties.fullName Language.fallback ↔
            entry.instanceIndex ≠ none ∨ LocalizedName.Agree entry.properties.fullName) := by
  have hentries : w.entries registered files s = (.ok set.entries, s') := by
    rw [buildSet] at h
    cases hmade : w.entries registered files s with
    | mk made t =>
      rw [hmade] at h
      cases made with
      | error error => cases h
      | ok made =>
        cases h
        rfl
  obtain ⟨answer, part, hmade, hpart, hmem⟩ := exists_madeFrom_of_mem_entries hentries hentry
  refine ⟨answer, hmade, fun hnone => ?_, fun source hsource w' t now hnow hsame => ?_⟩
  · rw [hnone] at hpart
    obtain rfl := Except.ok.inj hpart
    exact List.mem_singleton.mp hmem
  · rw [hsource] at hpart
    obtain ⟨font, hfont, hmem⟩ := FontEntry.exists_font_of_mem_ofFile hpart hmem
    rw [← hsame] at hfont
    refine ⟨entry.faceOf font.tables, ?_, FontEntry.fullName_faceOf_eq_select?_iff hmem⟩
    show entry.face (w'.data entry.file.loader entry.file.key t).1 = _
    rw [hnow]
    exact FontEntry.face_eq_faceOf hfont

/-! ### A font that has two names -/

/-- A font of names only. -/
def nameFont (names : Bytes) : Bytes :=
  Layout.directory 0x00010000 [⟨Tag.named "name", 0, 28, names.length⟩] ++ names

/-- The full name `Text` in German and `Type` in English of the United
States. -/
def taggedNames : Bytes :=
  [0, 0, 0, 2, 0, 30] ++ [0, 3, 0, 1, 4, 7, 0, 4, 0, 8, 0, 0]
    ++ [0, 3, 0, 1, 4, 9, 0, 4, 0, 8, 0, 8]
    ++ [0, 84, 0, 101, 0, 120, 0, 116] ++ [0, 84, 0, 121, 0, 112, 0, 101]

/-- The full name `Text` without a language and `Type` in English. -/
def untaggedNames : Bytes :=
  [0, 0, 0, 2, 0, 30] ++ [0, 0, 0, 3, 0, 0, 0, 4, 0, 8, 0, 0]
    ++ [0, 1, 0, 0, 0, 0, 0, 4, 0, 4, 0, 8]
    ++ [0, 84, 0, 101, 0, 120, 0, 116] ++ [84, 121, 112, 101]

/-- A world with one font in memory. -/
def worldOf (font : Bytes) : LoaderWorld Unit :=
  vacant.withMemory ⟨[.whole "font" font]⟩

/-- The file of this font. -/
def onlyFile : FontFile := ⟨.memory, ⟨0⟩, "font"⟩

/-- The German and the English name agree: both ways lead to the English
one. -/
theorem fullName_eq_select_iff_of_taggedNames :
    ∃ (w : LoaderWorld Unit) (set : FontSet) (entry : FontEntry) (face : FontFace),
      w.buildSet [.memory] [onlyFile] () = (.ok set, ()) ∧ entry ∈ set.entries ∧
      entry.properties.fullName = [⟨some "de-DE", "Text"⟩, ⟨some "en-US", "Type"⟩] ∧
      (w.readFace entry ()).1 = .ok face ∧
      face.fullName = LocalizedName.select? entry.properties.fullName Language.fallback := by
  let entry : FontEntry := ⟨onlyFile, 0, none,
    ⟨[⟨some "de-DE", "Text"⟩, ⟨some "en-US", "Type"⟩], [], []⟩⟩
  have hset : (worldOf (nameFont taggedNames)).buildSet [.memory] [onlyFile] ()
      = (.ok ⟨[entry]⟩, ()) := by decide +kernel
  have hentry : entry ∈ (FontSet.mk [entry]).entries := List.mem_singleton_self _
  obtain ⟨answer, ⟨_, _, _, hanswer⟩, -, hlater⟩ := fullName_eq_select_iff hset hentry
  obtain ⟨face, hface, hname⟩ := hlater (.whole "font" (nameFont taggedNames)) hanswer.symm
    (worldOf (nameFont taggedNames)) () _ rfl rfl
  refine ⟨_, _, entry, face, hset, hentry, rfl, hface, hname.mpr (Or.inr ?_)⟩
  exact LocalizedName.agree_of_spelled (by decide +kernel)

/-- **The name without a language and the English name do not agree.** The face
has the English name, and of the same names the query picks the first. -/
theorem fullName_ne_select_of_untaggedNames :
    ∃ (set : FontSet) (entry : FontEntry) (face : FontFace),
      (worldOf (nameFont untaggedNames)).buildSet [.memory] [onlyFile] () = (.ok set, ()) ∧
      set.entries = [entry] ∧
      entry.properties.fullName = [⟨none, "Text"⟩, ⟨some "en", "Type"⟩] ∧
      (worldOf (nameFont untaggedNames)).readFace entry () = (.ok face, ()) ∧
      face.fullName = some "Type" ∧
      LocalizedName.select? entry.properties.fullName "en-US" = some "Text" := by
  refine ⟨⟨[⟨onlyFile, 0, none, ⟨[⟨none, "Text"⟩, ⟨some "en", "Type"⟩], [], []⟩⟩]⟩, _,
    ⟨some "Type", ⟨0, .whole 0, .whole 0, none, .whole 0⟩⟩, ?_, rfl, rfl, ?_, rfl, ?_⟩
  · decide +kernel
  · decide +kernel
  · decide +kernel

end LoaderWorld

end FontCatalog
