import FontCatalog.Proofs.PlainPaths
import Mathlib.Data.List.Nodup

/-!
# Listing the fonts of a directory

The fonts of a directory are found by four searches, one for each usual
ending, and then put in the order of their paths. Each search follows the
path of the directory and ends with a star, so what it finds are the entries
whose names end as it says (`Glob.within_star`). No name ends in two of the
ways, since the endings are different and equally long, so the searches find
different entries, and together one result for each entry with one of the
endings (`Glob.fontEntries_perm`).

That holds if the path of the directory finds itself
(`Glob.fontFiles_of_plain`). The path is put into the pattern as it is, so a
directory called `f[1]` is not found: what is searched for is `f1`
(`Glob.search_brackets`).
-/

namespace FontCatalog.Glob

/-! ## Names by their endings -/

/-- A text that ends with another. -/
def EndsWith (ending name : String) : Prop := ending.toList <:+ name.toList

instance (ending name : String) : Decidable (EndsWith ending name) :=
  inferInstanceAs (Decidable (ending.toList <:+ name.toList))

/-- **An ending that is searched for**: it is not empty, its characters
stand for themselves, and it has no slash. -/
structure PlainEnding (ending : String) : Prop where
  /-- It is not empty. -/
  ne_empty : ending ≠ ""
  /-- No character means anything else, or ends the name. -/
  chars : ∀ c ∈ ending.toList, StandsForItself c ∧ c ≠ '/'

namespace PlainEnding

variable {ending : String}

theorem toList_star (ending : String) : ("*" ++ ending).toList = '*' :: ending.toList := by
  rw [String.toList_append]
  rfl

theorem slash_notMem (h : PlainEnding ending) : '/' ∉ ("*" ++ ending).toList := by
  rw [toList_star, List.mem_cons, not_or]
  exact ⟨by decide, fun hmem => (h.chars _ hmem).2 rfl⟩

theorem star_ne_empty (ending : String) : "*" ++ ending ≠ "" := fun hempty =>
  List.cons_ne_nil _ _ ((toList_star ending).symm.trans (congrArg String.toList hempty))

/-- The star before an ending is read as one, whatever comes before it. -/
theorem readFrom_star (h : PlainEnding ending) (before : Option Char) (pos : Nat) :
    Pattern.readFrom before pos ("*" ++ ending).toList = .ok (.ofEnding ending.toList) := by
  have hplain : ∀ c ∈ ending.toList, StandsForItself c := fun c hc => (h.chars c hc).1
  obtain ⟨c, cs, hcs⟩ := List.exists_cons_of_ne_nil fun hnil =>
    h.ne_empty (String.toList_eq_nil_iff.mp hnil)
  rw [toList_star, hcs, Pattern.readFrom_star (hplain c (hcs ▸ List.mem_cons_self ..)), ← hcs,
    Pattern.readFrom_of_plain hplain]
  rfl

end PlainEnding

/-- A result for each element with a property. -/
theorem flatMap_ite {α β : Type} {P : α → Prop} [DecidablePred P] {f : α → β} (xs : List α) :
    (xs.flatMap fun x => if P x then [f x] else []) = (xs.filter P).map f := by
  induction xs with
  | nil => rfl
  | cons x xs ih =>
    rw [List.flatMap_cons, List.filter_cons, ih]
    by_cases hx : P x
    · rw [if_pos hx, if_pos (decide_eq_true hx)]
      rfl
    · rw [if_neg hx, if_neg (by simpa using hx)]
      rfl

/-- **A star before an ending finds the entries whose names end so.** -/
theorem within_star (ending path : String) (node : FileNode) (above : List FileNode) :
    within false [.ofEnding ending.toList] path node above
      = ((sortedEntries node).filter fun e => EndsWith ending e.1).map
          fun e => extend path e.1 := by
  have hentry : ∀ e : String × FileNode,
      entry false [.ofEnding ending.toList] (extend path e.1) e.1 e.2 (node :: above)
        = if EndsWith ending e.1 then [extend path e.1] else [] := by
    intro e
    rw [entry, Pattern.isRecursive_ofEnding, if_neg Bool.false_ne_true]
    refine if_congr (Pattern.accepts_ofEnding_iff _) ?_ rfl
    rw [found]
    rfl
  rw [within, Pattern.literal?_ofEnding]
  dsimp only
  rw [List.flatMap_subtype fun e _ => hentry e, List.unattach_attach, flatMap_ite]
  rfl

/-! ## Searching a directory -/

section Search

variable {t : FileTree} {directory ending : String} {way : List String}

/-- The whole of a plain path, a star and an ending is a pattern. -/
theorem exists_read_join (hdirectory : directory ≠ "") (hplain : PlainPath directory)
    (hending : PlainEnding ending) :
    ∃ p, Pattern.read (Path.join directory ("*" ++ ending)) = .ok p := by
  obtain ⟨stem, hstem, hjoin⟩ := Path.exists_join hdirectory
  have hchars : ∀ c ∈ (stem ++ "/").toList, StandsForItself c := by
    intro c hc
    rw [String.toList_append, List.mem_append] at hc
    rcases hc with hc | hc
    · rcases hstem with rfl | rfl
      · exact hplain.chars c hc
      · exact hplain.chars c (String.toList_append ▸ List.mem_append_left _ hc)
    · rw [List.mem_singleton.mp hc]
      decide
  obtain ⟨before, pos, hread⟩ :=
    Pattern.exists_readFrom_append hchars none 0 ("*" ++ ending).toList
  rw [hending.readFrom_star, ← String.toList_append] at hread
  exact ⟨_, by rw [hjoin _ hending.slash_notMem, Pattern.read, hread]; rfl⟩

/-- The pieces of a plain path are read as they are, the star behind them as
one. -/
theorem mapM_read (hway : IsWay directory way) (hplain : PlainPath directory)
    (hending : PlainEnding ending) :
    (way ++ ["*" ++ ending]).mapM Pattern.read
      = .ok (patternsOf way ++ [.ofEnding ending.toList]) := by
  have hpieces : ∀ piece ∈ way, Pattern.read piece = .ok (.ofPlain piece.toList) :=
    fun piece hpiece => Pattern.read_of_plain fun c hc =>
      hplain.chars c (Path.of_mem_pieces (hway.mem_pieces hpiece) hc).1
  rw [mapM_eq_ok_iff_forall₂]
  refine List.rel_append (R := fun x y => Pattern.read x = .ok y) ?_
    (.cons (hending.readFrom_star none 0) .nil)
  rw [patternsOf, List.forall₂_map_right_iff, List.forall₂_same]
  exact hpieces

/-- **A search in a directory** along a plain path finds the entries whose
names end as it says. The results start with the same path, whatever the
ending is. -/
theorem search_star (hway : IsWay directory way) (hplain : PlainPath directory) {node : FileNode}
    {above : List FileNode} (hfind : t.find directory = .ok (node, above))
    (hending : PlainEnding ending) :
    search t (Path.join directory ("*" ++ ending))
      = .ok (((sortedEntries node).filter fun e => EndsWith ending e.1).map fun e =>
          extend (arrival directory way) e.1) := by
  have hdirectory : directory ≠ "" := by
    rintro rfl
    cases hfind
  have hslash := hending.slash_notMem
  have hne := PlainEnding.star_ne_empty ending
  obtain ⟨p, hread⟩ := exists_read_join hdirectory hplain hending
  have hstart : t.startOf (Path.join directory ("*" ++ ending)) = t.startOf directory := by
    rw [FileTree.startOf, Path.isAbsolute_join hdirectory hslash]
    rfl
  have hwalk : (t.startOf directory).1.walk (t.startOf directory).2 way = .ok (node, above) := by
    rw [FileTree.find, if_neg fun h => hdirectory (String.isEmpty_iff.mp h)] at hfind
    exact hway.walk hfind
  have happart : drawTogether (patternsOf way ++ [.ofEnding ending.toList])
      = patternsOf way ++ [.ofEnding ending.toList] := by
    refine drawTogether_eq fun p hp => ?_
    rcases List.mem_append.mp hp with hp | hp
    · obtain ⟨piece, -, rfl⟩ := List.mem_map.mp hp
      exact Pattern.isRecursive_ofPlain _
    · rw [List.mem_singleton.mp hp]
      exact Pattern.isRecursive_ofEnding _
  calc search t (Path.join directory ("*" ++ ending))
      = .ok (within false (drawTogether (patternsOf way ++ [.ofEnding ending.toList]))
          (departure directory) (t.startOf directory).1 (t.startOf directory).2) := by
        rw [search, hread, hway.texts _ hne hslash, mapM_read hway hplain hending, hstart,
          Path.isAbsolute_join hdirectory hslash, Path.endsWithSlash_join hdirectory hslash hne]
        rfl
    _ = _ := by
        rw [happart, within_append (List.cons_ne_nil _ _) hwalk (hway.extends_departure hplain),
          within_star]
        rfl

end Search

/-! ## The four endings -/

/-- The endings that font files usually have. -/
def fontEndings : List String := [".ttf", ".otf", ".ttc", ".otc"]

theorem fontPatterns_eq : fontPatterns = fontEndings.map ("*" ++ ·) := by decide

/-- **A name with one of the endings** that font files usually have. -/
def HasFontEnding (name : String) : Prop := ∃ ending ∈ fontEndings, EndsWith ending name

instance (name : String) : Decidable (HasFontEnding name) :=
  inferInstanceAs (Decidable (∃ ending ∈ fontEndings, EndsWith ending name))

theorem plainEnding_of_mem {ending : String} (h : ending ∈ fontEndings) : PlainEnding ending := by
  have hall : ∀ ending ∈ fontEndings, ending ≠ "" ∧
      ending.toList.all fun c => StandsForItself c ∧ c ≠ '/' := by decide
  obtain ⟨hne, hchars⟩ := hall ending h
  exact ⟨hne, fun c hc => of_decide_eq_true (List.all_eq_true.mp hchars c hc)⟩

/-- **No name has two of the endings**: they are different and equally long. -/
theorem fontEndings_apart :
    fontEndings.Pairwise fun e e' => ∀ name, EndsWith e name → ¬EndsWith e' name := by
  have hpairs : fontEndings.Pairwise fun e e' =>
      e.toList ≠ e'.toList ∧ e.toList.length = e'.toList.length := by decide
  refine hpairs.imp fun ⟨hne, hlength⟩ name h h' => hne ?_
  exact (List.suffix_of_suffix_length_le h h' hlength.le).eq_of_length hlength

/-- A name with one of the endings is a step down. -/
theorem HasFontEnding.innerComponent? {name : String} (h : HasFontEnding name) :
    Path.innerComponent? name = some (.down name) := by
  have hspecial : ∀ special ∈ ["", ".", ".."], ¬HasFontEnding special := by decide
  have hne : ∀ special ∈ ["", ".", ".."], name ≠ special := fun special hmem heq =>
    hspecial special hmem (heq ▸ h)
  rw [Path.innerComponent?, if_neg, if_neg]
  · exact hne ".." (by decide)
  · rw [not_or]
    exact ⟨hne "" (by decide), hne "." (by decide)⟩

/-- **What is kept for one of several reasons that exclude each other** is
what is kept for the first, for the second and so on. -/
theorem flatMap_filter_perm {α β : Type} {P : β → α → Prop} [∀ b, DecidablePred (P b)]
    {bs : List β} (hbs : bs.Pairwise fun b c => ∀ x, P b x → ¬P c x) (xs : List α) :
    (bs.flatMap fun b => xs.filter (P b)).Perm (xs.filter fun x => ∃ b ∈ bs, P b x) := by
  induction bs with
  | nil =>
    rw [List.flatMap_nil, List.filter_eq_nil_iff.mpr fun x _ => by simp]
  | cons b bs ih =>
    obtain ⟨hb, hbs⟩ := List.pairwise_cons.mp hbs
    have hfirst : (xs.filter fun x => ∃ c ∈ b :: bs, P c x).filter (P b) = xs.filter (P b) := by
      rw [List.filter_filter]
      refine List.filter_congr fun x _ => ?_
      by_cases hx : P b x <;> simp [hx]
    have hothers : (xs.filter fun x => ∃ c ∈ b :: bs, P c x).filter (fun x => !P b x)
        = xs.filter fun x => ∃ c ∈ bs, P c x := by
      rw [List.filter_filter]
      refine List.filter_congr fun x _ => ?_
      by_cases hx : P b x
      · have hnone : ¬∃ c ∈ bs, P c x := fun ⟨c, hc, hcx⟩ => hb c hc x hx hcx
        simp [hx, hnone]
      · simp [hx]
    rw [List.flatMap_cons]
    refine ((ih hbs).append_left _).trans ?_
    rw [← hfirst, ← hothers]
    exact List.filter_append_perm (fun x => decide (P b x)) _

/-- Four searches that succeed are a listing. -/
theorem fontFiles_of_searches {t : FileTree} {directory : String} {f : String → List String}
    (h : ∀ ending ∈ fontEndings, search t (Path.join directory ("*" ++ ending)) = .ok (f ending)) :
    fontFiles t directory = .ok ((fontEndings.flatMap f).mergeSort Path.le) := by
  have hmatching : fontPatterns.mapM (filesMatching t directory) = .ok (fontEndings.map f) := by
    rw [mapM_eq_ok_iff_forall₂, fontPatterns_eq, List.forall₂_map_left_iff,
      List.forall₂_map_right_iff, List.forall₂_same]
    intro ending hending
    rw [filesMatching, h ending hending]
    rfl
  rw [fontFiles, hmatching, List.flatMap_def]
  rfl

/-! ## A name that finds another -/

/-- A pattern that no entry's name is of finds nothing. -/
theorem within_of_rejects {p : Pattern} (hp : p.literal? = none) (hspecial : specialNames p = [])
    (hrecursive : p.isRecursive = false) {node : FileNode}
    (hentries : ∀ e ∈ node.entries, p.accepts e.1.toList = false) (directories : Bool)
    (ps : List Pattern) (path : String) (above : List FileNode) :
    within directories (p :: ps) path node above = [] := by
  rw [within, hp, hspecial]
  refine List.flatMap_eq_nil_iff.mpr fun e _ => ?_
  have hreject := hentries e.1 ((List.mergeSort_perm _ _).mem_iff.mp e.2)
  dsimp only
  rw [entry.eq_def]
  dsimp only
  rw [hrecursive, if_neg Bool.false_ne_true, hreject, if_neg Bool.false_ne_true]

section Brackets

variable {t : FileTree} {ending : String}

/-- The pattern that the name `f[1]` is. -/
def bracketPattern : Pattern := [.char 'f', .oneOf [.single '1']]

/-- The brackets and what is between them stand for one character. -/
theorem readSet?_brackets (rest : List Char) :
    readSet? ('1' :: ']' :: rest) = some (.oneOf [.single '1'], rest) := rfl

theorem read_brackets : Pattern.read "f[1]" = .ok bracketPattern := by
  change Pattern.readFrom none 0 ('f' :: '[' :: '1' :: ']' :: []) = _
  rw [Pattern.readFrom_cons (by decide), Pattern.readFrom_set (readSet?_brackets []),
    Pattern.readFrom]
  rfl

theorem exists_read_join_brackets (hending : ending ∈ fontEndings) :
    ∃ p, Pattern.read (Path.join "f[1]" ("*" ++ ending)) = .ok p := by
  have hchars : ∀ ending ∈ fontEndings, (Path.join "f[1]" ("*" ++ ending)).toList
      = 'f' :: '[' :: '1' :: ']' :: '/' :: ("*" ++ ending).toList := by decide
  rw [Pattern.read, hchars ending hending, Pattern.readFrom_cons (by decide),
    Pattern.readFrom_set (readSet?_brackets _), Pattern.readFrom_cons (by decide),
    (plainEnding_of_mem hending).readFrom_star]
  exact ⟨_, rfl⟩

/-- What is searched for with `f[1]` is `f1`. -/
theorem eq_of_accepts_brackets {cs : List Char} (h : bracketPattern.accepts cs = true) :
    cs = ['f', '1'] := by
  cases cs with
  | nil => cases h
  | cons c cs =>
    cases cs with
    | nil => exact absurd ((Bool.and_eq_true _ _).mp h).2 nofun
    | cons d cs =>
      have hall : (c == 'f' && ((d == '1' || false) && cs.isEmpty)) = true := h
      rw [Bool.or_false, Bool.and_eq_true, Bool.and_eq_true, beq_iff_eq, beq_iff_eq,
        List.isEmpty_iff] at hall
      obtain ⟨rfl, rfl, rfl⟩ := hall
      rfl

/-- **A search along `f[1]`** finds nothing where there is no `f1`. -/
theorem search_brackets (hnone : ∀ e ∈ t.workingNode.1.entries, e.1 ≠ "f1")
    (hending : ending ∈ fontEndings) : search t (Path.join "f[1]" ("*" ++ ending)) = .ok [] := by
  have htexts : ∀ ending ∈ fontEndings, componentTexts (Path.join "f[1]" ("*" ++ ending))
      = ["f[1]", "*" ++ ending] := by decide
  have hrelative : ∀ ending ∈ fontEndings,
      Path.isAbsolute (Path.join "f[1]" ("*" ++ ending)) = false := by decide
  have hparts : ["f[1]", "*" ++ ending].mapM Pattern.read
      = .ok [bracketPattern, .ofEnding ending.toList] :=
    mapM_eq_ok_iff_forall₂.mpr
      (.cons read_brackets (.cons ((plainEnding_of_mem hending).readFrom_star none 0) .nil))
  obtain ⟨p, hread⟩ := exists_read_join_brackets hending
  rw [search, hread, htexts ending hending, hparts, FileTree.startOf, hrelative ending hending]
  refine congrArg Except.ok (within_of_rejects rfl (by decide) rfl (fun e he => ?_) _ _ _ _)
  refine Bool.eq_false_iff.mpr fun haccepts => hnone e he ?_
  exact String.toList_inj.mp (eq_of_accepts_brackets haccepts)

/-- So a listing along it is empty there. -/
theorem fontFiles_brackets (hnone : ∀ e ∈ t.workingNode.1.entries, e.1 ≠ "f1") :
    fontFiles t "f[1]" = .ok [] := by
  rw [fontFiles_of_searches (f := fun _ => []) fun _ => search_brackets hnone]
  exact congrArg Except.ok List.mergeSort_nil

end Brackets

/-! ## What is listed -/

section Listing

variable {t : FileTree} {directory : String} {way : List String} {node : FileNode}
  {above : List FileNode}

/-- The entries that the four searches find, one search after the other. -/
def fontEntries (node : FileNode) : List (String × FileNode) :=
  fontEndings.flatMap fun ending => (sortedEntries node).filter fun e => EndsWith ending e.1

/-- Together they find each entry with one of the endings once. -/
theorem fontEntries_perm (node : FileNode) :
    (fontEntries node).Perm (node.entries.filter fun e => HasFontEnding e.1) := by
  have hsorted : (sortedEntries node).Perm node.entries := List.mergeSort_perm _ _
  have hapart : fontEndings.Pairwise fun ending ending' =>
      ∀ e : String × FileNode, EndsWith ending e.1 → ¬EndsWith ending' e.1 :=
    fontEndings_apart.imp fun h (e : String × FileNode) => h e.1
  exact (flatMap_filter_perm hapart _).trans (hsorted.filter _)

/-- **The listing of a plain path**: what the searches find, in the order of
the paths. -/
theorem fontFiles_eq (hway : IsWay directory way) (hplain : PlainPath directory)
    (hfind : t.find directory = .ok (node, above)) :
    fontFiles t directory = .ok (((fontEntries node).map fun e =>
      extend (arrival directory way) e.1).mergeSort Path.le) := by
  rw [fontFiles_of_searches fun _ hending =>
    search_star hway hplain hfind (plainEnding_of_mem hending), fontEntries, List.map_flatMap]

/-- A name with one of the endings is one step behind a path. -/
theorem HasFontEnding.steps_join {name : String} (h : HasFontEnding name)
    (hdirectory : directory ≠ "") (hname : '/' ∉ name.toList) :
    Path.steps (Path.join directory name) = Path.steps directory ++ [.down name] := by
  rw [Path.steps_join hdirectory hname, h.innerComponent?]
  rfl

/-- What is found is the directory's path with the name behind it. -/
theorem IsWay.components_arrival (hway : IsWay directory way) (hplain : PlainPath directory)
    (hdirectory : directory ≠ "") {name : String} (hname : '/' ∉ name.toList)
    (hfont : HasFontEnding name) :
    Path.components (extend (arrival directory way) name)
      = Path.steps (Path.join directory name) := by
  obtain ⟨hne, halone, hsteps⟩ := hway.arrival_spec hplain
  rw [components_extend halone hne hname hfont.innerComponent?, hsteps,
    hfont.steps_join hdirectory hname]

/-- **The fonts of a directory are listed, and nothing else.** Along a path
that finds itself, the listing of a directory succeeds: it is in the order of
paths, and its paths have the steps of the entries whose names end as the
names of font files do, one path for each such entry. If the names of the
entries are different, so are the paths. -/
theorem fontFiles_of_plain {entries : List (String × FileNode)} (hplain : PlainPath directory)
    (hfind : t.find directory = .ok (.directory entries, above))
    (hnames : ∀ e ∈ entries, '/' ∉ e.1.toList) :
    ∃ listed, fontFiles t directory = .ok listed ∧
      listed.Pairwise (fun p q => Path.le p q = true) ∧
      (listed.map Path.components).Perm (((entries.map Prod.fst).filter HasFontEnding).map
        fun name => Path.steps (Path.join directory name)) ∧
      ((entries.map Prod.fst).Nodup → (listed.map Path.components).Nodup) := by
  have hdirectory : directory ≠ "" := by
    rintro rfl
    cases hfind
  obtain ⟨way, hway⟩ := exists_isWay hdirectory
  have hslash : ∀ name ∈ (entries.map Prod.fst).filter HasFontEnding,
      '/' ∉ name.toList ∧ HasFontEnding name := by
    intro name hname
    obtain ⟨hmem, hfont⟩ := List.mem_filter.mp hname
    obtain ⟨e, he, rfl⟩ := List.mem_map.mp hmem
    exact ⟨hnames e he, of_decide_eq_true hfont⟩
  have hperm : ((((fontEntries (.directory entries)).map fun e =>
      extend (arrival directory way) e.1).mergeSort Path.le).map Path.components).Perm
        (((entries.map Prod.fst).filter HasFontEnding).map
          fun name => Path.steps (Path.join directory name)) := by
    refine (((List.mergeSort_perm _ _).trans ((fontEntries_perm _).map _)).map _).trans ?_
    rw [List.map_congr_left fun name hname =>
        (hway.components_arrival hplain hdirectory (hslash name hname).1 (hslash name hname).2).symm,
      List.filter_map, List.map_map, List.map_map]
    exact .refl _
  refine ⟨_, fontFiles_eq hway hplain hfind,
    List.pairwise_mergeSort Path.le_trans Path.le_total _, hperm, fun hnodup =>
      hperm.nodup_iff.mpr (List.Nodup.map_on (fun m hm n hn heq => ?_) (hnodup.filter _))⟩
  rw [(hslash m hm).2.steps_join hdirectory (hslash m hm).1,
    (hslash n hn).2.steps_join hdirectory (hslash n hn).1] at heq
  exact Path.Component.down.inj (List.cons.inj (List.append_cancel_left heq)).1

/-- A directory with two fonts of different endings and a text. -/
theorem fontFiles_of_plain_of_dot :
    ∃ listed, fontFiles ⟨.directory [("fonts", .directory
        [("b.ttf", .file []), ("notes.txt", .file []), ("a.otf", .file [])])], []⟩ "./fonts"
        = .ok listed ∧
      listed.Pairwise (fun p q => Path.le p q = true) ∧
      (listed.map Path.components).Perm
        [[.down "fonts", .down "b.ttf"], [.down "fonts", .down "a.otf"]] ∧
      (listed.map Path.components).Nodup := by
  have hchars : "./fonts".toList.all fun c => StandsForItself c := by decide
  have hplain : PlainPath "./fonts" :=
    ⟨fun c hc => of_decide_eq_true (List.all_eq_true.mp hchars c hc), by decide⟩
  obtain ⟨listed, hlisted, hsorted, hperm, hnodup⟩ :=
    fontFiles_of_plain (t := ⟨.directory [("fonts", .directory
        [("b.ttf", .file []), ("notes.txt", .file []), ("a.otf", .file [])])], []⟩)
      hplain rfl (by decide)
  exact ⟨listed, hlisted, hsorted, hperm, hnodup (by decide)⟩

/-- **A directory with brackets in its name** does not find itself: its
listing is empty, though there is a font in it. -/
theorem fontFiles_of_bracketed_directory :
    (FileTree.mk (.directory [("f[1]", .directory [("a.ttf", .file [])])]) []).find "f[1]"
        = .ok (.directory [("a.ttf", .file [])],
          [.directory [("f[1]", .directory [("a.ttf", .file [])])]]) ∧
      HasFontEnding "a.ttf" ∧
      fontFiles ⟨.directory [("f[1]", .directory [("a.ttf", .file [])])], []⟩ "f[1]" = .ok [] :=
  ⟨rfl, by decide, fontFiles_brackets (by decide)⟩

end Listing

end FontCatalog.Glob
