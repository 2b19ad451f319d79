import FontCatalog.Glob.FontFiles
import FontCatalog.Proofs.PathSteps
import FontCatalog.Proofs.RelatedLists

/-!
# Searches along plain paths

A path is searched for by patterns, and it finds itself if its characters
have no other meaning in patterns (`Glob.StandsForItself`). Such a text is
read as a pattern of mere characters (`Glob.Pattern.read_of_plain`), and a
pattern of mere characters is followed like a piece of a path. So a search
along plain pieces goes where they lead, and goes on there with the patterns
that are left (`Glob.within_append`).

The path of what is found is put together from the pieces again
(`Glob.extend`), with the steps of the pieces and no others
(`Glob.steps_extend`). There is one catch: an empty piece at a place where
nothing but dots was followed so far makes the path empty, and there the
search is given up (`Glob.Extends`).
-/

namespace FontCatalog.Glob

open FontCatalog

/-! ## Plain texts as patterns -/

/-- **A character without another meaning** in patterns. -/
def StandsForItself (c : Char) : Prop := c ≠ '?' ∧ c ≠ '*' ∧ c ≠ '['

instance (c : Char) : Decidable (StandsForItself c) :=
  inferInstanceAs (Decidable (c ≠ '?' ∧ c ≠ '*' ∧ c ≠ '['))

/-- The pattern of mere characters. -/
def Pattern.ofPlain (cs : List Char) : Pattern := cs.map .char

/-- The pattern of a star and then mere characters. -/
def Pattern.ofEnding (cs : List Char) : Pattern := .anySequence :: Pattern.ofPlain cs

namespace Pattern

variable {c : Char} {cs : List Char}

theorem readFrom_cons (hc : StandsForItself c) (before : Option Char) (pos : Nat)
    (cs : List Char) :
    readFrom before pos (c :: cs) = (readFrom (some c) (pos + 1) cs).map (.char c :: ·) := by
  obtain ⟨hany, hstar, hset⟩ := hc
  rw [readFrom]
  · exact hany
  · exact fun _ h _ => hstar h
  · exact fun _ h _ => hstar h
  · exact hstar
  · exact hset

/-- A bracket with a set behind it. -/
theorem readFrom_set {token : Token} {behind : List Char} (h : readSet? cs = some (token, behind))
    (before : Option Char) (pos : Nat) :
    readFrom before pos ('[' :: cs)
      = (readFrom (some ']') (pos + 1 + (cs.length - behind.length)) behind).map (token :: ·) := by
  rw [readFrom]
  split
  · next token' behind' h' =>
    obtain ⟨rfl, rfl⟩ := Prod.mk.inj (Option.some.inj (h.symm.trans h'))
    rfl
  · next h' => cases h.symm.trans h'

/-- One star that is not followed by another. -/
theorem readFrom_star (hc : StandsForItself c) (before : Option Char) (pos : Nat)
    (cs : List Char) :
    readFrom before pos ('*' :: c :: cs)
      = (readFrom (some '*') (pos + 1) (c :: cs)).map (.anySequence :: ·) := by
  rw [readFrom]
  · exact fun _ h => hc.2.1 (List.cons.inj h).1
  · exact fun _ h => hc.2.1 (List.cons.inj h).1

/-- Plain characters are read one by one, whatever comes before and behind
them. -/
theorem exists_readFrom_append (hcs : ∀ c ∈ cs, StandsForItself c) (before : Option Char)
    (pos : Nat) (rest : List Char) :
    ∃ before' pos', readFrom before pos (cs ++ rest)
      = (readFrom before' pos' rest).map (ofPlain cs ++ ·) := by
  induction cs generalizing before pos with
  | nil =>
    refine ⟨before, pos, ?_⟩
    rw [List.nil_append]
    cases readFrom before pos rest <;> rfl
  | cons c cs ih =>
    obtain ⟨hc, hcs⟩ := List.forall_mem_cons.mp hcs
    obtain ⟨before', pos', hrest⟩ := ih hcs (some c) (pos + 1)
    refine ⟨before', pos', ?_⟩
    rw [List.cons_append, readFrom_cons hc, hrest]
    cases readFrom before' pos' rest <;> rfl

theorem readFrom_of_plain (hcs : ∀ c ∈ cs, StandsForItself c) (before : Option Char) (pos : Nat) :
    readFrom before pos cs = .ok (ofPlain cs) := by
  obtain ⟨before', pos', hread⟩ := exists_readFrom_append hcs before pos []
  rw [List.append_nil, readFrom] at hread
  rw [hread]
  exact congrArg Except.ok (List.append_nil _)

/-- **A plain text is the pattern of its characters.** -/
theorem read_of_plain {text : String} (h : ∀ c ∈ text.toList, StandsForItself c) :
    Pattern.read text = .ok (ofPlain text.toList) := readFrom_of_plain h none 0

/-- It stands for itself. -/
theorem literal?_ofPlain (cs : List Char) : (ofPlain cs).literal? = some (String.ofList cs) := by
  have hchars : (ofPlain cs).mapM Token.char? = some cs := by
    induction cs with
    | nil => rfl
    | cons c cs ih =>
      rw [ofPlain] at ih
      rw [ofPlain, List.map_cons, List.mapM_cons, ih]
      rfl
  rw [literal?, hchars]
  rfl

theorem isRecursive_ofPlain (cs : List Char) : (ofPlain cs).isRecursive = false := by
  rw [isRecursive, List.any_eq_false]
  intro token htoken
  obtain ⟨c, -, rfl⟩ := List.mem_map.mp htoken
  exact Bool.false_ne_true

/-- With a star before it, it stands for more than itself. -/
theorem literal?_ofEnding (cs : List Char) : (ofEnding cs).literal? = none := rfl

theorem isRecursive_ofEnding (cs : List Char) : (ofEnding cs).isRecursive = false :=
  isRecursive_ofPlain cs

/-- A pattern of mere characters stands for those and no others. -/
theorem accepts_ofPlain_iff (ds : List Char) : (ofPlain cs).accepts ds = true ↔ ds = cs := by
  induction cs generalizing ds with
  | nil =>
    rw [ofPlain, List.map_nil, accepts]
    exact List.isEmpty_iff
  | cons c cs ih =>
    cases ds with
    | nil => exact ⟨nofun, nofun⟩
    | cons d ds =>
      have hhead : (ofPlain (c :: cs)).accepts (d :: ds) = (d == c && (ofPlain cs).accepts ds) :=
        rfl
      rw [hhead, Bool.and_eq_true, beq_iff_eq, ih, List.cons.injEq]

/-- Some end of a list has a property. -/
theorem anyEnd_iff {p : List Char → Bool} (ds : List Char) :
    anyEnd p ds = true ↔ ∃ es, es <:+ ds ∧ p es = true := by
  induction ds with
  | nil =>
    rw [anyEnd]
    refine ⟨fun h => ⟨[], List.suffix_refl _, h⟩, fun ⟨es, hes, hp⟩ => ?_⟩
    rwa [List.suffix_nil.mp hes] at hp
  | cons d ds ih =>
    rw [anyEnd, Bool.or_eq_true, ih]
    constructor
    · rintro (h | ⟨es, hes, hp⟩)
      · exact ⟨_, List.suffix_refl _, h⟩
      · exact ⟨es, hes.trans (List.suffix_cons d ds), hp⟩
    · rintro ⟨es, hes, hp⟩
      rcases List.suffix_cons_iff.mp hes with rfl | hes
      · exact Or.inl hp
      · exact Or.inr ⟨es, hes, hp⟩

/-- **A star before plain characters stands for the names that end with
them.** -/
theorem accepts_ofEnding_iff (ds : List Char) :
    (ofEnding cs).accepts ds = true ↔ cs <:+ ds := by
  rw [ofEnding, accepts, anyEnd_iff]
  constructor
  · rintro ⟨es, hes, hp⟩
    rwa [← (accepts_ofPlain_iff es).mp hp]
  · exact fun h => ⟨cs, h, (accepts_ofPlain_iff cs).mpr rfl⟩

end Pattern

/-! ## Following plain pieces -/

/-- Patterns none of which is for any number of directories stay apart. -/
theorem drawTogether_eq {ps : List Pattern} (h : ∀ p ∈ ps, p.isRecursive = false) :
    drawTogether ps = ps := by
  induction ps with
  | nil => rw [drawTogether]; exact nofun
  | cons p ps ih =>
    obtain ⟨hp, hps⟩ := List.forall_mem_cons.mp h
    cases ps with
    | nil => rw [drawTogether]; exact nofun
    | cons q qs => rw [drawTogether, hp, Bool.false_and, if_neg Bool.false_ne_true, ih hps]

/-- **Pieces that can be put behind a path** one after the other without
making it empty. -/
def Extends : String → List String → Prop
  | _, [] => True
  | path, piece :: pieces => extend path piece ≠ "" ∧ Extends (extend path piece) pieces

/-- The patterns of plain pieces. -/
def patternsOf (pieces : List String) : List Pattern :=
  pieces.map fun piece => .ofPlain piece.toList

/-- **A search along plain pieces goes where they lead.** -/
theorem within_append {pieces : List String} {ps : List Pattern} (hps : ps ≠ []) {path : String}
    {node node' : FileNode} {above above' : List FileNode}
    (hwalk : node.walk above pieces = .ok (node', above')) (hpath : Extends path pieces)
    (directories : Bool) :
    within directories (patternsOf pieces ++ ps) path node above
      = within directories ps (pieces.foldl extend path) node' above' := by
  induction pieces generalizing path node above with
  | nil =>
    obtain ⟨rfl, rfl⟩ := Prod.mk.inj (Except.ok.inj hwalk)
    rfl
  | cons piece pieces ih =>
    obtain ⟨hne, hrest⟩ := hpath
    rw [FileNode.walk] at hwalk
    cases hstep : node.step above piece with
    | error e => rw [hstep] at hwalk; cases hwalk
    | ok place =>
      obtain ⟨child, above₁⟩ := place
      rw [hstep] at hwalk
      have hmore : patternsOf pieces ++ ps ≠ [] := List.append_ne_nil_of_right_ne_nil _ hps
      obtain ⟨q, qs, hqs⟩ := List.exists_cons_of_ne_nil hmore
      have hempty : (extend path piece).isEmpty = false :=
        Bool.eq_false_iff.mpr fun h => hne (String.isEmpty_iff.mp h)
      rw [patternsOf, List.map_cons, List.cons_append, within, Pattern.literal?_ofPlain,
        String.ofList_toList]
      dsimp only
      rw [hstep]
      dsimp only
      rw [hempty, if_neg Bool.false_ne_true, ← patternsOf, hqs, found, ← hqs, ih hwalk hrest]
      rfl

/-! ## The path that is put together -/

section Extend

variable {path name : String}

theorem staysHere_iff :
    staysHere path = true ↔ Path.startsHere path = true ∧ Path.steps path = [] := by
  have hsteps : Path.steps path ≠ [.here] := by
    intro h
    have hmem : Path.Component.here ∈ Path.steps path := h ▸ List.mem_singleton_self _
    exact of_decide_eq_true (List.mem_filter.mp hmem).2 rfl
  rw [staysHere, beq_iff_eq, Path.components_eq]
  cases Path.startsHere path with
  | true =>
    rw [if_pos rfl, List.singleton_append, List.cons.injEq]
    exact and_congr_left fun _ => iff_of_true rfl rfl
  | false =>
    rw [if_neg Bool.false_ne_true, List.nil_append]
    exact iff_of_false hsteps fun h => Bool.false_ne_true h.1

/-- A name that starts with a dot as a path is the dot. -/
theorem eq_dot_of_startsHere (hname : '/' ∉ name.toList) (h : Path.startsHere name = true) :
    name = "." := by
  rw [Path.startsHere, Bool.and_eq_true, Path.pieces_of_notMem hname, List.head?_cons,
    beq_iff_eq] at h
  exact Option.some.inj h.2

/-- **A name adds its step to the path**, whichever way it is put there. -/
theorem steps_extend (hpath : path ≠ "") (hname : '/' ∉ name.toList) :
    Path.steps (extend path name)
      = Path.steps path ++ (Path.innerComponent? name).toList := by
  rw [extend]
  split
  · next hstays =>
    rw [(staysHere_iff.mp hstays).2, Path.steps_eq, Path.isAbsolute_of_notMem hname,
      Path.pieces_of_notMem hname, List.filterMap_cons]
    cases Path.innerComponent? name <;> rfl
  · exact Path.steps_join hpath hname

/-- A path that has no dot at its start, or has nothing else. -/
def DotAlone (path : String) : Prop := Path.startsHere path = true → Path.steps path = []

theorem DotAlone.extend (h : DotAlone path) (hpath : path ≠ "") (hname : '/' ∉ name.toList) :
    DotAlone (Glob.extend path name) := by
  intro hstarts
  rw [Glob.extend] at hstarts ⊢
  split at hstarts
  · next hstays =>
    rw [if_pos hstays, eq_dot_of_startsHere hname hstarts]
    decide
  · next hleaves =>
    rw [Path.startsHere_join hpath hname] at hstarts
    exact absurd (staysHere_iff.mpr ⟨hstarts, h hstarts⟩) hleaves

/-- Once a path has left, every name can be put behind it. -/
theorem extends_of_leaves {pieces : List String} (hpath : path ≠ "")
    (hleaves : staysHere path = false) (hpieces : ∀ piece ∈ pieces, '/' ∉ piece.toList) :
    Extends path pieces := by
  induction pieces generalizing path with
  | nil => trivial
  | cons piece pieces ih =>
    obtain ⟨hpiece, hpieces⟩ := List.forall_mem_cons.mp hpieces
    have hjoin : extend path piece = Path.join path piece := by
      rw [extend, hleaves, if_neg Bool.false_ne_true]
    have hne := Path.join_ne_empty hpath hpiece
    refine ⟨hjoin ▸ hne, hjoin ▸ ih hne ?_ hpieces⟩
    rw [Bool.eq_false_iff, ne_eq, staysHere_iff, Path.startsHere_join hpath hpiece,
      Path.steps_join hpath hpiece, List.append_eq_nil_iff, ← and_assoc, ← staysHere_iff, hleaves]
    exact fun h => Bool.false_ne_true h.1

/-- From the working directory on, pieces can be put behind one another if
the first that is no dot is not empty. -/
theorem extends_dot {pieces : List String} (hpieces : ∀ piece ∈ pieces, '/' ∉ piece.toList)
    (hfirst : (pieces.dropWhile (· = ".")).head? ≠ some "") : Extends "." pieces := by
  induction pieces with
  | nil => trivial
  | cons piece pieces ih =>
    obtain ⟨hpiece, hrest⟩ := List.forall_mem_cons.mp hpieces
    have hdot : staysHere "." = true := by decide
    have hextend : extend "." piece = piece := by rw [extend, if_pos hdot]
    by_cases hstays : piece = "."
    · subst hstays
      rw [List.dropWhile_cons_of_pos (by decide)] at hfirst
      exact ⟨by rw [hextend]; decide, by rw [hextend]; exact ih hrest hfirst⟩
    · rw [List.dropWhile_cons_of_neg (by simpa using hstays)] at hfirst
      have hne : piece ≠ "" := fun h => hfirst (congrArg some h)
      have hleaves : staysHere piece = false := Bool.eq_false_iff.mpr fun h =>
        hstays (eq_dot_of_startsHere hpiece (staysHere_iff.mp h).1)
      rw [Extends, hextend]
      exact ⟨hne, extends_of_leaves hne hleaves hrest⟩

/-- **The steps of a path that is put together** are those of its pieces. -/
theorem foldl_extend {pieces : List String} (hpath : path ≠ "") (h : DotAlone path)
    (hpieces : ∀ piece ∈ pieces, '/' ∉ piece.toList) (hextends : Extends path pieces) :
    pieces.foldl extend path ≠ "" ∧ DotAlone (pieces.foldl extend path) ∧
      Path.steps (pieces.foldl extend path)
        = Path.steps path ++ pieces.filterMap Path.innerComponent? := by
  induction pieces generalizing path with
  | nil => exact ⟨hpath, h, (List.append_nil _).symm⟩
  | cons piece pieces ih =>
    obtain ⟨hpiece, hpieces⟩ := List.forall_mem_cons.mp hpieces
    obtain ⟨hne, hrest⟩ := hextends
    obtain ⟨hend, halone, hsteps⟩ := ih hne (h.extend hpath hpiece) hpieces hrest
    refine ⟨hend, halone, ?_⟩
    rw [List.foldl_cons, hsteps, steps_extend hpath hpiece, List.append_assoc, List.filterMap_cons]
    cases Path.innerComponent? piece <;> rfl

/-- What is compared of a path that ends with a name is its steps. -/
theorem components_extend (h : DotAlone path) (hpath : path ≠ "") (hname : '/' ∉ name.toList)
    (hdown : Path.innerComponent? name = some (.down name)) :
    Path.components (extend path name) = Path.steps path ++ [.down name] := by
  have hsteps := steps_extend hpath hname
  rw [hdown] at hsteps
  have hstarts : Path.startsHere (extend path name) = false := Bool.eq_false_iff.mpr fun hstarts =>
    List.append_ne_nil_of_right_ne_nil _ (List.cons_ne_nil _ _)
      (hsteps.symm.trans (h.extend hpath hname hstarts))
  rw [Path.components_eq, hstarts, hsteps]
  rfl

end Extend

end FontCatalog.Glob
