import FontCatalog.Proofs.PlainPatterns
import Mathlib.Data.List.TakeWhile

/-!
# Paths that find themselves

A search for a name in a directory goes along the pieces of the directory's
path, without empty ones at the start and at the end (`Glob.IsWay`,
`Glob.exists_isWay`). If no character of the path means anything else, the
search arrives at the directory, and it knows it by a path with the same
steps (`Glob.IsWay.arrival_spec`): dots at the start are left out, and more
slashes than one are drawn together.

The exception is a path such as `.//fonts`, with an empty piece right behind
dots at the start. There the search is given up, so such a path does not
find itself (`Glob.PlainPath`).
-/

namespace FontCatalog

namespace FileNode

variable {node : FileNode} {above : List FileNode} {place : FileNode × List FileNode}

/-- Following pieces is following the first ones and then the others. -/
theorem walk_append {ps qs : List String} (h : node.walk above (ps ++ qs) = .ok place) :
    ∃ node' above',
      node.walk above ps = .ok (node', above') ∧ node'.walk above' qs = .ok place := by
  induction ps generalizing node above with
  | nil => exact ⟨node, above, rfl, h⟩
  | cons p ps ih =>
    rw [List.cons_append, walk] at h
    rw [walk]
    cases hstep : node.step above p with
    | error e => rw [hstep] at h; cases h
    | ok next =>
      rw [hstep] at h
      exact ih h

/-- Empty pieces lead nowhere else. -/
theorem eq_of_walk_empty {ps : List String} (hps : ∀ p ∈ ps, p = "")
    (h : node.walk above ps = .ok place) : place = (node, above) := by
  induction ps with
  | nil => exact (Except.ok.inj h).symm
  | cons p ps ih =>
    obtain ⟨rfl, hrest⟩ := List.forall_mem_cons.mp hps
    rw [walk] at h
    cases node with
    | file data => cases h
    | directory entries => exact ih hrest h

/-- **Pieces lead where they lead with empty ones around them.** -/
theorem walk_of_padded {before ps behind : List String} (hbefore : ∀ p ∈ before, p = "")
    (hbehind : ∀ p ∈ behind, p = "")
    (h : node.walk above (before ++ ps ++ behind) = .ok place) :
    node.walk above ps = .ok place := by
  obtain ⟨node₂, above₂, h₂, hbehind'⟩ := walk_append h
  obtain ⟨node₁, above₁, h₁, hps⟩ := walk_append h₂
  obtain ⟨rfl, rfl⟩ := Prod.mk.inj (eq_of_walk_empty hbefore h₁)
  rw [hps, eq_of_walk_empty hbehind hbehind']

end FileNode

namespace Glob

/-! ## Paths that find themselves -/

/-- **A path that finds itself**: its characters stand for themselves, and
if it is relative, the first of its pieces that is no dot is not empty. -/
structure PlainPath (directory : String) : Prop where
  /-- No character means anything else. -/
  chars : ∀ c ∈ directory.toList, StandsForItself c
  /-- No empty piece comes right behind dots at the start. -/
  start : Path.isAbsolute directory = false →
    ((componentTexts (Path.join directory "*")).dropWhile (· = ".")).head? ≠ some ""

/-- **The pieces that are searched for** with a path: those of the path,
without empty ones at the start and at the end. -/
structure IsWay (directory : String) (way : List String) : Prop where
  /-- A search for a name behind the path looks for them and then for the
  name. -/
  texts : ∀ name, name ≠ "" → '/' ∉ name.toList →
    componentTexts (Path.join directory name) = way ++ [name]
  /-- What is left out is empty. -/
  padded : ∃ before behind, Path.pieces directory = before ++ way ++ behind ∧
    (∀ p ∈ before, p = "") ∧ ∀ p ∈ behind, p = ""

/-- The pieces behind the slashes at the start, up to a name. -/
theorem componentTexts_eq {path name : String} {way : List String} (hname : name ≠ "")
    (h : Path.pieces (String.ofList (path.toList.dropWhile (· = '/'))) = way ++ [name]) :
    componentTexts path = way ++ [name] := by
  have hnonempty : (path.toList.dropWhile (· = '/')).isEmpty = false := by
    refine Bool.eq_false_iff.mpr fun hnil => hname ?_
    rw [List.isEmpty_iff.mp hnil] at h
    have hpiece : [] ++ [""] = way ++ [name] := h
    exact (List.cons.inj (List.append_inj_right' hpiece rfl)).1.symm
  have hlast : (way ++ [name]).getLast? ≠ some "" := by
    rw [List.getLast?_append_of_ne_nil _ (List.cons_ne_nil _ _)]
    exact fun h => hname (Option.some.inj h)
  rw [componentTexts, h, hnonempty]
  dsimp only
  rw [if_neg hlast, if_neg Bool.false_ne_true]

/-- The slashes at the start of a path with a name behind it end where the
name starts, if not before. -/
theorem dropWhile_stem (stem : String) {name : String} (hname : '/' ∉ name.toList) :
    (stem ++ "/" ++ name).toList.dropWhile (· = '/')
      = if (stem.toList.dropWhile (· = '/')).isEmpty then name.toList
        else stem.toList.dropWhile (· = '/') ++ '/' :: name.toList := by
  have hself : name.toList.dropWhile (· = '/') = name.toList :=
    List.dropWhile_eq_self_iff.mpr fun hpos hhead =>
      hname (of_decide_eq_true hhead ▸ List.getElem_mem hpos)
  rw [Path.toList_append_slash, List.dropWhile_append, List.dropWhile_cons_of_pos (by decide),
    hself]

/-- **Every path but the empty one has pieces to be searched for.** -/
theorem exists_isWay {directory : String} (hdirectory : directory ≠ "") :
    ∃ way, IsWay directory way := by
  obtain ⟨stem, hstem, hjoin⟩ := Path.exists_join hdirectory
  obtain ⟨n, hn⟩ := Path.exists_pieceChars_eq_replicate stem.toList
  have hpieces : Path.pieces stem = List.replicate n ""
      ++ (Path.pieceChars (stem.toList.dropWhile (· = '/'))).map String.ofList := by
    rw [Path.pieces, hn, List.map_append, List.map_replicate]
  have hbefore : ∀ p ∈ List.replicate n "", p = "" := fun p hp => List.eq_of_mem_replicate hp
  obtain ⟨behind, hdir, hbehind⟩ : ∃ behind,
      Path.pieces directory = Path.pieces stem ++ behind ∧ ∀ p ∈ behind, p = "" := by
    rcases hstem with rfl | rfl
    · exact ⟨[], (List.append_nil _).symm, fun p hp => absurd hp List.not_mem_nil⟩
    · exact ⟨[""], Path.pieces_slash stem, fun p hp => List.mem_singleton.mp hp⟩
  rw [hpieces] at hdir
  cases hcs : stem.toList.dropWhile (· = '/') with
  | nil =>
    -- the root, with however many slashes
    rw [hcs] at hdir
    refine ⟨[], fun name hne hslash => componentTexts_eq hne ?_,
      List.replicate n "", "" :: behind, ?_, hbefore, List.forall_mem_cons.mpr ⟨rfl, hbehind⟩⟩
    · rw [hjoin name hslash, dropWhile_stem stem hslash, hcs, List.isEmpty_nil, if_pos rfl,
        String.ofList_toList, Path.pieces_of_notMem hslash]
      rfl
    · rw [hdir, List.append_nil, List.append_assoc]
      rfl
  | cons c cs =>
    rw [hcs] at hdir
    refine ⟨_, fun name hne hslash => componentTexts_eq hne ?_, _, behind, hdir, hbefore, hbehind⟩
    rw [hjoin name hslash, dropWhile_stem stem hslash, hcs, List.isEmpty_cons,
      if_neg Bool.false_ne_true, Path.pieces, String.toList_ofList, Path.pieceChars_append_slash,
      List.map_append, Path.pieceChars_of_notMem hslash, List.map_singleton, String.ofList_toList]

/-- Where the search for a path starts. -/
def departure (directory : String) : String := if Path.isAbsolute directory then "/" else "."

/-- **The path that a search arrives at**, put together from the pieces. -/
def arrival (directory : String) (way : List String) : String :=
  way.foldl extend (departure directory)

namespace IsWay

variable {directory : String} {way : List String}

theorem mem_pieces (h : IsWay directory way) {piece : String} (hpiece : piece ∈ way) :
    piece ∈ Path.pieces directory := by
  obtain ⟨before, behind, hdirectory, -, -⟩ := h.padded
  rw [hdirectory]
  exact List.mem_append_left _ (List.mem_append_right _ hpiece)

/-- The pieces are separated by slashes. -/
theorem slash_notMem (h : IsWay directory way) : ∀ piece ∈ way, '/' ∉ piece.toList :=
  fun _ hpiece hmem => (Path.of_mem_pieces (h.mem_pieces hpiece) hmem).2 rfl

theorem walk (h : IsWay directory way) {node : FileNode} {above : List FileNode}
    {place : FileNode × List FileNode}
    (hwalk : node.walk above (Path.pieces directory) = .ok place) :
    node.walk above way = .ok place := by
  obtain ⟨before, behind, hdirectory, hbefore, hbehind⟩ := h.padded
  rw [hdirectory] at hwalk
  exact FileNode.walk_of_padded hbefore hbehind hwalk

/-- Empty pieces are no steps. -/
theorem filterMap_innerComponent? (h : IsWay directory way) :
    (Path.pieces directory).filterMap Path.innerComponent?
      = way.filterMap Path.innerComponent? := by
  obtain ⟨before, behind, hdirectory, hbefore, hbehind⟩ := h.padded
  have hnone : ∀ ps : List String, (∀ p ∈ ps, p = "") → ps.filterMap Path.innerComponent? = [] :=
    fun ps hps => List.filterMap_eq_nil_iff.mpr fun p hp => by rw [hps p hp]; rfl
  rw [hdirectory, List.filterMap_append, List.filterMap_append, hnone before hbefore,
    hnone behind hbehind, List.nil_append, List.append_nil]

/-- The pieces of a path that finds itself can be put behind one another. -/
theorem extends_departure (h : IsWay directory way) (hplain : PlainPath directory) :
    Extends (departure directory) way := by
  rw [departure]
  cases habsolute : Path.isAbsolute directory with
  | true => exact extends_of_leaves (by decide) (by decide) h.slash_notMem
  | false =>
    have hstart := hplain.start habsolute
    rw [h.texts "*" (by decide) (by decide)] at hstart
    refine extends_dot h.slash_notMem fun hempty => hstart ?_
    obtain ⟨rest, hrest⟩ := List.head?_eq_some_iff.mp hempty
    rw [List.dropWhile_append, hrest]
    rfl

/-- **Where a search for a path arrives has the steps of the path.** -/
theorem arrival_spec (h : IsWay directory way) (hplain : PlainPath directory) :
    arrival directory way ≠ "" ∧
      DotAlone (arrival directory way) ∧
      Path.steps (arrival directory way) = Path.steps directory := by
  obtain ⟨hne, halone, hsteps⟩ : departure directory ≠ "" ∧
      DotAlone (departure directory) ∧
      Path.steps (departure directory)
        = if Path.isAbsolute directory then [.root] else [] := by
    unfold DotAlone departure
    cases Path.isAbsolute directory <;> decide
  obtain ⟨hend, hend', hsteps'⟩ :=
    foldl_extend hne halone h.slash_notMem (h.extends_departure hplain)
  refine ⟨hend, hend', ?_⟩
  rw [arrival, hsteps', hsteps, Path.steps_eq directory, h.filterMap_innerComponent?]

end IsWay

end Glob

end FontCatalog
