import FontCatalog.FileTree.Path
import Mathlib.Data.List.Basic
import Mathlib.Order.Basic

/-!
# The way a path describes

Two paths can be spelled differently and still be the same path: empty
pieces and dots that stay where they are count for nothing, but for a dot at
the start, which is kept. Leaving that out as well gives the *steps* of a
path (`Path.steps`), and they are all that matters for where it leads.

Steps are read off the pieces one by one (`Path.steps_eq`), so putting a
name behind a path puts one step behind its steps (`Path.steps_join`). What
is compared of a path is its steps and the dot at its start
(`Path.components_eq`). The order of paths is that of lists, shorter ones
first (`Path.le_trans`, `Path.le_total`).
-/

namespace FontCatalog.Path

/-! ## Pieces -/

theorem pieceChars_ne_nil (cs : List Char) : pieceChars cs ≠ [] := by
  cases cs with
  | nil => exact List.cons_ne_nil _ _
  | cons c cs =>
    rw [pieceChars]
    split
    · exact List.cons_ne_nil _ _
    · split <;> exact List.cons_ne_nil _ _

theorem pieceChars_slash (cs : List Char) : pieceChars ('/' :: cs) = [] :: pieceChars cs := by
  rw [pieceChars, if_pos rfl]

/-- A character other than a slash belongs to the first piece. -/
theorem pieceChars_cons {c : Char} (hc : c ≠ '/') (cs : List Char) :
    pieceChars (c :: cs) = (pieceChars cs).modifyHead (c :: ·) := by
  rw [pieceChars, if_neg hc]
  cases hcs : pieceChars cs with
  | nil => exact absurd hcs (pieceChars_ne_nil cs)
  | cons p ps => rfl

/-- **A slash separates the pieces before it from those behind it.** -/
theorem pieceChars_append_slash (cs ds : List Char) :
    pieceChars (cs ++ '/' :: ds) = pieceChars cs ++ pieceChars ds := by
  induction cs with
  | nil => exact pieceChars_slash ds
  | cons c cs ih =>
    by_cases hc : c = '/'
    · subst hc
      rw [List.cons_append, pieceChars_slash, ih, pieceChars_slash, List.cons_append]
    · rw [List.cons_append, pieceChars_cons hc, ih, pieceChars_cons hc]
      cases hcs : pieceChars cs with
      | nil => exact absurd hcs (pieceChars_ne_nil cs)
      | cons p ps => rfl

/-- Without slashes there is one piece. -/
theorem pieceChars_of_notMem {cs : List Char} (h : '/' ∉ cs) : pieceChars cs = [cs] := by
  induction cs with
  | nil => rfl
  | cons c cs ih =>
    rw [List.mem_cons, not_or] at h
    rw [pieceChars_cons (Ne.symm h.1), ih h.2, List.modifyHead_cons]

/-- Slashes at the start have empty pieces before them, and no others. -/
theorem exists_pieceChars_eq_replicate (cs : List Char) :
    ∃ n, pieceChars cs = List.replicate n [] ++ pieceChars (cs.dropWhile (· = '/')) := by
  induction cs with
  | nil => exact ⟨0, rfl⟩
  | cons c cs ih =>
    by_cases hc : c = '/'
    · obtain ⟨n, hn⟩ := ih
      subst hc
      exact ⟨n + 1, by rw [pieceChars_slash, hn, List.dropWhile_cons_of_pos (by decide)]; rfl⟩
    · exact ⟨0, by rw [List.dropWhile_cons_of_neg (by simpa using hc)]; rfl⟩

/-- The characters of pieces are characters of the text, and no slashes. -/
theorem of_mem_pieceChars {cs piece : List Char} (h : piece ∈ pieceChars cs) {c : Char}
    (hc : c ∈ piece) : c ∈ cs ∧ c ≠ '/' := by
  induction cs generalizing piece with
  | nil =>
    obtain rfl := List.mem_singleton.mp h
    cases hc
  | cons d cs ih =>
    by_cases hd : d = '/'
    · subst hd
      rw [pieceChars_slash] at h
      rcases List.mem_cons.mp h with rfl | h
      · cases hc
      · exact ⟨List.mem_cons_of_mem _ (ih h hc).1, (ih h hc).2⟩
    · rw [pieceChars_cons hd] at h
      cases hcs : pieceChars cs with
      | nil => exact absurd hcs (pieceChars_ne_nil cs)
      | cons p ps =>
        rw [hcs, List.modifyHead_cons] at h
        rw [hcs] at ih
        rcases List.mem_cons.mp h with rfl | h
        · rcases List.mem_cons.mp hc with rfl | hc
          · exact ⟨List.mem_cons_self .., hd⟩
          · have hp := ih (List.mem_cons_self ..) hc
            exact ⟨List.mem_cons_of_mem _ hp.1, hp.2⟩
        · have hps := ih (List.mem_cons_of_mem _ h) hc
          exact ⟨List.mem_cons_of_mem _ hps.1, hps.2⟩

theorem pieces_ne_nil (path : String) : pieces path ≠ [] := fun h =>
  pieceChars_ne_nil _ (List.map_eq_nil_iff.mp h)

theorem toList_append_slash (path next : String) :
    (path ++ "/" ++ next).toList = path.toList ++ '/' :: next.toList := by
  rw [String.toList_append, String.toList_append, List.append_assoc]
  rfl

theorem pieces_append_slash (path next : String) :
    pieces (path ++ "/" ++ next) = pieces path ++ pieces next := by
  rw [pieces, toList_append_slash, pieceChars_append_slash, List.map_append]
  rfl

/-- A slash at the end has an empty piece behind it. -/
theorem pieces_slash (path : String) : pieces (path ++ "/") = pieces path ++ [""] := by
  rw [← String.append_empty (s := path ++ "/"), pieces_append_slash]
  rfl

/-- The characters of the pieces are characters of the path, and no slashes. -/
theorem of_mem_pieces {path piece : String} (h : piece ∈ pieces path) {c : Char}
    (hc : c ∈ piece.toList) : c ∈ path.toList ∧ c ≠ '/' := by
  obtain ⟨cs, hcs, rfl⟩ := List.mem_map.mp h
  rw [String.toList_ofList] at hc
  exact of_mem_pieceChars hcs hc

/-- A name is the one piece of itself. -/
theorem pieces_of_notMem {name : String} (h : '/' ∉ name.toList) : pieces name = [name] := by
  rw [pieces, pieceChars_of_notMem h, List.map_singleton, String.ofList_toList]

/-! ## Putting a name behind a path -/

theorem isAbsolute_append {path : String} (h : path ≠ "") (next : String) :
    isAbsolute (path ++ next) = isAbsolute path := by
  have hchars : path.toList ≠ [] := fun hnil => h (String.toList_eq_nil_iff.mp hnil)
  obtain ⟨c, cs, hpath⟩ := List.exists_cons_of_ne_nil hchars
  rw [isAbsolute, isAbsolute, String.toList_append, hpath]
  rfl

theorem isAbsolute_of_notMem {name : String} (h : '/' ∉ name.toList) :
    isAbsolute name = false := by
  rw [isAbsolute, beq_eq_false_iff_ne]
  exact fun hhead => h (List.mem_of_mem_head? hhead)

/-- **A name is put behind a path with one slash between them**, one that
the path already ends with if it does. -/
theorem exists_join {path : String} (hpath : path ≠ "") :
    ∃ stem, (path = stem ∨ path = stem ++ "/") ∧
      ∀ name, '/' ∉ name.toList → join path name = stem ++ "/" ++ name := by
  have hnonempty : path.isEmpty = false := Bool.eq_false_iff.mpr fun h =>
    hpath (String.isEmpty_iff.mp h)
  cases hslash : endsWithSlash path with
  | false =>
    refine ⟨path, Or.inl rfl, fun name hname => ?_⟩
    rw [join, isAbsolute_of_notMem hname, hnonempty, hslash]
    rfl
  | true =>
    rw [endsWithSlash, beq_iff_eq, List.getLast?_eq_some_iff] at hslash
    obtain ⟨cs, hcs⟩ := hslash
    have hstem : path = String.ofList cs ++ "/" := by
      rw [← String.toList_inj, hcs, String.toList_append, String.toList_ofList]
      rfl
    refine ⟨String.ofList cs, Or.inr hstem, fun name hname => ?_⟩
    have hslash' : endsWithSlash path = true := by
      rw [endsWithSlash, hcs, List.getLast?_append]
      rfl
    rw [join, isAbsolute_of_notMem hname, hnonempty, hslash', ← hstem]
    rfl

/-! ## Steps -/

/-- **The steps of a path**: its components, but for a dot at the start. -/
def steps (path : String) : List Component := (components path).filter (· ≠ .here)

/-- Whether a path starts with a dot. -/
def startsHere (path : String) : Bool := !isAbsolute path && (pieces path).head? == some "."

theorem innerComponent?_ne_here (piece : String) : innerComponent? piece ≠ some .here := by
  unfold innerComponent?
  split
  · exact nofun
  · split <;> exact nofun

/-- The steps behind the first one are never to stay. -/
theorem filter_filterMap_innerComponent? (ps : List String) :
    (ps.filterMap innerComponent?).filter (· ≠ .here) = ps.filterMap innerComponent? := by
  refine List.filter_eq_self.mpr fun step hstep => decide_eq_true ?_
  obtain ⟨piece, -, hpiece⟩ := List.mem_filterMap.mp hstep
  exact fun h => innerComponent?_ne_here piece (h ▸ hpiece)

/-- **Steps are read off the pieces.** -/
theorem steps_eq (path : String) :
    steps path = (if isAbsolute path then [.root] else [])
      ++ (pieces path).filterMap innerComponent? := by
  rw [steps, components]
  cases isAbsolute path with
  | true =>
    rw [if_pos rfl, if_pos rfl, List.filter_cons_of_pos (by decide),
      filter_filterMap_innerComponent?]
    rfl
  | false =>
    rw [if_neg Bool.false_ne_true, if_neg Bool.false_ne_true, List.nil_append]
    cases pieces path with
    | nil => rfl
    | cons first rest =>
      dsimp only
      rw [List.filter_append, filter_filterMap_innerComponent?]
      by_cases hfirst : first = "."
      · subst hfirst
        rfl
      · have hone := filter_filterMap_innerComponent? [first]
        rw [if_neg hfirst]
        rw [List.filterMap_cons] at hone ⊢
        cases hstep : innerComponent? first with
        | none => rfl
        | some step =>
          rw [hstep] at hone
          exact congrArg (· ++ _) hone

/-- **What is compared of a path** is whether it starts with a dot, and its
steps. -/
theorem components_eq (path : String) :
    components path = (if startsHere path then [.here] else []) ++ steps path := by
  rw [steps_eq, components, startsHere]
  cases isAbsolute path with
  | true => rfl
  | false =>
    rw [if_neg Bool.false_ne_true, if_neg Bool.false_ne_true]
    cases hpieces : pieces path with
    | nil => exact absurd hpieces (pieces_ne_nil path)
    | cons first rest =>
      dsimp only
      by_cases hfirst : first = "."
      · subst hfirst
        rfl
      · have hstart : (!false && (first :: rest).head? == some ".") = false := by
          rw [List.head?_cons]
          exact beq_eq_false_iff_ne.mpr fun h => hfirst (Option.some.inj h)
        rw [if_neg hfirst, hstart, List.filterMap_cons]
        cases innerComponent? first <;> rfl

section Join

variable {path name : String}

/-- What is read off the pieces of a path is read off those of its stem, with
or without the slash at the end. -/
theorem of_stem {stem : String} (h : path = stem ∨ path = stem ++ "/") :
    (pieces path).head? = (pieces stem).head? ∧
      (pieces path).filterMap innerComponent? = (pieces stem).filterMap innerComponent? := by
  rcases h with rfl | rfl
  · exact ⟨rfl, rfl⟩
  · rw [pieces_slash, List.filterMap_append, List.head?_append_of_ne_nil _ (pieces_ne_nil stem)]
    exact ⟨rfl, List.append_nil _⟩

theorem isAbsolute_join (hpath : path ≠ "") (hname : '/' ∉ name.toList) :
    isAbsolute (join path name) = isAbsolute path := by
  obtain ⟨stem, hstem, hjoin⟩ := exists_join hpath
  rw [hjoin name hname]
  rcases hstem with rfl | rfl
  · rw [String.append_assoc, isAbsolute_append hpath]
  · exact isAbsolute_append hpath name

/-- **A name behind a path is one step more.** -/
theorem steps_join (hpath : path ≠ "") (hname : '/' ∉ name.toList) :
    steps (join path name) = steps path ++ (innerComponent? name).toList := by
  obtain ⟨stem, hstem, hjoin⟩ := exists_join hpath
  rw [steps_eq, steps_eq, isAbsolute_join hpath hname, hjoin name hname, pieces_append_slash,
    pieces_of_notMem hname, List.filterMap_append, (of_stem hstem).2, List.append_assoc,
    List.filterMap_cons]
  cases innerComponent? name <;> rfl

/-- A name behind a path does not change how it starts. -/
theorem startsHere_join (hpath : path ≠ "") (hname : '/' ∉ name.toList) :
    startsHere (join path name) = startsHere path := by
  obtain ⟨stem, hstem, hjoin⟩ := exists_join hpath
  rw [startsHere, startsHere, isAbsolute_join hpath hname, hjoin name hname, pieces_append_slash,
    List.head?_append_of_ne_nil _ (pieces_ne_nil stem), (of_stem hstem).1]

/-- A path with a name behind it does not end with a slash. -/
theorem endsWithSlash_join (hpath : path ≠ "") (hname : '/' ∉ name.toList) (hne : name ≠ "") :
    endsWithSlash (join path name) = false := by
  obtain ⟨stem, -, hjoin⟩ := exists_join hpath
  have hchars : name.toList ≠ [] := fun hnil => hne (String.toList_eq_nil_iff.mp hnil)
  rw [hjoin name hname, endsWithSlash, toList_append_slash, List.append_cons,
    List.getLast?_append_of_ne_nil _ hchars, beq_eq_false_iff_ne]
  exact fun hlast => hname (List.mem_of_getLast? hlast)

/-- A path with a name behind it is not empty. -/
theorem join_ne_empty (hpath : path ≠ "") (hname : '/' ∉ name.toList) : join path name ≠ "" := by
  obtain ⟨stem, -, hjoin⟩ := exists_join hpath
  rw [hjoin name hname]
  intro hempty
  have hchars := congrArg String.toList hempty
  rw [toList_append_slash] at hchars
  exact List.cons_ne_nil _ _ (List.append_eq_nil_iff.mp hchars).2

end Join

/-! ## The order of paths -/

namespace Component

theorem lt_iff {a b : Component} :
    a.lt b = true ↔ a.rank < b.rank ∨ ∃ m n, a = .down m ∧ b = .down n ∧ m < n := by
  cases a <;> cases b <;> simp [lt, rank]

theorem lt_trans {a b c : Component} (hab : a.lt b = true) (hbc : b.lt c = true) :
    a.lt c = true := by
  rw [lt_iff] at hab hbc ⊢
  rcases hab with hab | ⟨m, n, rfl, rfl, hmn⟩
  · rcases hbc with hbc | ⟨n, o, rfl, rfl, -⟩
    · exact Or.inl (Nat.lt_trans hab hbc)
    · exact Or.inl hab
  · rcases hbc with hbc | ⟨n', o, hn, rfl, hno⟩
    · exact Or.inl hbc
    · obtain rfl := Component.down.inj hn
      exact Or.inr ⟨m, o, rfl, rfl, String.lt_trans hmn hno⟩

theorem lt_trichotomy (a b : Component) : a.lt b = true ∨ a = b ∨ b.lt a = true := by
  rw [lt_iff, lt_iff]
  rcases Nat.lt_trichotomy a.rank b.rank with h | h | h
  · exact Or.inl (Or.inl h)
  · cases a with
    | down m =>
      cases b with
      | down n =>
        rcases Std.lt_trichotomy m n with hmn | rfl | hnm
        · exact Or.inl (Or.inr ⟨m, n, rfl, rfl, hmn⟩)
        · exact Or.inr (Or.inl rfl)
        · exact Or.inr (Or.inr (Or.inr ⟨n, m, rfl, rfl, hnm⟩))
      | _ => cases h
    | _ => cases b <;> first | exact Or.inr (Or.inl rfl) | cases h
  · exact Or.inr (Or.inr (Or.inl h))

end Component

theorem componentsLe_cons {a b : Component} {as bs : List Component} :
    componentsLe (a :: as) (b :: bs) = true
      ↔ a.lt b = true ∨ a = b ∧ componentsLe as bs = true := by
  rw [componentsLe, Bool.or_eq_true, Bool.and_eq_true, beq_iff_eq]

theorem componentsLe_trans {as bs cs : List Component} (hab : componentsLe as bs = true)
    (hbc : componentsLe bs cs = true) : componentsLe as cs = true := by
  induction as generalizing bs cs with
  | nil => rfl
  | cons a as ih =>
    cases bs with
    | nil => cases hab
    | cons b bs =>
      cases cs with
      | nil => cases hbc
      | cons c cs =>
        rw [componentsLe_cons] at hab hbc ⊢
        rcases hab with hab | ⟨rfl, hab⟩
        · rcases hbc with hbc | ⟨rfl, -⟩
          · exact Or.inl (Component.lt_trans hab hbc)
          · exact Or.inl hab
        · exact hbc.imp_right fun ⟨hac, hbc⟩ => ⟨hac, ih hab hbc⟩

theorem componentsLe_total (as bs : List Component) :
    componentsLe as bs = true ∨ componentsLe bs as = true := by
  induction as generalizing bs with
  | nil => exact Or.inl rfl
  | cons a as ih =>
    cases bs with
    | nil => exact Or.inr rfl
    | cons b bs =>
      rw [componentsLe_cons, componentsLe_cons]
      rcases Component.lt_trichotomy a b with h | rfl | h
      · exact Or.inl (Or.inl h)
      · exact (ih bs).imp (fun hle => Or.inr ⟨rfl, hle⟩) fun hle => Or.inr ⟨rfl, hle⟩
      · exact Or.inr (Or.inl h)

/-- **The order of paths is transitive.** -/
theorem le_trans (p q r : String) (hpq : le p q = true) (hqr : le q r = true) : le p r = true :=
  componentsLe_trans hpq hqr

/-- **Of two paths one comes before the other.** -/
theorem le_total (p q : String) : (le p q || le q p) = true := by
  rw [Bool.or_eq_true]
  exact componentsLe_total _ _

end FontCatalog.Path
