import Mathlib.Data.List.Forall2

/-!
# Lists related element by element

What becomes of a list of fonts, files or entries is mostly said element by
element: this file was read as that font, this font became that member.
Such a statement is `List.Forall₂`, and this module has the few steps with
it that come up again and again: where it comes from
(`mapM_eq_ok_iff_forall₂`, `exists_forall₂_of_forall_mem`,
`map_eq_map_iff_forall₂`), where there is none for want of one element
(`mapM_eq_error_iff`), how two of them
are chained (`forall₂_trans`, `forall₂_zip_of_forall₂`), how one is split at
something that exists for each pair (`exists_forall₂_of_forall₂`), and what
it says of one element (`exists_left_of_mem_right`,
`exists_right_of_mem_left`, `exists_getElem?_of_forall₂`) and of the
elements on either side of it (`exists_split_of_forall₂`). Where elements
have keys of their own, an element is found by its key
(`find?_key_of_mem`).
-/

namespace FontCatalog

variable {α β γ : Type}

/-- A list that a function accepts element by element. -/
theorem mapM_eq_ok_iff_forall₂ {ε : Type} {f : α → Except ε β} {xs : List α} {ys : List β} :
    xs.mapM f = .ok ys ↔ List.Forall₂ (fun x y => f x = .ok y) xs ys := by
  induction xs generalizing ys with
  | nil =>
    rw [List.mapM_nil, List.forall₂_nil_left_iff]
    exact ⟨fun h => (Except.ok.inj h).symm, fun h => by rw [h]; rfl⟩
  | cons x xs ih =>
    rw [List.mapM_cons, List.forall₂_cons_left_iff]
    constructor
    · intro h
      cases hx : f x with
      | error e => rw [hx] at h; cases h
      | ok y =>
        rw [hx] at h
        cases hxs : xs.mapM f with
        | error e => rw [hxs] at h; cases h
        | ok zs =>
          rw [hxs] at h
          exact ⟨y, zs, rfl, ih.mp hxs, (Except.ok.inj h).symm⟩
    · rintro ⟨y, zs, hx, hzs, rfl⟩
      rw [hx, ih.mpr hzs]
      rfl

/-- **The first error of a list**: that of the first element that a function
does not accept. -/
def FirstError {ε : Type} (f : α → Except ε β) (xs : List α) (e : ε) : Prop :=
  ∃ before x after, xs = before ++ x :: after ∧ (∀ y ∈ before, ∃ z, f y = .ok z) ∧ f x = .error e

/-- **The first element that a function does not accept** is the one whose
error is given. -/
theorem mapM_eq_error_of_first {ε : Type} {f : α → Except ε β} {before after : List α} {x : α}
    {e : ε} (hbefore : ∀ y ∈ before, ∃ z, f y = .ok z) (hx : f x = .error e) :
    (before ++ x :: after).mapM f = .error e := by
  induction before with
  | nil =>
    rw [List.nil_append, List.mapM_cons, hx]
    rfl
  | cons y before ih =>
    obtain ⟨z, hz⟩ := hbefore y (List.mem_cons_self ..)
    rw [List.cons_append, List.mapM_cons, hz,
      ih fun other hother => hbefore other (List.mem_cons_of_mem _ hother)]
    rfl

/-- Functions that agree on a list are the same to it. -/
theorem mapM_congr_of_mem {ε : Type} {f g : α → Except ε β} {xs : List α}
    (h : ∀ x ∈ xs, f x = g x) : xs.mapM f = xs.mapM g := by
  induction xs with
  | nil => rfl
  | cons x xs ih =>
    obtain ⟨hx, hxs⟩ := List.forall_mem_cons.mp h
    rw [List.mapM_cons, List.mapM_cons, hx, ih hxs]

/-- A property holds of a whole list, or there is a first element that does
not have it. -/
theorem forall_or_exists_first (P : α → Prop) (xs : List α) :
    (∀ x ∈ xs, P x) ∨
      ∃ before x after, xs = before ++ x :: after ∧ (∀ y ∈ before, P y) ∧ ¬P x := by
  induction xs with
  | nil => exact Or.inl fun _ hx => absurd hx List.not_mem_nil
  | cons x xs ih =>
    by_cases hx : P x
    · rcases ih with hall | ⟨before, y, after, rfl, hbefore, hy⟩
      · exact Or.inl (List.forall_mem_cons.mpr ⟨hx, hall⟩)
      · exact Or.inr ⟨x :: before, y, after, rfl, List.forall_mem_cons.mpr ⟨hx, hbefore⟩, hy⟩
    · exact Or.inr ⟨[], x, xs, rfl, fun _ hy => absurd hy List.not_mem_nil, hx⟩

/-- **Where keys tell elements apart**, an element is the one that is found
by its key. -/
theorem find?_key_of_mem {κ : Type} [BEq κ] [LawfulBEq κ] {key : α → κ} {xs : List α}
    (hnodup : (xs.map key).Nodup) {x : α} (hx : x ∈ xs) :
    xs.find? (key · == key x) = some x := by
  induction xs with
  | nil => cases hx
  | cons y xs ih =>
    rw [List.map_cons, List.nodup_cons] at hnodup
    rw [List.find?_cons]
    rcases List.mem_cons.mp hx with rfl | hx
    · rw [beq_self_eq_true]
    · have hne : (key y == key x) = false := by
        refine beq_eq_false_iff_ne.mpr fun heq => hnodup.1 ?_
        rw [heq]
        exact List.mem_map_of_mem hx
      rw [hne]
      exact ih hnodup.2 hx

/-- There is one result for each element. -/
theorem length_of_mapM_eq_some {f : α → Option β} :
    ∀ {xs : List α} {ys : List β}, xs.mapM f = some ys → ys.length = xs.length
  | [], ys, h => by
    rw [List.mapM_nil] at h
    obtain rfl := Option.some.inj h
    rfl
  | x :: xs, ys, h => by
    rw [List.mapM_cons] at h
    obtain ⟨y, -, h⟩ := Option.bind_eq_some_iff.mp h
    obtain ⟨zs, hzs, h⟩ := Option.bind_eq_some_iff.mp h
    rw [← Option.some.inj h, List.length_cons, List.length_cons, length_of_mapM_eq_some hzs]

variable {R : α → β → Prop} {S : β → γ → Prop} {xs : List α} {ys : List β} {zs : List γ}

/-- Where there is something for each element, there is a list for the
list. -/
theorem exists_forall₂_of_forall_mem (h : ∀ x ∈ xs, ∃ y, R x y) : ∃ ys, List.Forall₂ R xs ys := by
  induction xs with
  | nil => exact ⟨[], List.Forall₂.nil⟩
  | cons x xs ih =>
    obtain ⟨y, hxy⟩ := h x (List.mem_cons_self ..)
    obtain ⟨ys, hys⟩ := ih fun z hz => h z (List.mem_cons_of_mem _ hz)
    exact ⟨y :: ys, List.Forall₂.cons hxy hys⟩

/-- **A list fails exactly with its first error.** -/
theorem mapM_eq_error_iff {ε : Type} {f : α → Except ε β} {e : ε} :
    xs.mapM f = .error e ↔ FirstError f xs e := by
  constructor
  · intro h
    rcases forall_or_exists_first (fun x => ∃ y, f x = .ok y) xs with
      hall | ⟨before, x, after, rfl, hbefore, hx⟩
    · obtain ⟨ys, hys⟩ := exists_forall₂_of_forall_mem hall
      rw [mapM_eq_ok_iff_forall₂.mpr hys] at h
      cases h
    · cases hfx : f x with
      | ok y => exact absurd ⟨y, hfx⟩ hx
      | error e' =>
        rw [mapM_eq_error_of_first hbefore hfx] at h
        obtain rfl := Except.error.inj h
        exact ⟨before, x, after, rfl, hbefore, hfx⟩
  · rintro ⟨before, x, after, rfl, hbefore, hx⟩
    exact mapM_eq_error_of_first hbefore hx

/-- In related lists every element on the right has its partner on the
left. -/
theorem exists_left_of_mem_right (h : List.Forall₂ R xs ys) {y : β} (hy : y ∈ ys) :
    ∃ x ∈ xs, R x y := by
  induction h with
  | nil => cases hy
  | @cons x z xs zs hxz _ ih =>
    rcases List.mem_cons.mp hy with rfl | hy
    · exact ⟨x, List.mem_cons_self .., hxz⟩
    · obtain ⟨x', hx', hR⟩ := ih hy
      exact ⟨x', List.mem_cons_of_mem _ hx', hR⟩

/-- And every element on the left has its partner on the right. -/
theorem exists_right_of_mem_left (h : List.Forall₂ R xs ys) {x : α} (hx : x ∈ xs) :
    ∃ y ∈ ys, R x y := exists_left_of_mem_right h.flip hx

/-- A list fails exactly if there is an element that fails. -/
theorem exists_mapM_eq_error_iff {ε : Type} {f : α → Except ε β} :
    (∃ e, xs.mapM f = .error e) ↔ ∃ x ∈ xs, ∃ e, f x = .error e := by
  constructor
  · rintro ⟨e, h⟩
    obtain ⟨before, x, after, rfl, -, hx⟩ := mapM_eq_error_iff.mp h
    exact ⟨x, List.mem_append_right _ (List.mem_cons_self ..), e, hx⟩
  · rintro ⟨x, hmem, e, hx⟩
    cases h : xs.mapM f with
    | error e' => exact ⟨e', rfl⟩
    | ok ys =>
      obtain ⟨y, -, hy⟩ := exists_right_of_mem_left (mapM_eq_ok_iff_forall₂.mp h) hmem
      rw [hx] at hy
      cases hy

/-- The element on the left at a place has its partner at the same place on
the right. -/
theorem exists_getElem?_of_forall₂ (h : List.Forall₂ R xs ys) {i : Nat} {x : α}
    (hx : xs[i]? = some x) : ∃ y, ys[i]? = some y ∧ R x y := by
  induction h generalizing i with
  | nil => cases hx
  | @cons x' y' xs ys hxy _ ih =>
    cases i with
    | zero =>
      obtain rfl : x' = x := by simpa using hx
      exact ⟨y', rfl, hxy⟩
    | succ i =>
      obtain ⟨y, hy, hR⟩ := ih (by simpa using hx)
      exact ⟨y, by simpa using hy, hR⟩

/-- Where a list is split at an element, the list on the right is split at its
partner. -/
theorem exists_split_of_forall₂ {before after : List α} {x : α}
    (h : List.Forall₂ R (before ++ x :: after) ys) :
    ∃ before' y after', ys = before' ++ y :: after' ∧ List.Forall₂ R before before' ∧ R x y ∧
      List.Forall₂ R after after' := by
  induction before generalizing ys with
  | nil =>
    obtain ⟨y, after', hxy, hafter, rfl⟩ := List.forall₂_cons_left_iff.mp h
    exact ⟨[], y, after', rfl, List.Forall₂.nil, hxy, hafter⟩
  | cons z before ih =>
    obtain ⟨u, ys, hzu, hys, rfl⟩ := List.forall₂_cons_left_iff.mp h
    obtain ⟨before', y, after', rfl, hbefore, hxy, hafter⟩ := ih hys
    exact ⟨u :: before', y, after', rfl, List.Forall₂.cons hzu hbefore, hxy, hafter⟩

/-- Lists have the same image exactly if their elements have, one by one. -/
theorem map_eq_map_iff_forall₂ {f : α → γ} {g : β → γ} :
    xs.map f = ys.map g ↔ List.Forall₂ (fun x y => f x = g y) xs ys := by
  rw [← List.forall₂_map_right_iff (R := fun x z => f x = z), ← List.forall₂_map_left_iff,
    List.forall₂_eq_eq_eq]

/-- Two relations one behind the other. -/
theorem forall₂_trans (hR : List.Forall₂ R xs ys) (hS : List.Forall₂ S ys zs) :
    List.Forall₂ (fun x z => ∃ y, R x y ∧ S y z) xs zs := by
  induction hR generalizing zs with
  | nil =>
    cases hS
    exact List.Forall₂.nil
  | cons hxy _ ih =>
    cases hS with
    | cons hyz hS => exact List.Forall₂.cons ⟨_, hxy, hyz⟩ (ih hS)

/-- Two relations one behind the other, with the element between them
kept. -/
theorem forall₂_zip_of_forall₂ (hR : List.Forall₂ R xs ys) (hS : List.Forall₂ S ys zs) :
    List.Forall₂ (fun x (q : β × γ) => R x q.1 ∧ S q.1 q.2) xs (ys.zip zs) := by
  induction hR generalizing zs with
  | nil =>
    cases hS
    exact List.Forall₂.nil
  | cons hxy _ ih =>
    cases hS with
    | cons hyz hS => exact List.Forall₂.cons ⟨hxy, hyz⟩ (ih hS)

/-- Where there is something between each pair, there is a list between the
lists. -/
theorem exists_forall₂_of_forall₂ {T : α → γ → Prop} (hT : List.Forall₂ T xs zs)
    (h : ∀ x z, T x z → ∃ y, R x y ∧ S y z) :
    ∃ ys, List.Forall₂ R xs ys ∧ List.Forall₂ S ys zs := by
  induction hT with
  | nil => exact ⟨[], List.Forall₂.nil, List.Forall₂.nil⟩
  | @cons x z xs zs hxz _ ih =>
    obtain ⟨y, hxy, hyz⟩ := h x z hxz
    obtain ⟨ys, hxs, hzs⟩ := ih
    exact ⟨y :: ys, List.Forall₂.cons hxy hxs, List.Forall₂.cons hyz hzs⟩

/-- Related elements with the same image, also at their places, make
lists with the same image. -/
theorem flatMap_zipIdx_congr {f : α → Nat → List γ} {g : β → Nat → List γ}
    (h : List.Forall₂ (fun x y => ∀ i, f x i = g y i) xs ys) (start : Nat) :
    (xs.zipIdx start).flatMap (fun p => f p.1 p.2)
      = (ys.zipIdx start).flatMap fun p => g p.1 p.2 := by
  induction h generalizing start with
  | nil => rfl
  | cons hxy _ ih =>
    rw [List.zipIdx_cons, List.zipIdx_cons, List.flatMap_cons, List.flatMap_cons, hxy, ih]

end FontCatalog
