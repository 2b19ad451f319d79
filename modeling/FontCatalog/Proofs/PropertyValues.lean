import FontCatalog.FontSet.Basic
import FontCatalog.Proofs.BestMatches
import Mathlib.Data.List.Induction
import Mathlib.Data.List.Nodup

/-!
# The values of a property

A query for a property asks each entry of a set for its best match and lists
the answers, each once, where it first comes up. So there are two things to
know of the list: which values it has, and where they stand. It has the best
matches of the entries and nothing else, and they stand in the order of the
entries that are the first to have them (`FontSet.FirstShows`).

Both come from what one entry more does. It adds its best match at the end, if
that is not in the list, and otherwise nothing
(`FontSet.propertyValues_append_singleton`); so nothing that is there ever
moves. For the same reason the values of two sets together are those of the
one and then those of the other that are new.
-/

namespace FontCatalog

/-! ## First occurrences -/

section FirstOccurrences

variable {α : Type} [DecidableEq α]

/-- One element more is one occurrence more, if it was not there before. -/
theorem eraseDups_append_singleton (xs : List α) (x : α) :
    (xs ++ [x]).eraseDups = if x ∈ xs then xs.eraseDups else xs.eraseDups ++ [x] := by
  rw [List.eraseDups_append, List.removeAll, List.filter_singleton]
  split
  · next h => rw [List.elem_eq_true_of_mem h, Bool.not_true, cond_false, List.eraseDups_nil,
      List.append_nil]
  · next h =>
    have hnew : xs.elem x = false := by simpa using h
    rw [hnew, Bool.not_false, cond_true, List.eraseDups_cons, List.filter_nil, List.eraseDups_nil]

/-- Each element comes up once. -/
theorem nodup_eraseDups (xs : List α) : xs.eraseDups.Nodup := by
  induction xs using List.reverseRecOn with
  | nil => exact List.nodup_nil
  | append_singleton xs x ih =>
    rw [eraseDups_append_singleton]
    split
    · exact ih
    · next h =>
      refine List.nodup_append.mpr ⟨ih, List.nodup_singleton x, fun y hy z hz heq => h ?_⟩
      rw [← List.mem_singleton.mp hz, ← heq]
      exact List.mem_eraseDups.mp hy

/-- What is left out may be left out before or afterwards. -/
theorem eraseDups_filter (p : α → Bool) (xs : List α) :
    (xs.filter p).eraseDups = xs.eraseDups.filter p := by
  induction xs using List.reverseRecOn with
  | nil => rfl
  | append_singleton xs x ih =>
    rw [List.filter_append, List.filter_singleton, eraseDups_append_singleton]
    cases hx : p x with
    | false =>
      rw [cond_false, List.append_nil, ih]
      split
      · rfl
      · rw [List.filter_append, List.filter_singleton, hx, cond_false, List.append_nil]
    | true =>
      have hmem : x ∈ xs.filter p ↔ x ∈ xs := List.mem_filter.trans (and_iff_left hx)
      rw [cond_true, eraseDups_append_singleton, ih]
      simp only [hmem]
      split
      · rfl
      · rw [List.filter_append, List.filter_singleton, hx, cond_true]

/-- **The occurrences of two lists** are those of the first, and then those of
the second that are new. -/
theorem eraseDups_append_eq (xs ys : List α) :
    (xs ++ ys).eraseDups = xs.eraseDups ++ ys.eraseDups.filter (· ∉ xs.eraseDups) := by
  rw [List.eraseDups_append, List.removeAll, eraseDups_filter]
  refine congrArg _ (List.filter_congr fun y _ => ?_)
  rw [Bool.eq_iff_iff, Bool.not_eq_true', ← Bool.not_eq_true, List.elem_iff, decide_eq_true_iff,
    List.mem_eraseDups]

end FirstOccurrences

/-! ## Entries -/

/-- **What an entry shows of a property**: the text of the best match among its
names. -/
def FontEntry.Shows (entry : FontEntry) (property : FontProperty) (locale value : String) : Prop :=
  ∃ name, LocalizedName.BestMatch locale (entry.properties.get property) name ∧ name.value = value

namespace FontSet

variable {property : FontProperty} {locale value : String}

/-- **The number of the first entry that shows a value.** -/
def FirstShows (s : FontSet) (property : FontProperty) (locale value : String) (i : Nat) : Prop :=
  ∃ before entry after, s.entries = before ++ entry :: after ∧ before.length = i ∧
    entry.Shows property locale value ∧ ∀ other ∈ before, ¬other.Shows property locale value

/-- Entries behind the first one that shows a value do not count. -/
theorem FirstShows.append {entries : List FontEntry} {i : Nat}
    (h : FirstShows ⟨entries⟩ property locale value i) (more : List FontEntry) :
    FirstShows ⟨entries ++ more⟩ property locale value i := by
  obtain ⟨before, entry, after, rfl, hrest⟩ := h
  exact ⟨before, entry, after ++ more, List.append_assoc .., hrest⟩

theorem mem_propertyValues_iff {s : FontSet} :
    value ∈ s.propertyValues property locale
      ↔ ∃ entry ∈ s.entries, entry.Shows property locale value := by
  rw [propertyValues, List.mem_eraseDups, bestValues, List.mem_filterMap]
  simp only [LocalizedName.select?_eq_some_iff]
  rfl

/-- **The values of two sets together.** -/
theorem propertyValues_append (entries more : List FontEntry) (property : FontProperty)
    (locale : String) :
    (FontSet.mk (entries ++ more)).propertyValues property locale
      = (FontSet.mk entries).propertyValues property locale
        ++ ((FontSet.mk more).propertyValues property locale).filter
          (· ∉ (FontSet.mk entries).propertyValues property locale) := by
  rw [propertyValues, bestValues, List.filterMap_append, eraseDups_append_eq]
  rfl

/-- **What an entry more adds**: nothing, or what it shows, if that is not in the
list. -/
theorem propertyValues_append_singleton (entries : List FontEntry) (entry : FontEntry)
    (property : FontProperty) (locale : String) :
    (FontSet.mk (entries ++ [entry])).propertyValues property locale
        = (FontSet.mk entries).propertyValues property locale ∨
      ∃ value, entry.Shows property locale value ∧
        value ∉ (FontSet.mk entries).propertyValues property locale ∧
        (FontSet.mk (entries ++ [entry])).propertyValues property locale
          = (FontSet.mk entries).propertyValues property locale ++ [value] := by
  rw [propertyValues, propertyValues, bestValues, bestValues, List.filterMap_append,
    List.filterMap_cons, List.filterMap_nil]
  cases hbest : LocalizedName.select? (entry.properties.get property) locale with
  | none => exact Or.inl (congrArg List.eraseDups (List.append_nil _))
  | some value =>
    dsimp only
    rw [eraseDups_append_singleton]
    split
    · exact Or.inl rfl
    · next h =>
      exact Or.inr ⟨value, LocalizedName.select?_eq_some_iff.mp hbest,
        fun hmem => h (List.mem_eraseDups.mp hmem), rfl⟩

/-- A value that an entry adds is shown by that entry first. -/
theorem firstShows_append_singleton {entries : List FontEntry} {entry : FontEntry}
    (hshows : entry.Shows property locale value)
    (hnew : value ∉ (FontSet.mk entries).propertyValues property locale) :
    FirstShows ⟨entries ++ [entry]⟩ property locale value entries.length :=
  ⟨entries, entry, [], rfl, rfl, hshows, fun other hother hshows' =>
    hnew (mem_propertyValues_iff.mpr ⟨other, hother, hshows'⟩)⟩

/-- Each value in the list is shown by some entry first. -/
theorem exists_firstShows (entries : List FontEntry) :
    ∀ value ∈ (FontSet.mk entries).propertyValues property locale,
      ∃ i < entries.length, FirstShows ⟨entries⟩ property locale value i := by
  induction entries using List.reverseRecOn with
  | nil => exact fun _ h => absurd h List.not_mem_nil
  | append_singleton entries entry ih =>
    have hold : ∀ value ∈ (FontSet.mk entries).propertyValues property locale,
        ∃ i < (entries ++ [entry]).length,
          FirstShows ⟨entries ++ [entry]⟩ property locale value i := by
      intro value h
      obtain ⟨i, hi, hfirst⟩ := ih value h
      exact ⟨i, by rw [List.length_append]; omega, hfirst.append [entry]⟩
    rcases propertyValues_append_singleton entries entry property locale with
      heq | ⟨new, hshows, hnew, heq⟩
    · rw [heq]
      exact hold
    · rw [heq]
      intro value h
      rcases List.mem_append.mp h with h | h
      · exact hold value h
      · rw [List.mem_singleton.mp h]
        exact ⟨entries.length, by simp, firstShows_append_singleton hshows hnew⟩

/-- **Values stand in the order of the entries that show them first.** -/
theorem pairwise_propertyValues (entries : List FontEntry) (property : FontProperty)
    (locale : String) :
    ((FontSet.mk entries).propertyValues property locale).Pairwise fun v w =>
      ∃ i j, FirstShows ⟨entries⟩ property locale v i ∧ FirstShows ⟨entries⟩ property locale w j ∧
        i < j := by
  induction entries using List.reverseRecOn with
  | nil => exact .nil
  | append_singleton entries entry ih =>
    have hold : ((FontSet.mk entries).propertyValues property locale).Pairwise fun v w =>
        ∃ i j, FirstShows ⟨entries ++ [entry]⟩ property locale v i ∧
          FirstShows ⟨entries ++ [entry]⟩ property locale w j ∧ i < j :=
      ih.imp fun ⟨i, j, hv, hw, hlt⟩ => ⟨i, j, hv.append [entry], hw.append [entry], hlt⟩
    rcases propertyValues_append_singleton entries entry property locale with
      heq | ⟨new, hshows, hnew, heq⟩
    · rw [heq]
      exact hold
    · rw [heq]
      refine List.pairwise_append.mpr ⟨hold, List.pairwise_singleton .., fun v hv w hw => ?_⟩
      rw [List.mem_singleton.mp hw]
      -- what was there was shown by an entry before the last one
      obtain ⟨i, hi, hfirst⟩ := exists_firstShows entries v hv
      exact ⟨i, entries.length, hfirst.append [entry], firstShows_append_singleton hshows hnew, hi⟩

/-- **Changes of case change no value.** -/
theorem propertyValues_eq_of_sameButCase {s s' : FontSet} {property : FontProperty}
    {locale locale' : String} (hlocale : Text.SameButCase locale locale')
    (h : List.Forall₂ (fun entry entry' => List.Forall₂ LocalizedName.SameButCase
      (entry.properties.get property) (entry'.properties.get property)) s.entries s'.entries) :
    s.propertyValues property locale = s'.propertyValues property locale' := by
  obtain ⟨entries⟩ := s
  obtain ⟨entries'⟩ := s'
  refine congrArg List.eraseDups ?_
  rw [bestValues, bestValues]
  dsimp only at h ⊢
  induction h with
  | nil => rfl
  | cons hnames _ ih =>
    rw [List.filterMap_cons, List.filterMap_cons,
      LocalizedName.select?_eq_of_sameButCase hnames hlocale, ih]

/-- **The values of a property.** Each is in the list once. They are the best
matches of the entries for the locale, and they stand in the order of the first
entries to have them. With the entries of another set behind, the values of that
set that are new come behind. And no change of the case of the locale, or of the
language of any name, changes them. -/
theorem propertyValues_firstSeen (s t : FontSet) (property : FontProperty) (locale : String) :
    (s.propertyValues property locale).Nodup ∧
    (∀ value, value ∈ s.propertyValues property locale
      ↔ ∃ entry ∈ s.entries, ∃ name,
        LocalizedName.BestMatch locale (entry.properties.get property) name ∧
        name.value = value) ∧
    ((s.propertyValues property locale).Pairwise fun v w =>
      ∃ i j, s.FirstShows property locale v i ∧ s.FirstShows property locale w j ∧ i < j) ∧
    (FontSet.mk (s.entries ++ t.entries)).propertyValues property locale
      = s.propertyValues property locale
        ++ (t.propertyValues property locale).filter (· ∉ s.propertyValues property locale) ∧
    ∀ (s' : FontSet) (locale' : String), Text.SameButCase locale locale' →
      List.Forall₂ (fun entry entry' => List.Forall₂ LocalizedName.SameButCase
        (entry.properties.get property) (entry'.properties.get property)) s.entries s'.entries →
      s'.propertyValues property locale' = s.propertyValues property locale :=
  ⟨nodup_eraseDups _, fun _ => mem_propertyValues_iff,
    pairwise_propertyValues s.entries property locale,
    propertyValues_append s.entries t.entries property locale,
    fun _ _ hlocale h => (propertyValues_eq_of_sameButCase hlocale h).symm⟩

end FontSet

end FontCatalog
