import FontCatalog.LocalizedName
import FontCatalog.Proofs.RelatedLists

/-!
# The best match for a language

A query asks for a language and takes, of several names, the one that suits it
best. `LocalizedName.BestMatch` says which one that is without searching for
it: the first name in the language, or where there is none, the first in the
fallback language, or else the first of all. `LocalizedName.selected?` finds
it (`LocalizedName.selected?_eq_some_iff`).

Which language a name is in does not depend on how its tag is written. Tags
may differ in the case of ASCII letters, and in nothing else: a character
stands for itself, or a letter for its partner of the other case
(`Text.CaseVariant`). Folding is the way to find this out, and
`Text.sameIgnoringCase_iff_sameButCase` says that it finds out just this. So
names and languages that differ in case only have the same best match
(`LocalizedName.select?_eq_of_sameButCase`).
-/

namespace FontCatalog

/-! ## Case -/

namespace Text

/-- **The same character, up to the case of an ASCII letter**: the letters
from `A` to `Z` are 65 to 90, and those from `a` to `z` are 97 to 122. -/
inductive CaseVariant : Char → Char → Prop
  /-- A character stands for itself. -/
  | same (c : Char) : CaseVariant c c
  /-- A capital letter stands for its small letter. -/
  | capital {c d : Char} (h : 65 ≤ c.toNat ∧ c.toNat ≤ 90) (hd : d.toNat = c.toNat + 32) :
    CaseVariant c d
  /-- A small letter stands for its capital letter. -/
  | small {c d : Char} (h : 97 ≤ c.toNat ∧ c.toNat ≤ 122) (hd : c.toNat = d.toNat + 32) :
    CaseVariant c d

/-- **Texts that differ in the case of ASCII letters only**, character by
character. -/
def SameButCase (s t : String) : Prop := List.Forall₂ CaseVariant s.toList t.toList

theorem toNat_lowerAscii (c : Char) : (lowerAscii c).toNat
    = if 65 ≤ c.toNat ∧ c.toNat ≤ 90 then c.toNat + 32 else c.toNat := by
  have hcapital : ('A' ≤ c ∧ c ≤ 'Z') ↔ 65 ≤ c.toNat ∧ c.toNat ≤ 90 := by
    rw [Char.le_def, Char.le_def, UInt32.le_iff_toNat_le, UInt32.le_iff_toNat_le]
    rfl
  rw [lowerAscii]
  simp only [hcapital]
  split
  · next h =>
    have hvalid : (c.toNat + 32).isValidChar := Or.inl (by omega)
    rw [Char.ofNat, dif_pos hvalid]
    rfl
  · rfl

/-- Folding makes equal what stands for each other, and nothing else. -/
theorem lowerAscii_eq_iff {c d : Char} : lowerAscii c = lowerAscii d ↔ CaseVariant c d := by
  rw [← Char.toNat_inj, toNat_lowerAscii, toNat_lowerAscii]
  constructor
  · intro h
    by_cases hsame : c = d
    · exact hsame ▸ .same c
    · have hne : c.toNat ≠ d.toNat := fun heq => hsame (Char.toNat_inj.mp heq)
      split at h <;> split at h
      · omega
      · next hc _ => exact .capital hc h.symm
      · next hd => exact .small (by omega) h
      · exact absurd h hne
  · intro h
    cases h with
    | same => rfl
    | capital hc hd => rw [if_pos hc, if_neg (by omega), hd]
    | small hc hd => rw [if_neg (by omega), if_pos (by omega), hd]

/-- **Texts are compared by what they are up to case.** -/
theorem sameIgnoringCase_iff_sameButCase {s t : String} :
    sameIgnoringCase s t = true ↔ SameButCase s t := by
  rw [sameIgnoringCase_iff, foldCase, foldCase, map_eq_map_iff_forall₂, SameButCase]
  simp only [lowerAscii_eq_iff]

end Text

/-! ## Best matches -/

namespace LocalizedName

/-- **A name in a language**: it says so, in whatever case. -/
def InLanguage (tag : String) (name : LocalizedName) : Prop :=
  ∃ language, name.language = some language ∧ Text.SameButCase language tag

/-- **The first name in a language.** -/
def FirstIn (tag : String) (names : List LocalizedName) (name : LocalizedName) : Prop :=
  InLanguage tag name ∧ ∃ before after, names = before ++ name :: after ∧
    ∀ other ∈ before, ¬InLanguage tag other

/-- **The best match for a language**: the first name in that language; else
the first one in English of the United States; else the first one. -/
inductive BestMatch (locale : String) (names : List LocalizedName) (name : LocalizedName) : Prop
  /-- There are names in the language. -/
  | inLocale (h : FirstIn locale names name)
  /-- There are none, but there are names in the fallback language. -/
  | inFallback (hlocale : ∀ other ∈ names, ¬InLanguage locale other)
    (h : FirstIn "en-US" names name)
  /-- There are no names in either language. -/
  | first (hlocale : ∀ other ∈ names, ¬InLanguage locale other)
    (hfallback : ∀ other ∈ names, ¬InLanguage "en-US" other) (h : names.head? = some name)

variable {locale tag : String} {names : List LocalizedName} {name : LocalizedName}

theorem isIn_iff : isIn tag name = true ↔ InLanguage tag name := by
  rw [isIn, Option.any_eq_true, InLanguage]
  simp only [Text.sameIgnoringCase_iff_sameButCase]

theorem find?_isIn_eq_some_iff : names.find? (isIn tag) = some name ↔ FirstIn tag names name := by
  rw [List.find?_eq_some_iff_append, FirstIn]
  simp only [isIn_iff, Bool.not_eq_true', ← Bool.not_eq_true]

theorem find?_isIn_eq_none_iff :
    names.find? (isIn tag) = none ↔ ∀ other ∈ names, ¬InLanguage tag other := by
  rw [List.find?_eq_none]
  simp only [isIn_iff]

/-- **What is selected is the best match.** -/
theorem selected?_eq_some_iff : selected? names locale = some name ↔ BestMatch locale names name := by
  rw [selected?, Option.or_eq_some_iff, Option.or_eq_some_iff, find?_isIn_eq_some_iff,
    find?_isIn_eq_some_iff, find?_isIn_eq_none_iff, find?_isIn_eq_none_iff]
  constructor
  · rintro (h | ⟨hlocale, h | ⟨hfallback, h⟩⟩)
    · exact .inLocale h
    · exact .inFallback hlocale h
    · exact .first hlocale hfallback h
  · intro h
    cases h with
    | inLocale h => exact Or.inl h
    | inFallback hlocale h => exact Or.inr ⟨hlocale, Or.inl h⟩
    | first hlocale hfallback h => exact Or.inr ⟨hlocale, Or.inr ⟨hfallback, h⟩⟩

/-- The text of a selection is that of the best match. -/
theorem select?_eq_some_iff {value : String} :
    select? names locale = some value ↔ ∃ name, BestMatch locale names name ∧ name.value = value := by
  rw [select?, Option.map_eq_some_iff]
  simp only [selected?_eq_some_iff]

/-- There is nothing to select exactly if there are no names. -/
theorem select?_eq_none_iff : select? names locale = none ↔ names = [] := by
  rw [select?, Option.map_eq_none_iff, ← Option.not_isSome_iff_eq_none, selected?_isSome_iff,
    not_not]

/-! ### Changes of case -/

/-- **Names that differ in the case of their tags only**: they have the same
text, and both say the same language up to case or both say none. -/
structure SameButCase (a b : LocalizedName) : Prop where
  /-- The text is the same. -/
  value : a.value = b.value
  /-- The language is the same. -/
  language : Option.Rel Text.SameButCase a.language b.language

variable {locale' : String} {names' : List LocalizedName} {name' : LocalizedName}

/-- They are in the same languages, however these are written. -/
theorem SameButCase.isIn_eq (h : name.SameButCase name') {tag' : String}
    (htag : Text.SameButCase tag tag') : isIn tag name = isIn tag' name' := by
  obtain ⟨language, value⟩ := name
  obtain ⟨language', value'⟩ := name'
  cases h.language with
  | none => rfl
  | some hsame =>
    rw [← Text.sameIgnoringCase_iff_sameButCase, Text.sameIgnoringCase_iff] at hsame htag
    rw [isIn, isIn, Option.any_some, Option.any_some, Text.sameIgnoringCase,
      Text.sameIgnoringCase, hsame, htag]

/-- So the first of some names is the first of the others. -/
theorem rel_find?_isIn (hnames : List.Forall₂ SameButCase names names') {tag' : String}
    (htag : Text.SameButCase tag tag') :
    Option.Rel SameButCase (names.find? (isIn tag)) (names'.find? (isIn tag')) := by
  induction hnames with
  | nil => exact .none
  | @cons a b _ _ hab _ ih =>
    rw [List.find?_cons, List.find?_cons, hab.isIn_eq htag]
    cases isIn tag' b with
    | true => exact .some hab
    | false => exact ih

/-- Where one of two choices is made, either way round, the results belong
together as the choices do. -/
theorem rel_or {a b a' b' : Option LocalizedName} (ha : Option.Rel SameButCase a a')
    (hb : Option.Rel SameButCase b b') : Option.Rel SameButCase (a.or b) (a'.or b') := by
  cases ha with
  | none => exact hb
  | some h => exact .some h

/-- **Changes of case change no selection.** -/
theorem select?_eq_of_sameButCase (hnames : List.Forall₂ SameButCase names names')
    (hlocale : Text.SameButCase locale locale') : select? names locale = select? names' locale' := by
  have hfallback : Text.SameButCase Language.fallback Language.fallback :=
    List.forall₂_same.mpr fun c _ => .same c
  have hhead : Option.Rel SameButCase names.head? names'.head? := by
    cases hnames with
    | nil => exact .none
    | cons hab _ => exact .some hab
  have hselected : Option.Rel SameButCase (selected? names locale) (selected? names' locale') :=
    rel_or (rel_find?_isIn hnames hlocale) (rel_or (rel_find?_isIn hnames hfallback) hhead)
  rw [select?, select?]
  generalize selected? names locale = best at hselected ⊢
  generalize selected? names' locale' = best' at hselected ⊢
  cases hselected with
  | none => rfl
  | some h => exact congrArg some h.value

end LocalizedName

end FontCatalog
