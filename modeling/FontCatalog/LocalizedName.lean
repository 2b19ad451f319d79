import FontCatalog.Language
import FontCatalog.Text.AsciiCase

/-!
# Localized names

A font gives each of its names in several languages, in an order of its
own. Which one is shown is a choice with two fallbacks: the name in the
wanted language, else the one in the fallback language, else the first.
`LocalizedName.selected?` makes that choice, comparing tags without regard
to case.

A face read on its own makes a different choice, `LocalizedName.english?`:
it prefers English, spelled exactly, and then a name that says no language
at all, before it takes the first.
-/

namespace FontCatalog

/-- **A name and the language it is in**, as a tag such as `de-DE`, if the
font says. -/
structure LocalizedName where
  /-- The tag of the language. -/
  language : Option String
  /-- The name itself. -/
  value : String
deriving DecidableEq, Inhabited

namespace LocalizedName

/-- Whether a name is in the language of `tag`, in whatever case. -/
def isIn (tag : String) (name : LocalizedName) : Bool :=
  name.language.any (Text.sameIgnoringCase · tag)

/-- **The name that suits `locale` best**: the first in that language, else
the first in the fallback language, else the first of all. -/
def selected? (names : List LocalizedName) (locale : String) : Option LocalizedName :=
  (names.find? (isIn locale)).or ((names.find? (isIn Language.fallback)).or names.head?)

/-- The text of the name that suits `locale` best. -/
def select? (names : List LocalizedName) (locale : String) : Option String :=
  (selected? names locale).map value

/-- **The most English name**: the first tagged `en-US`, else the first
tagged `en`, else the first without a language, else the first of all. -/
def english? (names : List LocalizedName) : Option LocalizedName :=
  (names.find? (·.language == some Language.fallback)).or
    ((names.find? (·.language == some "en")).or
      ((names.find? (·.language == none)).or names.head?))

@[simp] theorem selected?_nil (locale : String) : selected? [] locale = none := rfl

/-- There is a best name exactly when there is a name. -/
theorem selected?_isSome_iff (names : List LocalizedName) (locale : String) :
    (selected? names locale).isSome = true ↔ names ≠ [] := by
  cases names with
  | nil => simp
  | cons name names =>
    simp only [selected?, Option.isSome_or, List.head?_cons, Option.isSome_some, Bool.or_true,
      ne_eq, reduceCtorEq, not_false_eq_true]

/-- The best name is one of the names. -/
theorem mem_of_selected? {names : List LocalizedName} {locale : String} {name : LocalizedName}
    (h : selected? names locale = some name) : name ∈ names := by
  rcases Option.or_eq_some_iff.mp h with h | ⟨-, h⟩
  · exact List.mem_of_find?_eq_some h
  · rcases Option.or_eq_some_iff.mp h with h | ⟨-, h⟩
    · exact List.mem_of_find?_eq_some h
    · exact List.mem_of_mem_head? h

end LocalizedName

end FontCatalog
