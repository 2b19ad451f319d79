import FontCatalog.Synthetic.Font
import Mathlib.Data.List.Induction
import Mathlib.Data.List.Nodup

/-!
# What an order for a font amounts to

Settings are made one after the other, and of several settings of the same
thing the last one counts. `SyntheticSetting.lastGiven?` is that rule, said
of the list of settings alone, and every part of an order that has a
setting of its own obeys it: the units per em, the ascender, the descender
and the full name in each language.

All of them follow from one statement, `SyntheticFont.adjust_eq_lastGiven?_or`:
a part that one setting either replaces or leaves alone is, after any
number of settings, the last replacement or what it was before.

The heights of letters are left to a module of their own, since their
settings overlap.
-/

namespace FontCatalog

namespace SyntheticSetting

variable {α : Type}

/-- **The value given last**, by the settings that give one. -/
def lastGiven? (value? : SyntheticSetting → Option α) (settings : List SyntheticSetting) :
    Option α :=
  settings.reverse.findSome? value?

/-- The units per em that a setting gives. -/
def unitsPerEm? : SyntheticSetting → Option UInt16
  | .unitsPerEm n => some n
  | _ => none

/-- The ascender that a setting gives. -/
def ascender? : SyntheticSetting → Option Int16
  | .ascender n => some n
  | _ => none

/-- The descender that a setting gives. -/
def descender? : SyntheticSetting → Option Int16
  | .descender n => some n
  | _ => none

/-- The full name that a setting gives in a language. -/
def fullName? (language : UInt16) : SyntheticSetting → Option String
  | .fullName l name => if l = language then some name else none
  | _ => none

/-- The last setting counts first. -/
theorem lastGiven?_append_singleton (value? : SyntheticSetting → Option α)
    (settings : List SyntheticSetting) (setting : SyntheticSetting) :
    lastGiven? value? (settings ++ [setting])
      = (value? setting).or (lastGiven? value? settings) := by
  rw [lastGiven?, List.reverse_append, List.reverse_singleton, List.singleton_append,
    List.findSome?_cons]
  cases value? setting with
  | none => rfl
  | some a => rfl

/-- A value is given exactly when some setting gives one. -/
theorem isSome_lastGiven?_iff (value? : SyntheticSetting → Option α)
    (settings : List SyntheticSetting) :
    (lastGiven? value? settings).isSome = true
      ↔ ∃ setting ∈ settings, (value? setting).isSome = true := by
  rw [lastGiven?, List.findSome?_isSome_iff]
  refine exists_congr fun setting => and_congr_left fun _ => List.mem_reverse

/-- The setting that gives a full name. -/
theorem fullName?_eq_some_iff {language : UInt16} {setting : SyntheticSetting} {name : String} :
    fullName? language setting = some name ↔ setting = .fullName language name := by
  cases setting with
  | fullName l n =>
    rw [fullName?, SyntheticSetting.fullName.injEq]
    split
    · next h => rw [Option.some.injEq, and_iff_right h]
    · next h => exact ⟨nofun, fun h' => absurd h'.1 h⟩
  | _ => exact ⟨nofun, nofun⟩

/-- A full name is given in a language exactly when some setting gives
one. -/
theorem isSome_lastGiven?_fullName?_iff (language : UInt16) (settings : List SyntheticSetting) :
    (lastGiven? (fullName? language) settings).isSome = true
      ↔ ∃ name, .fullName language name ∈ settings := by
  rw [isSome_lastGiven?_iff]
  constructor
  · rintro ⟨setting, hsetting, hgiven⟩
    obtain ⟨name, hname⟩ := Option.isSome_iff_exists.mp hgiven
    exact ⟨name, fullName?_eq_some_iff.mp hname ▸ hsetting⟩
  · rintro ⟨name, hname⟩
    exact ⟨_, hname, by rw [fullName?_eq_some_iff.mpr rfl]; rfl⟩

end SyntheticSetting

namespace SyntheticFont

open SyntheticSetting

/-- Settings before one setting, and then that one. -/
theorem adjust_append_singleton (f : SyntheticFont) (settings : List SyntheticSetting)
    (setting : SyntheticSetting) :
    f.adjust (settings ++ [setting]) = (f.adjust settings).set setting := by
  rw [adjust, List.foldl_append]
  rfl

/-- **The last replacement counts.** A part of an order that every setting
either replaces or leaves alone is the one given last, or else the one
there was. -/
theorem adjust_eq_lastGiven?_or {α : Type} (part : SyntheticFont → Option α)
    (value? : SyntheticSetting → Option α)
    (hset : ∀ f setting, part (set f setting) = (value? setting).or (part f))
    (f : SyntheticFont) (settings : List SyntheticSetting) :
    part (f.adjust settings) = (lastGiven? value? settings).or (part f) := by
  induction settings using List.reverseRecOn with
  | nil => rfl
  | append_singleton settings setting ih =>
    rw [adjust_append_singleton, hset, ih, lastGiven?_append_singleton, Option.or_assoc]

/-- The same for a part that is always there. -/
theorem adjust_eq_lastGiven?_getD {α : Type} (part : SyntheticFont → α)
    (value? : SyntheticSetting → Option α)
    (hset : ∀ f setting, part (set f setting) = (value? setting).getD (part f))
    (f : SyntheticFont) (settings : List SyntheticSetting) :
    part (f.adjust settings) = (lastGiven? value? settings).getD (part f) := by
  have h := adjust_eq_lastGiven?_or (fun f => some (part f)) value?
    (fun f setting => by rw [hset, Option.or_some]) f settings
  rw [Option.or_some] at h
  exact Option.some.inj h

/-- A part that no setting concerns stays what it was. -/
theorem adjust_eq_of_set_eq {α : Type} (part : SyntheticFont → α)
    (hset : ∀ f setting, part (set f setting) = part f)
    (f : SyntheticFont) (settings : List SyntheticSetting) :
    part (f.adjust settings) = part f := by
  induction settings using List.reverseRecOn with
  | nil => rfl
  | append_singleton settings setting ih => rw [adjust_append_singleton, hset, ih]

/-! ## The parts of an order -/

variable (f : SyntheticFont) (settings : List SyntheticSetting)

@[simp] theorem family_adjust : (f.adjust settings).family = f.family :=
  adjust_eq_of_set_eq family (fun _ setting => by cases setting <;> rfl) f settings

@[simp] theorem style_adjust : (f.adjust settings).style = f.style :=
  adjust_eq_of_set_eq style (fun _ setting => by cases setting <;> rfl) f settings

theorem unitsPerEm_adjust :
    (f.adjust settings).unitsPerEm = (lastGiven? unitsPerEm? settings).getD f.unitsPerEm :=
  adjust_eq_lastGiven?_getD unitsPerEm unitsPerEm? (fun _ setting => by cases setting <;> rfl)
    f settings

theorem ascender_adjust :
    (f.adjust settings).ascender = (lastGiven? ascender? settings).getD f.ascender :=
  adjust_eq_lastGiven?_getD ascender ascender? (fun _ setting => by cases setting <;> rfl)
    f settings

theorem descender_adjust :
    (f.adjust settings).descender = (lastGiven? descender? settings).getD f.descender :=
  adjust_eq_lastGiven?_getD descender descender? (fun _ setting => by cases setting <;> rfl)
    f settings

/-- The full name in a language after a setting. -/
theorem lookup_fullNames_set (language : UInt16) (setting : SyntheticSetting) :
    (f.set setting).fullNames.lookup language
      = (fullName? language setting).or (f.fullNames.lookup language) := by
  cases setting with
  | fullName l name =>
    rw [set, fullName?]
    dsimp only
    split
    · next h => rw [h, lookup_putName_self, Option.some_or]
    · next h => rw [lookup_putName_of_ne fun h' => h h'.symm, Option.none_or]
  | _ => rfl

/-- **The full name in a language** is the one given last. -/
theorem lookup_fullNames_adjust (language : UInt16) :
    (f.adjust settings).fullNames.lookup language
      = (lastGiven? (fullName? language) settings).or (f.fullNames.lookup language) :=
  adjust_eq_lastGiven?_or (fun f => f.fullNames.lookup language) (fullName? language)
    (fun f setting => lookup_fullNames_set f language setting) f settings

/-! ## The languages of an order -/

/-- Putting a name in adds its language, if it is not there. -/
theorem map_fst_putName (language : UInt16) (name : String) (names : List (UInt16 × String)) :
    (putName language name names).map Prod.fst
      = if language ∈ names.map Prod.fst then names.map Prod.fst
        else names.map Prod.fst ++ [language] := by
  induction names with
  | nil => rfl
  | cons entry rest ih =>
    obtain ⟨l, n⟩ := entry
    rw [putName]
    by_cases hl : l = language
    · rw [if_pos hl, if_pos (hl ▸ List.mem_cons_self ..)]
      rfl
    · rw [if_neg hl, List.map_cons, List.map_cons, ih]
      have hmem : language ∈ l :: rest.map Prod.fst ↔ language ∈ rest.map Prod.fst :=
        List.mem_cons.trans (or_iff_right fun h => hl h.symm)
      simp only [hmem]
      split <;> rfl

/-- Each language has one name. -/
def OneNameEach : Prop := (f.fullNames.map Prod.fst).Nodup

/-- **Each language keeps having one name**, whatever is set. -/
theorem oneNameEach_adjust (h : f.OneNameEach) : (f.adjust settings).OneNameEach := by
  induction settings using List.reverseRecOn with
  | nil => exact h
  | append_singleton settings setting ih =>
    rw [adjust_append_singleton]
    cases setting with
    | fullName language name =>
      show ((putName language name (f.adjust settings).fullNames).map Prod.fst).Nodup
      rw [map_fst_putName]
      split
      · exact ih
      · next hnew =>
        refine List.nodup_append.mpr ⟨ih, List.nodup_singleton _, fun l hl l' hl' => ?_⟩
        rw [List.mem_singleton.mp hl']
        exact fun h => hnew (h ▸ hl)
    | _ => exact ih

/-- An order starts without full names of its own. -/
theorem oneNameEach_ofNames (family style : String) : (ofNames family style).OneNameEach :=
  List.nodup_nil

/-- A name is found for a language exactly when the language is there. -/
theorem isSome_lookup_iff (names : List (UInt16 × String)) (language : UInt16) :
    (names.lookup language).isSome = true ↔ language ∈ names.map Prod.fst := by
  induction names with
  | nil => simp
  | cons entry rest ih =>
    obtain ⟨l, n⟩ := entry
    rw [List.lookup_cons, List.map_cons, List.mem_cons, ← ih]
    by_cases hl : language = l
    · rw [hl, beq_self_eq_true]
      exact iff_of_true rfl (Or.inl rfl)
    · rw [beq_eq_false_iff_ne.mpr hl]
      exact (or_iff_right hl).symm

/-- Where each language has one name, the names are those found by
language. -/
theorem lookup_of_mem {names : List (UInt16 × String)} (h : (names.map Prod.fst).Nodup)
    {entry : UInt16 × String} (hentry : entry ∈ names) :
    names.lookup entry.1 = some entry.2 := by
  induction names with
  | nil => cases hentry
  | cons first rest ih =>
    rw [List.map_cons, List.nodup_cons] at h
    rw [List.lookup_cons]
    rcases List.mem_cons.mp hentry with rfl | hentry
    · rw [beq_self_eq_true]
    · have hne : (entry.1 == first.1) = false := by
        refine beq_eq_false_iff_ne.mpr fun heq => h.1 ?_
        rw [← heq]
        exact List.mem_map_of_mem hentry
      rw [hne]
      exact ih h.2 hentry

end SyntheticFont

end FontCatalog
