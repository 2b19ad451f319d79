import FontCatalog.Search
import FontCatalog.Sfnt.Font

/-!
# Searching a directory

A reader looks a table up among the records of a directory. `Font.tables`
says which record it should come upon: the first one with the tag. But a
reader that has made sure that the tags ascend does not go through the
records one by one; it bisects them, and never looks at most of them.

Both readers come upon the same record (`Font.search?_eq_find?`). Where tags
ascend, a tag occurs once at most, so the first record that has it is the
only one, and every record on the way leads a bisection towards it
(`bisect_eq_some`). What is said of the tables of a font by first records is
therefore true for either reader.
-/

namespace FontCatalog

/-- **A search that is led to an index finds it**: each element before it
sends the search up, and each element behind it sends it down. -/
theorem bisect_eq_some {probe : Nat → Option Ordering} {lo hi i : Nat} (hlo : lo ≤ i)
    (hhi : i < hi) (hprobe : ∀ j, j < hi → probe j = some (compare i j)) :
    bisect probe lo hi = some i := by
  fun_induction bisect probe lo hi with
  | case1 lo hi hlt mid hmid =>
    rw [hprobe mid (by omega)] at hmid
    cases hmid
  | case2 lo hi hlt mid hmid ih =>
    rw [hprobe mid (by omega), Option.some.injEq, Nat.compare_eq_lt] at hmid
    exact ih hlo hmid fun j hj => hprobe j (by omega)
  | case3 lo hi hlt mid hmid ih =>
    rw [hprobe mid (by omega), Option.some.injEq, Nat.compare_eq_gt] at hmid
    exact ih hmid hhi hprobe
  | case4 lo hi hlt mid hmid =>
    rw [hprobe mid (by omega), Option.some.injEq, Nat.compare_eq_eq] at hmid
    rw [hmid]
  | case5 lo hi hlt => omega

namespace Font

/-- **The tags of a directory ascend**, from above zero. -/
def Ascending (f : Font) : Prop := (0 :: f.records.map (·.tag.code.toNat)).Pairwise (· < ·)

instance (f : Font) : Decidable f.Ascending :=
  inferInstanceAs (Decidable (List.Pairwise _ _))

/-- How a tag compares with the tag of a record. -/
def compareAt (f : Font) (tag : Tag) (i : Nat) : Option Ordering :=
  f.records[i]?.map fun r => compare tag.code.toNat r.tag.code.toNat

/-- **The record that a reader comes upon**: by bisection where the tags
ascend, and else by going through the records. -/
def search? (f : Font) (tag : Tag) : Option TableRecord :=
  if f.Ascending then
    (bisect (f.compareAt tag) 0 f.records.length).bind fun i => f.records[i]?
  else f.records.find? (·.tag == tag)

/-- **The tables that a reader finds** by searching the directory. -/
def searchedTables (f : Font) : Tables := fun tag => (f.search? tag).bind (·.slice? f.data)

variable {f : Font} {tag : Tag}

/-- Tags with one number are one tag. -/
theorem tag_eq_of_toNat_eq {a b : Tag} (h : a.code.toNat = b.code.toNat) : a = b := by
  cases a
  cases b
  exact congrArg Tag.mk (UInt32.toNat_inj.mp h)

/-- Where tags ascend, records compare as their places do. -/
theorem Ascending.compareAt_eq (h : f.Ascending) {i : Nat} (hi : i < f.records.length)
    {j : Nat} (hj : j < f.records.length) :
    f.compareAt f.records[i].tag j = some (compare i j) := by
  have hpairs := List.pairwise_iff_getElem.mp (List.pairwise_cons.mp h).2
  have hlt : ∀ a b (ha : a < f.records.length) (hb : b < f.records.length), a < b →
      f.records[a].tag.code.toNat < f.records[b].tag.code.toNat := by
    intro a b ha hb hab
    have hpair := hpairs a b (by rwa [List.length_map]) (by rwa [List.length_map]) hab
    rwa [List.getElem_map, List.getElem_map] at hpair
  rw [compareAt, List.getElem?_eq_getElem hj, Option.map_some, Option.some.injEq]
  rcases Nat.lt_trichotomy i j with hij | rfl | hij
  · rw [Nat.compare_eq_lt.mpr hij, Nat.compare_eq_lt.mpr (hlt i j hi hj hij)]
  · rw [Nat.compare_eq_eq.mpr rfl, Nat.compare_eq_eq.mpr rfl]
  · rw [Nat.compare_eq_gt.mpr hij, Nat.compare_eq_gt.mpr (hlt j i hj hi hij)]

/-- **Searching comes upon the first record of a tag.** -/
theorem search?_eq_find? (f : Font) (tag : Tag) :
    f.search? tag = f.records.find? (·.tag == tag) := by
  unfold search?
  split
  · next hascending =>
    cases hfind : f.records.find? (·.tag == tag) with
    | none =>
      -- What a bisection comes upon has the tag, and no record has.
      refine Option.bind_eq_none_iff.mpr fun i hbisect => ?_
      obtain ⟨-, hi, heq⟩ := probe_of_bisect_eq_some hbisect
      rw [compareAt, List.getElem?_eq_getElem hi, Option.map_some, Option.some.injEq,
        Nat.compare_eq_eq] at heq
      have hne := List.find?_eq_none.mp hfind _ (List.getElem_mem hi)
      exact absurd (beq_iff_eq.mpr (tag_eq_of_toNat_eq heq.symm)) hne
    | some r =>
      obtain ⟨i, hi, rfl⟩ := List.getElem_of_mem (List.mem_of_find?_eq_some hfind)
      have htag := List.find?_some hfind
      obtain rfl := beq_iff_eq.mp htag
      rw [bisect_eq_some (Nat.zero_le i) hi fun j hj => hascending.compareAt_eq hi hj]
      exact List.getElem?_eq_getElem hi
  · rfl

/-- **Searching finds the tables of a font.** -/
theorem searchedTables_eq (f : Font) : f.searchedTables = f.tables := by
  funext tag
  rw [searchedTables, search?_eq_find?, tables]

end Font

end FontCatalog
