import FontCatalog.Face
import Mathlib.Data.List.Basic

/-!
# Named instances by their numbers

The instances of a font are looked at in two ways. Building a set goes
through their records and takes what it can read, numbering what it has
taken. Reading a face of an instance goes the other way: it has the number,
and reads the record with that number alone
(`Tables.namedInstance?`).

The two would come apart if a record that cannot be read stood before one
that can: from there on, numbers would be too small by one, and faces would
get the place of another instance than the one that gave them their names.
That cannot happen. All records have one width, so the further back a record
stands, the less room it has until the block of instances ends, and room is
all that it needs (`NamedInstance.read?_of_le`). What cannot be read stands
at the end, and `Tables.instances_getElem?` says that the instance with a
number is the one of the record with that number.
-/

namespace FontCatalog

/-! ## Reading needs room and nothing else -/

namespace Bytes

variable {b : Bytes} {pos : Nat}

/-- A number of sixteen bits is read exactly where there is room for it. -/
theorem isSome_u16?_iff : (b.u16? pos).isSome = true ↔ pos + 2 ≤ b.length := by
  have hroom : pos + 2 ≤ b.length ↔ 2 ≤ (b.drop pos).length := by
    rw [List.length_drop]
    omega
  rw [hroom, u16?]
  rcases b.drop pos with _ | ⟨_, _ | ⟨_, _⟩⟩ <;> simp

/-- And so is a number of thirty-two bits. -/
theorem isSome_u32?_iff : (b.u32? pos).isSome = true ↔ pos + 4 ≤ b.length := by
  have hroom : pos + 4 ≤ b.length ↔ 4 ≤ (b.drop pos).length := by
    rw [List.length_drop]
    omega
  rw [hroom, u32?]
  rcases b.drop pos with _ | ⟨_, _ | ⟨_, _ | ⟨_, _ | ⟨_, _⟩⟩⟩⟩ <;> simp

/-- The pieces of an array that is there have the width of its records. -/
theorem length_of_mem_chunks {width count : Nat} (h : width * count ≤ b.length) :
    ∀ c ∈ chunks width count b, c.length = width := by
  induction count generalizing b with
  | zero => exact fun _ hc => absurd hc List.not_mem_nil
  | succ count ih =>
    rw [Nat.mul_succ] at h
    refine List.forall_mem_cons.mpr ⟨by rw [List.length_take]; omega, ih ?_⟩
    rw [List.length_drop]
    omega

/-- **An array of numbers is read exactly where there is room for it.** -/
theorem isSome_records?_mapM_i32?_iff {start count : Nat} :
    ((b.records? start 4 count).bind fun cs => cs.mapM (·.i32? 0)).isSome = true
      ↔ start + 4 * count ≤ b.length := by
  rw [records?, slice?]
  split
  · next hroom =>
    refine iff_of_true ?_ hroom
    rw [Option.map_some, Option.bind_some]
    have hlength : 4 * count ≤ ((b.drop start).take (4 * count)).length := by
      rw [List.length_take, List.length_drop]
      omega
    have hchunks := length_of_mem_chunks hlength
    generalize chunks 4 count _ = cs at hchunks
    induction cs with
    | nil => rfl
    | cons c cs ih =>
      have hrest := ih fun d hd => hchunks d (List.mem_cons_of_mem _ hd)
      have hfirst : (c.u32? 0).isSome = true :=
        isSome_u32?_iff.mpr (Nat.le_of_eq (hchunks c List.mem_cons_self).symm)
      obtain ⟨n, hn⟩ := Option.isSome_iff_exists.mp hfirst
      obtain ⟨ns, hns⟩ := Option.isSome_iff_exists.mp hrest
      rw [List.mapM_cons, hns, i32?, hn]
      rfl
  · next hroom => exact iff_of_false Bool.false_ne_true hroom

end Bytes

namespace NamedInstance

/-- **The room that a record needs**: for its values, and for the name id
behind them if records are wide enough to have one. -/
def room (axisCount width : Nat) : Nat :=
  if 4 + 4 * axisCount + 2 ≤ width then 4 + 4 * axisCount + 2 else 4 + 4 * axisCount

/-- **A record is read exactly where there is room for it.** -/
theorem isSome_read?_iff {axisCount width : Nat} {b : Bytes} :
    (read? axisCount width b).isSome = true ↔ room axisCount width ≤ b.length := by
  constructor
  · intro h
    obtain ⟨i, hi⟩ := Option.isSome_iff_exists.mp h
    obtain ⟨cs, hcs, hi⟩ := Option.bind_eq_some_iff.mp hi
    obtain ⟨values, hvalues, hi⟩ := Option.bind_eq_some_iff.mp hi
    have hcoordinates : 4 + 4 * axisCount ≤ b.length := by
      refine Bytes.isSome_records?_mapM_i32?_iff.mp ?_
      rw [hcs, Option.bind_some, hvalues]
      rfl
    unfold room
    split
    · next hwide =>
      dsimp only at hi
      rw [if_pos hwide] at hi
      obtain ⟨name, hname, -⟩ := Option.bind_eq_some_iff.mp hi
      obtain ⟨id, hid, -⟩ := Option.map_eq_some_iff.mp hname
      exact Bytes.isSome_u16?_iff.mp (by rw [hid]; rfl)
    · exact hcoordinates
  · intro h
    have hstop : 4 + 4 * axisCount ≤ b.length := by
      unfold room at h
      split at h <;> omega
    obtain ⟨values, hvalues⟩ := Option.isSome_iff_exists.mp
      (Bytes.isSome_records?_mapM_i32?_iff.mpr hstop)
    obtain ⟨cs, hcs, hvalues⟩ := Option.bind_eq_some_iff.mp hvalues
    obtain ⟨subfamily, hsubfamily⟩ := Option.isSome_iff_exists.mp
      (Bytes.isSome_u16?_iff.mpr (show 0 + 2 ≤ b.length by omega))
    unfold room at h
    split at h
    · next hwide =>
      obtain ⟨id, hid⟩ := Option.isSome_iff_exists.mp (Bytes.isSome_u16?_iff.mpr h)
      simp only [read?, hcs, hvalues, hsubfamily, hid, hwide, Option.bind_eq_bind,
        Option.bind_some, if_true, Option.map_some, Option.pure_def, Option.isSome_some]
    · next hwide =>
      simp only [read?, hcs, hvalues, hsubfamily, hwide, Option.bind_eq_bind, Option.bind_some,
        if_false, Option.pure_def, Option.isSome_some]

/-- **A record further back has less room**: where it can be read, those
before it can. -/
theorem isSome_read?_of_le {axisCount width : Nat} {b : Bytes} {p q : Nat} (hpq : p ≤ q)
    (h : (read? axisCount width (b.drop q)).isSome = true) :
    (read? axisCount width (b.drop p)).isSome = true := by
  rw [isSome_read?_iff, List.length_drop] at h ⊢
  omega

/-- Behind the block there is no room. -/
theorem read?_nil (axisCount width : Nat) : read? axisCount width [] = none := by
  refine Option.not_isSome_iff_eq_none.mp fun h => ?_
  have hroom := isSome_read?_iff.mp h
  rw [List.length_nil, room] at hroom
  split at hroom <;> omega

end NamedInstance

/-- **What can be taken only from the front keeps its number.** If the
function gives something at a number, it gives something at each smaller one;
so nothing is left out before anything that is taken. -/
theorem getElem?_filterMap_range {α : Type} {f : Nat → Option α}
    (hf : ∀ i j, i ≤ j → (f j).isSome = true → (f i).isSome = true) {n : Nat}
    (hend : ∀ j, n ≤ j → f j = none) (j : Nat) :
    ((List.range n).filterMap f)[j]? = f j := by
  have hfront : ∀ m j, ((List.range m).filterMap f)[j]? = if j < m then f j else none := by
    intro m
    induction m with
    | zero => exact fun j => rfl
    | succ m ih =>
      intro j
      rw [List.range_succ, List.filterMap_append]
      cases hm : f m with
      | none =>
        rw [List.filterMap_cons_none hm, List.filterMap_nil, List.append_nil, ih]
        rcases Nat.lt_trichotomy j m with hj | rfl | hj
        · rw [if_pos hj, if_pos (Nat.lt_succ_of_lt hj)]
        · rw [if_neg (Nat.lt_irrefl _), if_pos (Nat.lt_succ_self _), hm]
        · rw [if_neg (by omega), if_neg (by omega)]
      | some x =>
        rw [List.filterMap_cons_some hm, List.filterMap_nil]
        -- Everything before is taken, so what comes next has this number.
        have hlength : ((List.range m).filterMap f).length = m := by
          rw [List.length_filterMap_eq_countP, List.countP_eq_length.mpr, List.length_range]
          intro i hi
          exact hf i m (Nat.le_of_lt (List.mem_range.mp hi)) (by rw [hm]; rfl)
        rcases Nat.lt_trichotomy j m with hj | rfl | hj
        · rw [List.getElem?_append_left (by omega), ih, if_pos hj, if_pos (Nat.lt_succ_of_lt hj)]
        · rw [List.getElem?_append_right (by omega), hlength, Nat.sub_self,
            if_pos (Nat.lt_succ_self _), hm]
          rfl
        · rw [List.getElem?_append_right (by omega), hlength, if_neg (by omega)]
          exact List.getElem?_eq_none (by rw [List.length_singleton]; omega)
  rw [hfront]
  split
  · rfl
  · next hj => exact (hend j (Nat.le_of_not_lt hj)).symm

/-! ## The block of instances -/

/-- **The instances of a variable font as they stand in its table**: records of
one width, and the axes that they have values for. -/
structure InstanceBlock where
  /-- The axes. -/
  axes : List Axis
  /-- The number of axes. -/
  axisCount : Nat
  /-- The number of records. -/
  count : Nat
  /-- The bytes of a record. -/
  width : Nat
  /-- The bytes of all records. -/
  bytes : Bytes

namespace InstanceBlock

/-- The block, if the arrays of axes and of instances are all there. -/
def read? (b : Bytes) : Option InstanceBlock := do
  if b.length < 16 then none
  let start ← b.u16? 4
  if start = 0 then none
  let axisCount ← b.u16? 8
  let count ← b.u16? 12
  let width ← b.u16? 14
  let axes ← (← b.records? start 20 axisCount).mapM Axis.read?
  let bytes ← b.slice? (start + 20 * axisCount) (width * count)
  return ⟨axes, axisCount, count, width, bytes⟩

/-- **The instance with a number**: its record is read, whatever the other
records are like. -/
def instance? (block : InstanceBlock) (index : Nat) : Option NamedInstance :=
  NamedInstance.read? block.axisCount block.width (block.bytes.drop (index * block.width))

/-- The table takes from the block what can be read. -/
theorem axisTable_read?_eq (b : Bytes) :
    AxisTable.read? b = (read? b).map fun block =>
      ⟨block.axes, (List.range block.count).filterMap block.instance?⟩ := by
  unfold AxisTable.read? read?
  split
  · rfl
  cases b.u16? 4 with
  | none => rfl
  | some start =>
    dsimp only [Option.bind_eq_bind, Option.bind_some]
    split
    · rfl
    simp only [Option.map_bind, Function.comp_def, Option.pure_def, Option.map_some]
    rfl

/-- The block is as long as its records. -/
theorem length_bytes_of_read? {b : Bytes} {block : InstanceBlock} (h : read? b = some block) :
    block.bytes.length = block.width * block.count := by
  unfold read? at h
  split at h
  · cases h
  obtain ⟨start, -, h⟩ := Option.bind_eq_some_iff.mp h
  dsimp only at h
  split at h
  · cases h
  obtain ⟨axisCount, -, h⟩ := Option.bind_eq_some_iff.mp h
  obtain ⟨count, -, h⟩ := Option.bind_eq_some_iff.mp h
  obtain ⟨width, -, h⟩ := Option.bind_eq_some_iff.mp h
  obtain ⟨records, -, h⟩ := Option.bind_eq_some_iff.mp h
  obtain ⟨axes, -, h⟩ := Option.bind_eq_some_iff.mp h
  obtain ⟨bytes, hbytes, h⟩ := Option.bind_eq_some_iff.mp h
  obtain rfl := Option.some.inj h
  unfold Bytes.slice? at hbytes
  split at hbytes
  · next hfits =>
    rw [← Option.some.inj hbytes, List.length_take, List.length_drop]
    exact Nat.min_eq_left (by omega)
  · cases hbytes

/-- **What the table has at a number is the instance with that number.** -/
theorem getElem?_filterMap_instance? {block : InstanceBlock}
    (h : block.bytes.length = block.width * block.count) (j : Nat) :
    ((List.range block.count).filterMap block.instance?)[j]? = block.instance? j := by
  refine getElem?_filterMap_range (fun i j hij hj => ?_) (fun j hj => ?_) j
  · exact NamedInstance.isSome_read?_of_le (Nat.mul_le_mul_right _ hij) hj
  · rw [instance?, List.drop_eq_nil_of_le, NamedInstance.read?_nil]
    rw [h, Nat.mul_comm]
    exact Nat.mul_le_mul_right _ hj

end InstanceBlock

namespace Tables

/-- **The named instance of a font with a number**, read from its record
alone. -/
def namedInstance? (tables : Tables) (index : Nat) : Option NamedInstance :=
  ((tables (Tag.named "fvar")).bind InstanceBlock.read?).bind (·.instance? index)

/-- **The instance with a number is the one of the record with that number.** -/
theorem instances_getElem? (tables : Tables) (j : Nat) :
    tables.variation.instances[j]? = tables.namedInstance? j := by
  rw [variation, namedInstance?]
  cases tables (Tag.named "fvar") with
  | none => rfl
  | some b =>
    rw [Option.bind_some, Option.bind_some, InstanceBlock.axisTable_read?_eq]
    cases hblock : InstanceBlock.read? b with
    | none => rfl
    | some block =>
      exact InstanceBlock.getElem?_filterMap_instance?
        (InstanceBlock.length_bytes_of_read? hblock) j

end Tables

end FontCatalog
