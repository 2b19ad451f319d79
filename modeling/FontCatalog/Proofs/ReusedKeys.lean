import FontCatalog.Loader.Memory
import Mathlib.Data.List.Induction
import Mathlib.Data.List.Nodup

/-!
# Keys that are given out again

A memory loader numbers its sources by their places. When it is cut back,
places become free, and the sources that come next get the keys of those
that are gone. A file that was handed out before the cut does not change:
it has no data for a while, and then the data of another file.

What a file stands for can be told from the *history* of the loader, the
list of all calls with the files that were returned. The latest file with
its key counts, and a cut that reaches the key takes the data away until
the key is given out again (`MemoryLoader.data?_after`). As long as no cut
has reached a file since it was handed out, no other file gets its key, and
its data is its own; such files are *live*, and they are the kept sources,
one for one and in order (`MemoryLoader.live_history`).

Keys have 32 bits. All of this is about loaders that never keep more
sources than there are keys (`MemoryLoader.HoldsAtMost`); with one more,
two live files have the same key.
-/

namespace FontCatalog

/-- **What a memory loader is told to do.** -/
inductive MemoryCall where
  /-- To keep a source and to return a file for it. -/
  | create (source : FontSource)
  /-- To drop every source from a number on. -/
  | truncate (length : Nat)
deriving DecidableEq

/-- **A call that was made**, and the file if one was returned. -/
inductive MemoryEvent where
  /-- A file was returned for a source. -/
  | created (file : FontFile) (source : FontSource)
  /-- Every source from a number on was dropped. -/
  | truncated (length : Nat)
deriving DecidableEq

namespace MemoryEvent

/-- Whether a file with the key was returned. -/
def gives (key : FileKey) : MemoryEvent → Bool
  | created file _ => file.key = key
  | truncated _ => false

/-- Whether sources were dropped from the key on, or from before it. -/
def reaches (key : FileKey) : MemoryEvent → Bool
  | created _ _ => false
  | truncated length => length ≤ key.index.toNat

@[simp] theorem reaches_created (key : FileKey) (file : FontFile) (source : FontSource) :
    (created file source).reaches key = false := rfl

@[simp] theorem reaches_truncated (key : FileKey) (length : Nat) :
    (truncated length).reaches key = decide (length ≤ key.index.toNat) := rfl

/-- **The latest file with a key**: `events` has a file with the key that
was made of `source`, and no other file got the key in what came `since`. -/
def IsLatest (key : FileKey) (events : List MemoryEvent) (source : FontSource)
    (since : List MemoryEvent) : Prop :=
  ∃ before file, events = before ++ created file source :: since ∧ file.key = key ∧
    ∀ event ∈ since, event.gives key = false

/-- If a file has the key, some file is the latest that has it. -/
theorem exists_isLatest {key : FileKey} {events : List MemoryEvent}
    (h : ∃ event ∈ events, event.gives key = true) :
    ∃ source since, IsLatest key events source since := by
  induction events with
  | nil =>
    obtain ⟨event, hmem, -⟩ := h
    exact absurd hmem List.not_mem_nil
  | cons first events ih =>
    by_cases hlater : ∃ event ∈ events, event.gives key = true
    · obtain ⟨source, since, before, file, rfl, hkey, hsince⟩ := ih hlater
      exact ⟨source, since, first :: before, file, rfl, hkey, hsince⟩
    · have hsince : ∀ event ∈ events, event.gives key = false := fun event hmem =>
        Bool.eq_false_iff.mpr fun hgives => hlater ⟨event, hmem, hgives⟩
      have hfirst : first.gives key = true := by
        obtain ⟨event, hmem, hgives⟩ := h
        rcases List.mem_cons.mp hmem with rfl | hmem
        · exact hgives
        · exact absurd ⟨event, hmem, hgives⟩ hlater
      cases first with
      | created file source =>
        exact ⟨source, events, [], file, rfl, of_decide_eq_true hfirst, hsince⟩
      | truncated length => cases hfirst

/-- **The files that are live**, with their sources: those that no later
cut has reached. -/
def live : List MemoryEvent → List (FontFile × FontSource)
  | [] => []
  | created file source :: later =>
    if later.any (·.reaches file.key) then live later else (file, source) :: live later
  | truncated _ :: later => live later

/-- A new file is live, and leaves the others as they are. -/
theorem live_append_created (events : List MemoryEvent) (file : FontFile) (source : FontSource) :
    live (events ++ [created file source]) = live events ++ [(file, source)] := by
  induction events with
  | nil => rfl
  | cons first events ih =>
    cases first with
    | created other source' =>
      rw [List.cons_append, live, live, ih, List.any_append, List.any_cons, List.any_nil,
        reaches_created, Bool.or_false, Bool.or_false]
      split <;> rfl
    | truncated length => exact ih

/-- Of the live files, a cut leaves those with a key before it. -/
theorem live_append_truncated (events : List MemoryEvent) (length : Nat) :
    live (events ++ [truncated length])
      = (live events).filter fun p => p.1.key.index.toNat < length := by
  induction events with
  | nil => rfl
  | cons first events ih =>
    cases first with
    | created file source =>
      rw [List.cons_append, live, live, ih, List.any_append, List.any_cons, List.any_nil,
        reaches_truncated, Bool.or_false]
      by_cases hearlier : events.any (·.reaches file.key) = true
      · rw [hearlier, Bool.true_or, if_pos rfl, if_pos rfl]
      · rw [Bool.eq_false_iff.mpr hearlier, Bool.false_or, if_neg Bool.false_ne_true,
          List.filter_cons]
        by_cases hkept : file.key.index.toNat < length
        · rw [if_neg (by simpa using hkept), if_pos (decide_eq_true hkept)]
        · rw [if_pos (by simpa using hkept), if_neg (by simpa using hkept)]
    | truncated n => exact ih

end MemoryEvent

namespace MemoryLoader

variable {id : LoaderId} {l : MemoryLoader} {key : FileKey}

/-! ## Histories -/

/-- **One call**: what happened, and the loader with it. -/
def perform (l : MemoryLoader) (id : LoaderId) : MemoryCall → MemoryEvent × MemoryLoader
  | .create source => (.created (l.create id source).1 source, (l.create id source).2)
  | .truncate length => (.truncated length, l.truncate length)

/-- **The loader after some calls.** -/
def after (l : MemoryLoader) (id : LoaderId) (calls : List MemoryCall) : MemoryLoader :=
  calls.foldl (fun l call => (l.perform id call).2) l

/-- **What happened in some calls**, in order. -/
def history (l : MemoryLoader) (id : LoaderId) : List MemoryCall → List MemoryEvent
  | [] => []
  | call :: calls => (l.perform id call).1 :: (l.perform id call).2.history id calls

/-- **The loader never keeps more than `n` sources**, before, between and
after the calls. -/
def HoldsAtMost (l : MemoryLoader) (id : LoaderId) (n : Nat) (calls : List MemoryCall) : Prop :=
  ∀ earlier, earlier <+: calls → (l.after id earlier).length ≤ n

@[simp] theorem after_nil : l.after id [] = l := rfl

@[simp] theorem after_cons (call : MemoryCall) (calls : List MemoryCall) :
    l.after id (call :: calls) = (l.perform id call).2.after id calls := rfl

theorem after_append (calls more : List MemoryCall) :
    l.after id (calls ++ more) = (l.after id calls).after id more := List.foldl_append

theorem history_append (calls more : List MemoryCall) :
    l.history id (calls ++ more)
      = l.history id calls ++ (l.after id calls).history id more := by
  induction calls generalizing l with
  | nil => rfl
  | cons call calls ih => exact congrArg ((l.perform id call).1 :: ·) ih

/-- **An event of a history** is that of a call, in the loader that the
calls before it left. -/
theorem exists_calls_of_history_eq {calls : List MemoryCall} {before since : List MemoryEvent}
    {event : MemoryEvent} (h : l.history id calls = before ++ event :: since) :
    ∃ earlier call later, calls = earlier ++ call :: later ∧ earlier.length = before.length ∧
      ((l.after id earlier).perform id call).1 = event ∧
      (l.after id (earlier ++ [call])).history id later = since := by
  induction before generalizing l calls with
  | nil =>
    cases calls with
    | nil => cases h
    | cons call later =>
      obtain ⟨hevent, hsince⟩ := List.cons.inj h
      exact ⟨[], call, later, rfl, rfl, hevent, hsince⟩
  | cons first before ih =>
    cases calls with
    | nil => cases h
    | cons call' calls =>
      obtain ⟨earlier, call, later, rfl, hlength, hevent, hsince⟩ := ih (List.cons.inj h).2
      exact ⟨call' :: earlier, call, later, rfl, congrArg Nat.succ hlength, hevent, hsince⟩

theorem HoldsAtMost.of_append {n : Nat} {calls more : List MemoryCall}
    (h : l.HoldsAtMost id n (calls ++ more)) :
    l.HoldsAtMost id n calls ∧ (l.after id calls).HoldsAtMost id n more := by
  refine ⟨fun earlier hearlier => h earlier (hearlier.trans (List.prefix_append _ _)),
    fun earlier hearlier => ?_⟩
  rw [← after_append]
  exact h _ (List.prefix_append_right_inj calls |>.mpr hearlier)

/-- Each call adds one source at most. -/
theorem length_after_le (l : MemoryLoader) (id : LoaderId) (calls : List MemoryCall) :
    (l.after id calls).length ≤ l.length + calls.length := by
  induction calls generalizing l with
  | nil => exact Nat.le_refl _
  | cons call calls ih =>
    have hstep : (l.perform id call).2.length ≤ l.length + 1 := by
      cases call with
      | create source => simp [perform, create, keep, length]
      | truncate n =>
        simp only [perform, truncate, length, List.length_take]
        omega
    have hrest := ih (l.perform id call).2
    rw [after_cons, List.length_cons]
    omega

/-- A loader that is not called too often does not keep too much. -/
theorem holdsAtMost_of_length_le {n : Nat} {calls : List MemoryCall}
    (h : l.length + calls.length ≤ n) : l.HoldsAtMost id n calls := fun earlier hearlier => by
  have hlength := hearlier.length_le
  have hkept := l.length_after_le id earlier
  omega

/-! ## The data of a key -/

/-- **While there are keys left, the next one is the number of sources.** -/
theorem toNat_nextKey (h : l.length < UInt32.size) : l.nextKey.index.toNat = l.length :=
  UInt32.toNat_ofNat_of_lt' h

/-- A new source is found under its key. -/
theorem data?_keep_nextKey (h : l.length < UInt32.size) (source : FontSource) :
    (l.keep source).data? l.nextKey = some source := by
  rw [data?, toNat_nextKey h]
  exact List.getElem?_concat_length

/-- A new source changes nothing for other keys. -/
theorem data?_keep_of_ne (h : l.length < UInt32.size) (hkey : l.nextKey ≠ key)
    (source : FontSource) : (l.keep source).data? key = l.data? key := by
  have hne : key.index.toNat ≠ l.length := fun heq =>
    hkey (congrArg FileKey.mk (UInt32.toNat_inj.mp ((toNat_nextKey h).trans heq.symm)))
  rcases Nat.lt_or_gt_of_ne hne with hlt | hgt
  · exact data?_keep_of_lt hlt source
  · have hnone : ∀ k : MemoryLoader, k.length ≤ key.index.toNat → k.data? key = none :=
      fun k hk => List.getElem?_eq_none hk
    rw [hnone l (Nat.le_of_lt hgt), hnone (l.keep source)]
    rw [length, keep, List.length_append]
    exact hgt

/-- **One call and the data of a key** that is not given out by it: only a
cut that reaches the key takes it away. -/
theorem data?_perform {call : MemoryCall} (hfits : (l.perform id call).2.length ≤ UInt32.size)
    (hgives : (l.perform id call).1.gives key = false) :
    (l.perform id call).2.data? key
      = if (l.perform id call).1.reaches key then none else l.data? key := by
  cases call with
  | create source =>
    have hlength : l.length + 1 ≤ UInt32.size := by
      rw [← show (l.perform id (.create source)).2.length = l.length + 1 from
        List.length_append]
      exact hfits
    exact data?_keep_of_ne hlength (of_decide_eq_false hgives) source
  | truncate n =>
    show (l.truncate n).data? key = if decide (n ≤ key.index.toNat) then none else l.data? key
    rw [data?_truncate]
    by_cases hlt : key.index.toNat < n
    · rw [if_pos hlt, if_neg (by simpa using hlt)]
    · rw [if_neg hlt, if_pos (by simpa using hlt)]

/-- **The data of a key that is not given out again**: what it was, unless
a cut has reached it. -/
theorem data?_after {calls : List MemoryCall} (hfits : l.HoldsAtMost id UInt32.size calls)
    (hgives : ∀ event ∈ l.history id calls, event.gives key = false) :
    (l.after id calls).data? key
      = if (l.history id calls).any (·.reaches key) then none else l.data? key := by
  induction calls generalizing l with
  | nil => rfl
  | cons call calls ih =>
    have hlater : (l.perform id call).2.HoldsAtMost id UInt32.size calls :=
      (show l.HoldsAtMost id UInt32.size ([call] ++ calls) from hfits).of_append.2
    have hstep := data?_perform (hfits [call] ⟨calls, rfl⟩) (hgives _ (List.mem_cons_self ..))
    have hrest := ih hlater fun event hmem => hgives event (List.mem_cons_of_mem _ hmem)
    rw [after_cons, hrest, hstep, history, List.any_cons]
    cases (l.perform id call).1.reaches key with
    | true => rw [if_pos rfl, ite_self, Bool.true_or, if_pos rfl]
    | false => rw [if_neg Bool.false_ne_true, Bool.false_or]

/-- **As long as no cut reaches a key, its data stays**, whatever other
sources come and go. -/
theorem data?_after_of_not_reached {calls : List MemoryCall} {source : FontSource}
    (hdata : l.data? key = some source)
    (hreaches : (l.history id calls).any (·.reaches key) = false) :
    (l.after id calls).data? key = some source := by
  induction calls generalizing l with
  | nil => exact hdata
  | cons call calls ih =>
    rw [history, List.any_cons, Bool.or_eq_false_iff] at hreaches
    refine ih ?_ hreaches.2
    cases call with
    | create other =>
      have hlt : key.index.toNat < l.length :=
        (l.data?_isSome_iff key).mp (by rw [hdata, Option.isSome_some])
      exact (data?_keep_of_lt hlt other).trans hdata
    | truncate n =>
      have hlt : key.index.toNat < n := Nat.not_le.mp (of_decide_eq_false hreaches.1)
      show (l.truncate n).data? key = some source
      rw [data?_truncate, if_pos hlt, hdata]

/-! ## The live files -/

/-- Of a numbered list, the elements with a number below `n` are those that
are left when it is cut off there. -/
theorem filter_zipIdx_lt {α : Type} (xs : List α) (start n : Nat) :
    (xs.zipIdx start).filter (fun p => p.2 < n) = (xs.take (n - start)).zipIdx start := by
  induction xs generalizing start with
  | nil => simp
  | cons x xs ih =>
    rw [List.zipIdx_cons, List.filter_cons, ih]
    by_cases hlt : start < n
    · rw [if_pos (decide_eq_true hlt), show n - start = n - (start + 1) + 1 by omega,
        List.take_succ_cons, List.zipIdx_cons]
    · rw [if_neg (by simpa using hlt), show n - start = 0 by omega,
        show n - (start + 1) = 0 by omega]
      rfl

/-- The file that a new loader gives for its `k`-th source. -/
def fileAt (id : LoaderId) (p : FontSource × Nat) : FontFile × FontSource :=
  (⟨id, ⟨UInt32.ofNat p.2⟩, p.1.name⟩, p.1)

/-- **The live files are the kept sources**, each with its place as key. -/
theorem live_history {calls : List MemoryCall} (hfits : empty.HoldsAtMost id UInt32.size calls) :
    MemoryEvent.live (empty.history id calls)
      = (empty.after id calls).files.zipIdx.map (fileAt id) := by
  induction calls using List.reverseRecOn with
  | nil => rfl
  | append_singleton calls call ih =>
    have hbefore := ih hfits.of_append.1
    rw [history_append, after_append, after_cons, after_nil]
    cases call with
    | create source =>
      rw [show (empty.after id calls).history id [.create source]
          = [.created ((empty.after id calls).create id source).1 source] from rfl,
        MemoryEvent.live_append_created, hbefore]
      show _ = ((empty.after id calls).files ++ [source]).zipIdx.map (fileAt id)
      rw [List.zipIdx_append, List.map_append, Nat.zero_add]
      rfl
    | truncate n =>
      rw [show (empty.after id calls).history id [.truncate n] = [.truncated n] from rfl,
        MemoryEvent.live_append_truncated, hbefore]
      have hlength := hfits calls (List.prefix_append _ _)
      show _ = ((empty.after id calls).files.take n).zipIdx.map (fileAt id)
      rw [List.filter_map]
      refine congrArg (List.map (fileAt id)) ?_
      refine Eq.trans (List.filter_congr fun p hp => ?_) (filter_zipIdx_lt _ 0 n)
      have hplace : p.2 < UInt32.size :=
        Nat.lt_of_lt_of_le (List.snd_lt_of_mem_zipIdx hp) hlength
      rw [Function.comp_apply, fileAt, UInt32.toNat_ofNat_of_lt' hplace]

/-- The keys of the live files are the places of the kept sources. -/
theorem map_key_live_history {calls : List MemoryCall}
    (hfits : empty.HoldsAtMost id UInt32.size calls) :
    (MemoryEvent.live (empty.history id calls)).map (fun p => p.1.key.index.toNat)
      = List.range (empty.after id calls).length := by
  have hlength := hfits calls (List.prefix_refl _)
  rw [live_history hfits, List.map_map, List.range_eq_range', length, ← List.zipIdx_map_snd]
  refine List.map_congr_left fun p hp => ?_
  exact UInt32.toNat_ofNat_of_lt' (Nat.lt_of_lt_of_le (List.snd_lt_of_mem_zipIdx hp) hlength)

/-! ## What a file stands for -/

/-- **A file that was returned** is one of the loader and has as its key
the number of the sources kept before it. The loader that then `kept` its
source has it under this key, and the rest of the history is that of this
loader. -/
theorem of_created {calls : List MemoryCall} (hfits : l.HoldsAtMost id UInt32.size calls)
    {before since : List MemoryEvent} {file : FontFile} {source : FontSource}
    (h : l.history id calls = before ++ .created file source :: since) :
    file.loader = id ∧
      file.key.index.toNat = (l.after id (calls.take before.length)).length ∧
      ∃ (kept : MemoryLoader) (later : List MemoryCall),
        kept.data? file.key = some source ∧ kept.HoldsAtMost id UInt32.size later ∧
        kept.history id later = since ∧ kept.after id later = l.after id calls := by
  obtain ⟨earlier, call, later, rfl, hlength, hevent, hsince⟩ := exists_calls_of_history_eq h
  cases call with
  | truncate n => cases hevent
  | create source' =>
    obtain ⟨rfl, rfl⟩ := MemoryEvent.created.inj hevent
    rw [← hlength, List.take_left]
    rw [List.append_cons] at hfits ⊢
    have hkept : l.after id (earlier ++ [.create source']) = (l.after id earlier).keep source' :=
      after_append ..
    have hroom : (l.after id earlier).length < UInt32.size := by
      have hlength' := hfits _ (List.prefix_append _ _)
      rwa [hkept, length, keep, List.length_append] at hlength'
    refine ⟨rfl, toNat_nextKey hroom, l.after id (earlier ++ [.create source']), later, ?_,
      hfits.of_append.2, hsince, (after_append ..).symm⟩
    rw [hkept]
    exact data?_keep_nextKey hroom source'

/-- **The latest file with a key says what its data is**, unless a cut has
reached the key since. -/
theorem data?_of_isLatest {calls : List MemoryCall} (hfits : l.HoldsAtMost id UInt32.size calls)
    {source : FontSource} {since : List MemoryEvent}
    (h : MemoryEvent.IsLatest key (l.history id calls) source since) :
    (l.after id calls).data? key
      = if since.any (·.reaches key) then none else some source := by
  obtain ⟨before, file, hhistory, rfl, hsince⟩ := h
  obtain ⟨-, -, kept, later, hdata, hlater, rfl, hafter⟩ := of_created hfits hhistory
  rw [← hafter, data?_after hlater hsince, hdata]

/-- **Files keep their own data until they are cut away.** A new loader was
called any number of times, and never kept more sources than there are
keys; `calls` is all that was called up to now. Every file that it returned
on the way has as its key the number of the sources kept just before. Under
this key there is now the source of the latest file that was returned with
it, or nothing if a cut has reached the key since. As long as no cut has
reached the key since the file itself was returned, it is the source of this
file, whatever else was kept or dropped. And the files that are live, those
that no cut has reached, have keys that are all different, and are as many
as the loader says. -/
theorem data_of_created_files (id : LoaderId) {calls : List MemoryCall}
    (hfits : empty.HoldsAtMost id UInt32.size calls) :
    (∀ before file source later,
      empty.history id calls = before ++ .created file source :: later →
        file.loader = id ∧
        file.key.index.toNat = (empty.after id (calls.take before.length)).length ∧
        (∃ latest since, MemoryEvent.IsLatest file.key (empty.history id calls) latest since) ∧
        (∀ latest since, MemoryEvent.IsLatest file.key (empty.history id calls) latest since →
          (empty.after id calls).data? file.key
            = if since.any (·.reaches file.key) then none else some latest) ∧
        (later.any (·.reaches file.key) = false →
          (empty.after id calls).data? file.key = some source)) ∧
      ((MemoryEvent.live (empty.history id calls)).map fun p => p.1.key).Nodup ∧
      (empty.after id calls).length = (MemoryEvent.live (empty.history id calls)).length := by
  have hkeys := map_key_live_history hfits
  refine ⟨fun before file source later h => ?_, ?_, ?_⟩
  · obtain ⟨hloader, hkey, kept, rest, hdata, -, rfl, hafter⟩ := of_created hfits h
    refine ⟨hloader, hkey,
      MemoryEvent.exists_isLatest ⟨.created file source, ?_, decide_eq_true rfl⟩,
      fun latest since => data?_of_isLatest hfits, fun hlater => ?_⟩
    · rw [h]
      exact List.mem_append_right _ (List.mem_cons_self ..)
    · rw [← hafter]
      exact data?_after_of_not_reached hdata hlater
  · refine List.Nodup.of_map (fun key : FileKey => key.index.toNat) ?_
    rw [List.map_map]
    exact hkeys ▸ List.nodup_range
  · rw [← List.length_map (fun p : FontFile × FontSource => p.1.key.index.toNat), hkeys,
      List.length_range]

/-- Two sources are kept, the second is dropped, and a third takes its key.
The file of the second now has the data of the third, and that of the first
still its own. -/
theorem data_of_created_files_of_cut_back :
    ∃ (calls : List MemoryCall) (first second third : FontFile) (a b c : FontSource),
      empty.history .memory calls
        = [.created first a, .created second b, .truncated 1, .created third c] ∧
      empty.HoldsAtMost .memory UInt32.size calls ∧ b ≠ c ∧
      first.key.index.toNat = 0 ∧ second.key.index.toNat = 1 ∧ third.key = second.key ∧
      (empty.after .memory calls).data? first.key = some a ∧
      (empty.after .memory calls).data? second.key = some c ∧
      (empty.after .memory calls).length = 2 ∧
      (MemoryEvent.live (empty.history .memory calls)).length = 2 := by
  let a := FontSource.whole "a" [97]
  let b := FontSource.whole "b" [98]
  let c := FontSource.whole "c" [99]
  let calls : List MemoryCall := [.create a, .create b, .truncate 1, .create c]
  have hfits : empty.HoldsAtMost .memory UInt32.size calls :=
    holdsAtMost_of_length_le (by decide)
  let first : FontFile := ⟨.memory, ⟨0⟩, "a"⟩
  let second : FontFile := ⟨.memory, ⟨1⟩, "b"⟩
  let third : FontFile := ⟨.memory, ⟨1⟩, "c"⟩
  have hhistory : empty.history .memory calls
      = [.created first a, .created second b, .truncated 1, .created third c] := by decide
  obtain ⟨hfiles, -, hlength⟩ := data_of_created_files .memory hfits
  obtain ⟨-, hkey₁, -, -, hown₁⟩ := hfiles [] first a _ hhistory
  obtain ⟨-, hkey₂, -, hdata₂, -⟩ := hfiles [.created first a] second b _ hhistory
  have hlatest : MemoryEvent.IsLatest second.key (empty.history .memory calls) c [] :=
    ⟨[.created first a, .created second b, .truncated 1], third, hhistory, rfl, nofun⟩
  exact ⟨calls, first, second, third, a, b, c, hhistory, hfits, by decide, hkey₁, hkey₂, rfl,
    hown₁ rfl, hdata₂ c [] hlatest, rfl, hlength.symm⟩

end MemoryLoader

end FontCatalog
