import FontCatalog.Loader.Scripted
import FontCatalog.Proofs.Waits

/-!
# A longer timeout loses nothing

Two calls for details start from the same state, one with a longer timeout
than the other, and the shorter one gives lines. Then the longer one does
just the same. Only the pauses need not have the same length: near its
deadline the shorter call pauses for what is left, where the longer call
pauses for a full interval, and from there on their clocks differ.

That this makes no difference needs a relation between the two calls that
allows for it, `Timed.InStep`: the worlds are equal, and so are the clocks
*for as long as the shorter deadline leaves room for a pause*. A pause that
is shorter than it would be with the longer deadline leads to the shorter
deadline (`Deadline.pause?_of_notAfter`), and a call that has reached its
deadline and still gives lines makes no more pauses, so its clock is not
read again but to find the deadline reached.

What pauses do to the loaders must not depend on their length
(`LoaderWorld.Timeless`). Nothing else is assumed of the loaders and of the
signal to stop: they may do what they like with each call.
-/

namespace FontCatalog

/-! ## Transcripts up to the length of pauses -/

namespace Exchange

/-- An exchange without the length it has if it is a pause. -/
def untimed : Exchange → Exchange
  | pause _ => pause 0
  | e => e

end Exchange

/-- **What was asked of the loaders**, with the answers and without the
pauses. -/
def loaderCalls (log : List Exchange) : List Exchange := log.filter (!·.isPause)

variable {log log' : List Exchange}

/-- The calls are those of the transcript without lengths. -/
theorem loaderCalls_map_untimed : loaderCalls (log.map Exchange.untimed) = loaderCalls log := by
  induction log with
  | nil => rfl
  | cons e log ih =>
    cases e with
    | pause length => exact ih
    | _ => exact congrArg (_ :: ·) ih

/-- So are the pauses. -/
theorem pauseCount_map_untimed : pauseCount (log.map Exchange.untimed) = pauseCount log := by
  have hpause : Exchange.isPause ∘ Exchange.untimed = Exchange.isPause := by
    funext e
    cases e <;> rfl
  rw [pauseCount, List.countP_map, hpause, pauseCount]

/-! ## Two deadlines -/

namespace Deadline

/-- **One deadline is not after another.** -/
def NotAfter : Deadline → Deadline → Prop
  | .until instant, .until instant' => instant ≤ instant'
  | _, .never => True
  | .never, .until _ => False

variable {d d' : Deadline} {now : Instant} {timeout timeout' : Duration} {length : Duration}

/-- A longer timeout does not end earlier. -/
theorem notAfter_after (h : timeout ≤ timeout') :
    (after now timeout).NotAfter (after now timeout') := by
  by_cases hnamed' : now + timeout' < Instant.beyond
  · have hends : now + timeout ≤ now + timeout' := Nat.add_le_add_left h now
    rw [after, after, if_pos hnamed', if_pos (Nat.lt_of_le_of_lt hends hnamed')]
    exact hends
  · rw [show after now timeout' = .never from if_neg hnamed']
    cases after now timeout <;> trivial

/-- What does not come before a deadline that never comes never comes either. -/
theorem NotAfter.eq_never (h : d.NotAfter d') (hd : d = .never) : d' = .never := by
  subst hd
  cases d' with
  | «until» => exact h.elim
  | never => rfl

/-- **Where a deadline leaves room for a pause, so does a later one**, and
the pause has the same length or leads to the deadline. -/
theorem pause?_of_notAfter (h : d.NotAfter d') (hpause : d.pause? now = some length) :
    ∃ length', d'.pause? now = some length' ∧
      (d.pause? (now + length) = none ∨ length' = length) := by
  cases d with
  | never =>
    obtain rfl := h.eq_never rfl
    exact ⟨length, hpause, Or.inr rfl⟩
  | «until» instant =>
    obtain ⟨hlt, hlength⟩ := length_of_pause? hpause
    cases d' with
    | never =>
      rcases hlength with ⟨rfl, -⟩ | ⟨hend, -⟩
      · exact ⟨_, rfl, Or.inr rfl⟩
      · exact ⟨_, rfl, Or.inl (pause?_until_eq_none_iff.mpr (Nat.le_of_eq hend.symm))⟩
    | «until» instant' =>
      have hlt' : now < instant' := Nat.lt_of_lt_of_le hlt h
      have hpause' : (Deadline.until instant').pause? now
          = some (min Duration.pollInterval (instant' - now)) := if_neg (Nat.not_le.mpr hlt')
      refine ⟨_, hpause', ?_⟩
      rcases hlength with ⟨rfl, hfull⟩ | ⟨hend, -⟩
      · have hfull' : Duration.pollInterval ≤ instant' - now :=
          Nat.le_sub_of_add_le' (Nat.le_trans hfull h)
        exact Or.inr (Nat.min_eq_left hfull')
      · exact Or.inl (pause?_until_eq_none_iff.mpr (Nat.le_of_eq hend.symm))

end Deadline

/-! ## Two calls -/

/-- **What a pause does to the world does not depend on its length.** -/
def LoaderWorld.Timeless {σ : Type} (w : LoaderWorld σ) : Prop :=
  ∀ length length' s, w.pause length s = w.pause length' s

/-- The catalogue's own loader does nothing in pauses. -/
theorem LoaderWorld.Timeless.withMemory {σ : Type} {w : LoaderWorld σ} (h : w.Timeless)
    (memory : MemoryLoader) : (w.withMemory memory).Timeless := h

/-- **A call with a shorter deadline and one with a longer deadline are in
step**: the worlds are equal, and the clocks too for as long as the shorter
deadline leaves room for a pause. -/
structure Timed.InStep {σ : Type} (deadline : Deadline) (t u : Timed σ) : Prop where
  /-- The worlds are equal. -/
  world : u.world = t.world
  /-- The clocks agree where another pause may be made. -/
  clock : deadline.pause? t.now ≠ none → u.now = t.now

namespace LoaderWorld

variable {σ : Type} {w : LoaderWorld σ} {signal : StopSignal σ} {d d' : Deadline}
  {file : FontFile} {entries : List FontEntry} {t t' u : Timed σ}

/-- A wait for data that arrives goes the same way with a later deadline. -/
theorem Waits.later (hw : w.Timeless) (hd : d.NotAfter d')
    (h : w.Waits signal d file t log .arrived t') (hu : Timed.InStep d t u) :
    ∃ log' u', w.Waits signal d' file u log' .arrived u' ∧ Timed.InStep d t' u' ∧
      log'.map Exchange.untimed = log.map Exchange.untimed := by
  generalize houtcome : WaitOutcome.arrived = outcome at h
  induction h generalizing u with
  | @arrived t s hask =>
    rw [← hu.world] at hask
    exact ⟨_, _, Waits.arrived hask, ⟨rfl, hu.clock⟩, rfl⟩
  | stopped | timedOut => cases houtcome
  | @paused t t' answer s length log outcome hask hanswer hfired hpause _ ih =>
    -- The shorter deadline leaves room for a pause, so the clocks agree here.
    have hnow : u.now = t.now := hu.clock (hpause ▸ Option.some_ne_none length)
    rw [← hu.world] at hask
    obtain ⟨length', hpause', hlength⟩ := Deadline.pause?_of_notAfter hd hpause
    have hstep : Timed.InStep d ⟨w.pause length s, t.now + length⟩
        ⟨w.pause length' s, u.now + length'⟩ :=
      ⟨hw length' length s, fun hroom => by rw [hnow, hlength.resolve_left hroom]⟩
    obtain ⟨log', u', hrest, hin, huntimed⟩ := ih hstep houtcome
    rw [← hnow] at hpause'
    exact ⟨_, u', Waits.paused hask hanswer hfired hpause' hrest, hin,
      congrArg (file.localityIs answer :: Exchange.pause 0 :: ·) huntimed⟩

/-- Visits that give lines go the same way with a later deadline. -/
theorem Visits.later {index : Nat} {lines : Option (List String)} (hw : w.Timeless)
    (hd : d.NotAfter d') (h : w.Visits signal d index entries t log lines t')
    (hu : Timed.InStep d t u) (hlines : lines ≠ none) :
    ∃ log' u', w.Visits signal d' index entries u log' lines u' ∧ Timed.InStep d t' u' ∧
      log'.map Exchange.untimed = log.map Exchange.untimed := by
  induction h generalizing u with
  | nil => exact ⟨[], u, Visits.nil, hu, rfl⟩
  | missing | unreadable => exact absurd rfl hlines
  | @visited index entry entries t t₁ t₂ waited log source s face lines hwait hdata hface _ ih =>
    obtain ⟨waited', u₁, hwait', hu₁, hwaited⟩ := hwait.later hw hd hu
    have hinner : lines ≠ none := fun hnone => hlines (congrArg (Option.map _) hnone)
    obtain ⟨log', u₂, hrest, hu₂, hlog⟩ :=
      ih (u := ⟨s, u₁.now⟩) ⟨rfl, hu₁.clock⟩ hinner
    rw [← hu₁.world] at hdata
    refine ⟨_, u₂, Visits.visited hwait' hdata hface hrest, hu₂, ?_⟩
    rw [List.map_append, List.map_cons, List.map_append, List.map_cons, hwaited, hlog]

/-- **A call that gives lines goes the same way with a later deadline.** -/
theorem Tells.later {told : List String} (hw : w.Timeless) (hd : d.NotAfter d')
    (h : w.Tells signal d entries t log told t') (htold : told ≠ []) :
    ∃ log' t'', w.Tells signal d' entries t log' told t'' ∧ t''.world = t'.world ∧
      log'.map Exchange.untimed = log.map Exchange.untimed := by
  cases h with
  | stopped | refused => exact absurd rfl htold
  | @told asked visits lines s t' hfired hrequests hvisits =>
    have hlines : lines ≠ none := fun hnone => htold (hnone ▸ rfl)
    obtain ⟨visits', u, hvisits', hu, hlog⟩ := hvisits.later hw hd ⟨rfl, fun _ => rfl⟩ hlines
    refine ⟨asked ++ visits', u, Tells.told hfired hrequests hvisits', hu.world, ?_⟩
    rw [List.map_append, List.map_append, hlog]

end LoaderWorld

/-- **A longer timeout loses nothing.** If the loaders do not know how long
a pause is, and a call for details gives lines, then from the same state
with a longer timeout it gives the same lines: the same is asked of the
loaders in the same order and answered in the same way, with pauses at the
same places, and the loaders are left in the same state. Without a deadline
this takes the patience for as many pauses as there are. -/
theorem Catalog.details_of_longer_timeout {σ : Type} {w : LoaderWorld σ} (hw : w.Timeless)
    (signal : StopSignal σ) {timeout timeout' : Duration} (htimeout : timeout ≤ timeout')
    {patience : Nat} {c : Catalog} {t t₁ : Timed σ} {lines : List String}
    (hrun : c.details w signal timeout patience t = (lines, t₁)) (hlines : lines ≠ []) :
    ∃ log log' t₂, t₂.world = t₁.world ∧ loaderCalls log' = loaderCalls log ∧
      log'.map Exchange.untimed = log.map Exchange.untimed ∧
      (∀ enough, (Deadline.after t.now timeout = .never → pauseCount log ≤ enough) →
        c.details w signal timeout enough t = (lines, t₁) ∧
        (c.inWorld w).transcribed.details (signal ∘ Prod.fst) timeout enough c.entries
          (t.noting []) = (lines, t₁.noting log)) ∧
      (∀ enough, (Deadline.after t.now timeout' = .never → pauseCount log ≤ enough) →
        c.details w signal timeout' enough t = (lines, t₂) ∧
        (c.inWorld w).transcribed.details (signal ∘ Prod.fst) timeout' enough c.entries
          (t.noting []) = (lines, t₂.noting log')) := by
  have hdeadlines : (Deadline.after t.now timeout).NotAfter (Deadline.after t.now timeout') :=
    Deadline.notAfter_after htimeout
  obtain ⟨log, htells⟩ := LoaderWorld.tells_of_details hrun hlines
  obtain ⟨log', t₂, htells', hworld, huntimed⟩ :=
    htells.later (hw.withMemory c.memoryLoader) hdeadlines hlines
  have hcount : pauseCount log' = pauseCount log := by
    rw [← pauseCount_map_untimed, huntimed, pauseCount_map_untimed]
  have hcalls : loaderCalls log' = loaderCalls log := by
    rw [← loaderCalls_map_untimed, huntimed, loaderCalls_map_untimed]
  refine ⟨log, log', t₂, hworld, hcalls, huntimed, fun enough henough => ?_,
    fun enough henough => ?_⟩
  · exact ⟨htells.details_eq henough, htells.transcribed.details_eq henough⟩
  · rw [← hcount] at henough
    exact ⟨htells'.details_eq henough, htells'.transcribed.details_eq henough⟩

/-- A remote font that is there when it is asked for the third time. With a
timeout of 30 ms the second pause is cut short, and without end it is not:
the clocks differ in the end, and nothing else. -/
theorem Catalog.details_of_longer_timeout_of_remote :
    ∃ (c : Catalog) (t t₁ t₂ : Timed Shelf) (lines : List String) (log log' : List Exchange),
      Shelf.world.Timeless ∧ Duration.ofMillis 30 ≤ Duration.longest ∧
      c.details Shelf.world Shelf.stopped (Duration.ofMillis 30) 2 t = (lines, t₁) ∧
      c.details Shelf.world Shelf.stopped Duration.longest 2 t = (lines, t₂) ∧
      lines = ["Font 0: x-height = 0"] ∧ t₂.world = t₁.world ∧
      t₁.now = t.now + Duration.ofMillis 30 ∧ t₂.now = t.now + Duration.ofMillis 40 ∧
      loaderCalls log' = loaderCalls log ∧ pauseCount log = 2 := by
  let remote : ScriptedFile :=
    ⟨[0, 1, 0, 0, 0, 0, 0, 0, 0, 0, 0, 0], none, .remote, none, some 2, none, .whenPresent, 0, 0⟩
  let c : Catalog := ⟨⟨true, [.outside 0], []⟩, "en-US", none, [.outside 0],
    some ⟨[.anonymous ⟨.outside 0, ⟨0⟩, "remote"⟩]⟩⟩
  let t : Timed Shelf := ⟨⟨[.scripted [remote]], false⟩, 7⟩
  have htimeless : Shelf.world.Timeless := fun _ _ _ => rfl
  have hlonger : Duration.ofMillis 30 ≤ Duration.longest := by decide
  have hlines : (c.details Shelf.world Shelf.stopped (Duration.ofMillis 30) 2 t).1
      = ["Font 0: x-height = 0"] := by decide +kernel
  have hshort : (c.details Shelf.world Shelf.stopped (Duration.ofMillis 30) 2 t).2.now
      = t.now + Duration.ofMillis 30 := by decide +kernel
  have hlong : (c.details Shelf.world Shelf.stopped Duration.longest 2 t).2.now
      = t.now + Duration.ofMillis 40 := by decide +kernel
  have hpauses : pauseCount ((c.inWorld Shelf.world).transcribed.details
      (Shelf.stopped ∘ Prod.fst) (Duration.ofMillis 30) 2 c.entries (t.noting [])).2.world.2
      = 2 := by decide +kernel
  cases hrun : c.details Shelf.world Shelf.stopped (Duration.ofMillis 30) 2 t with
  | mk lines t₁ =>
    rw [hrun] at hlines hshort
    have hsome : lines ≠ [] := fun hnil => List.cons_ne_nil _ _ (hlines.symm.trans hnil)
    obtain ⟨log, log', t₂, hworld, hcalls, -, hruns, hruns'⟩ :=
      c.details_of_longer_timeout htimeless Shelf.stopped hlonger hrun hsome
    have hnamed : Deadline.after t.now (Duration.ofMillis 30) ≠ .never := by decide
    rw [(hruns 2 fun hnever => absurd hnever hnamed).2] at hpauses
    have hrun' := (hruns' 2 fun _ => Nat.le_of_eq hpauses).1
    rw [hrun'] at hlong
    exact ⟨c, t, t₁, t₂, lines, log, log', htimeless, hlonger, hrun, hrun', hlines, hworld,
      hshort, hlong, hcalls, hpauses⟩

end FontCatalog
