import FontCatalog.Loader.Scripted
import FontCatalog.Proofs.Waits

/-!
# One deadline for a whole call

The timeout of a call for details is not the timeout of one wait: the
deadline is fixed before the first font is waited for, and all waits share
it. So however many fonts there are, the pauses of all of them together are
no longer than the timeout, and their number is known beforehand.

Everything that is certain of the pauses follows from one thing that is
certain of each, `LoaderWorld.Paced`: a pause is made only where the signal
to stop is silent and the deadline leaves room for just that pause. It holds
of every wait and is kept when transcripts are put behind one another, so it
holds of whole calls (`LoaderWorld.Tells.paced`). From there it is reckoned
how far the pauses go (`LoaderWorld.Paced.now_replay_le`) and how many there
are, and that there are none once the signal stays fired
(`StopSignal.Latched.pause_notMem_drop`).

How the questions for localities are spread over the waits is said by
`LoaderWorld.WaitsOf`, the list of the waits of a call. Between two
questions of one wait there is a pause, so a wait has one question more than
it has pauses, from any point on. That is why a signal that has fired lets
each font be asked for once more and no oftener.
-/

namespace FontCatalog

/-! ## Pauses -/

namespace LoaderWorld

variable {σ : Type} {w : LoaderWorld σ} {signal : StopSignal σ} {deadline : Deadline}
  {t t' : Timed σ} {log more : List Exchange}

theorem paced_append :
    w.Paced signal deadline t (log ++ more) ↔
      w.Paced signal deadline t log ∧ w.Paced signal deadline (w.replay t log) more := by
  induction log generalizing t with
  | nil => exact (and_iff_right trivial).symm
  | cons e log ih =>
    rw [List.cons_append, Paced, Paced, replay_cons, ih, and_assoc]

/-- A pause in the middle is one that may be made there. -/
theorem Paced.of_append_cons {length : Nat}
    (h : w.Paced signal deadline t (log ++ .pause length :: more)) :
    signal (w.replay t log).world = false ∧
      deadline.pause? (w.replay t log).now = some length :=
  (paced_append.mp h).2.1 length rfl

theorem Requests.paced {entries : List FontEntry} {s s' : σ} {result : Except FontError Unit}
    (h : w.Requests entries s log result s') (now : Instant) :
    w.Paced signal deadline ⟨s, now⟩ log := by
  induction h with
  | nil => trivial
  | granted hask _ ih =>
    refine Paced.cons_question ?_ rfl
    rw [FontFile.requestIs, follow, hask]
    exact ih
  | refused => exact Paced.cons_question trivial rfl

theorem Visits.paced {index : Nat} {entries : List FontEntry} {lines : Option (List String)}
    (h : w.Visits signal deadline index entries t log lines t') :
    w.Paced signal deadline t log := by
  induction h with
  | nil => trivial
  | missing hwait => exact hwait.paced
  | unreadable hwait => exact paced_append.mpr ⟨hwait.paced, Paced.cons_question trivial rfl⟩
  | visited hwait hdata _ _ ih =>
    refine paced_append.mpr ⟨hwait.paced, Paced.cons_question ?_ rfl⟩
    rw [hwait.replay_eq, FontFile.dataIs, follow, hdata]
    exact ih

/-- **Every pause of a call is one that may be made there.** -/
theorem Tells.paced {entries : List FontEntry} {told : List String}
    (h : w.Tells signal deadline entries t log told t') : w.Paced signal deadline t log := by
  cases h with
  | stopped => trivial
  | refused _ hrequests => exact hrequests.paced t.now
  | told _ hrequests hvisits =>
    refine paced_append.mpr ⟨hrequests.paced t.now, ?_⟩
    rw [hrequests.replay_eq]
    exact hvisits.paced

/-- Every pause is positive and no longer than the interval. -/
theorem Paced.bounds (h : w.Paced signal deadline t log) {length : Nat}
    (hlength : .pause length ∈ log) : 0 < length ∧ length ≤ Duration.pollInterval := by
  obtain ⟨front, back, rfl⟩ := List.append_of_mem hlength
  exact Deadline.pause?_bounds h.of_append_cons.2

variable {instant : Instant}

/-- **No pause goes past the deadline.** -/
theorem Paced.now_replay_le (h : w.Paced signal (.until instant) t log) (ht : t.now ≤ instant) :
    (w.replay t log).now ≤ instant := by
  induction log generalizing t with
  | nil => exact ht
  | cons e log ih =>
    refine ih h.2 ?_
    cases e with
    | pause length => exact Deadline.add_le_of_pause? (h.1 length rfl).2
    | _ => exact ht

end LoaderWorld

/-! ## Signals that stay fired -/

/-- **A signal that stays fired**, whatever is asked and however long the
pause is. -/
structure StopSignal.Latched {σ : Type} (signal : StopSignal σ) (w : LoaderWorld σ) : Prop where
  /-- A question for the locality does not take it back. -/
  locality : ∀ id key s, signal s = true → signal (w.locality id key s).2 = true
  /-- A request does not take it back. -/
  request : ∀ id key s, signal s = true → signal (w.request id key s).2 = true
  /-- A question for the data does not take it back. -/
  data : ∀ id key s, signal s = true → signal (w.data id key s).2 = true
  /-- A pause does not take it back. -/
  pause : ∀ length s, signal s = true → signal (w.pause length s) = true

namespace StopSignal.Latched

variable {σ : Type} {signal : StopSignal σ} {w : LoaderWorld σ} {t : Timed σ}

/-- The catalogue's own loader does nothing to a signal. -/
theorem withMemory (h : signal.Latched w) (memory : MemoryLoader) :
    signal.Latched (w.withMemory memory) where
  locality
    | .memory, _, _, hs => hs
    | .outside _, _, _, hs => h.locality _ _ _ hs
  request
    | .memory, _, _, hs => hs
    | .outside _, _, _, hs => h.request _ _ _ hs
  data
    | .memory, _, _, hs => hs
    | .outside _, _, _, hs => h.data _ _ _ hs
  pause := h.pause

/-- Once fired, it is fired at the end of whatever is said after it. -/
theorem replay (h : signal.Latched w) (ht : signal t.world = true) (log : List Exchange) :
    signal (w.replay t log).world = true := by
  induction log generalizing t with
  | nil => exact ht
  | cons e log ih =>
    refine ih ?_
    cases e with
    | locality => exact h.locality _ _ _ ht
    | request => exact h.request _ _ _ ht
    | data => exact h.data _ _ _ ht
    | pause => exact h.pause _ _ ht

/-- **After the signal has fired there is no pause.** -/
theorem pause_notMem_drop (h : signal.Latched w) {deadline : Deadline} {log : List Exchange}
    (hpaced : w.Paced signal deadline t log) {k : Nat}
    (hfired : signal (w.replay t (log.take k)).world = true) (length : Nat) :
    .pause length ∉ log.drop k := by
  intro hmem
  obtain ⟨front, back, hdrop⟩ := List.append_of_mem hmem
  have hlog : log = log.take k ++ front ++ .pause length :: back := by
    rw [List.append_assoc, ← hdrop, List.take_append_drop]
  rw [hlog] at hpaced
  have hsilent := hpaced.of_append_cons.1
  rw [LoaderWorld.replay_append, h.replay hfired front] at hsilent
  cases hsilent

end StopSignal.Latched

/-- To replace a script does nothing to the signal of a shelf. -/
theorem Shelf.stopped_setScript (s : Shelf) (loader : Nat) (key : FileKey) (f : ScriptedFile) :
    (s.setScript loader key f).stopped = s.stopped := by
  rw [Shelf.setScript]
  split <;> rfl

/-- The signal of a shelf stays fired. -/
theorem Shelf.latched_stopped : StopSignal.Latched Shelf.stopped Shelf.world where
  locality
    | .memory, _, _, hs => hs
    | .outside i, key, s, hs => by
      show (s.locality i key).2.stopped = true
      rw [Shelf.locality]
      split
      · exact hs
      · split
        · exact hs
        · show (_ || _) = true
          rw [stopped_setScript, hs]
          exact Bool.true_or _
  request
    | .memory, _, _, hs => hs
    | .outside i, key, s, hs => by
      show (s.request i key).2.stopped = true
      rw [Shelf.request]
      split
      · exact hs
      · split
        · exact hs
        · exact (stopped_setScript s i key _).trans hs
  data
    | .memory, _, _, hs => hs
    | .outside _, _, _, hs => hs
  pause _ _ hs := hs

/-! ## Waits -/

/-- **A wait in a call.** -/
structure EntryWait where
  /-- The entry that is waited for. -/
  entry : FontEntry
  /-- What was said in the call before the wait. -/
  before : List Exchange
  /-- What is said in the wait. -/
  waited : List Exchange
  /-- How the wait ends. -/
  outcome : WaitOutcome

/-- The same wait in a call in which more was said before. -/
def EntryWait.after (front : List Exchange) (wait : EntryWait) : EntryWait :=
  { wait with before := front ++ wait.before }

namespace LoaderWorld

variable {σ : Type} {w : LoaderWorld σ} {signal : StopSignal σ} {deadline : Deadline}
  {t t' : Timed σ} {log : List Exchange}

/-- **A wait stands in a transcript** that starts at `t`: it goes from where
the transcript has come to before it, to where it has come to behind it. -/
structure StandsIn (w : LoaderWorld σ) (signal : StopSignal σ) (deadline : Deadline)
    (t : Timed σ) (log : List Exchange) (wait : EntryWait) : Prop where
  /-- The wait is said behind what was said before it. -/
  within : wait.before ++ wait.waited <+: log
  /-- The wait goes as it is said. -/
  goes : w.Waits signal deadline wait.entry.file (w.replay t wait.before) wait.waited wait.outcome
    (w.replay t (wait.before ++ wait.waited))

/-- **These are the waits of a call** for the given entries. The entries are
waited for in order, from the first on, and the locality of a file is asked
for in the waits and nowhere else. -/
structure WaitsOf (w : LoaderWorld σ) (signal : StopSignal σ) (deadline : Deadline)
    (entries : List FontEntry) (t : Timed σ) (log : List Exchange) (waits : List EntryWait) :
    Prop where
  /-- The entries are waited for in order. -/
  inOrder : waits.map EntryWait.entry <+: entries
  /-- Each wait stands in the transcript. -/
  standsIn : ∀ wait ∈ waits, w.StandsIn signal deadline t log wait
  /-- All questions for localities are questions of the waits. -/
  asked : localityCount log = (waits.map fun wait => localityCount wait.waited).sum

/-! ## The transcript of one wait -/

/-- **A wait has one question more than it has pauses**, from any point
on. -/
theorem Waits.localityCount_drop_le {file : FontFile} {outcome : WaitOutcome}
    (h : w.Waits signal deadline file t log outcome t') (k : Nat) :
    localityCount (log.drop k) ≤ pauseCount (log.drop k) + 1 := by
  induction h generalizing k with
  | arrived | stopped | timedOut =>
    cases k with
    | zero => exact Nat.le_refl 1
    | succ k =>
      rw [List.drop_succ_cons, List.drop_nil]
      exact Nat.zero_le 1
  | @paused t t' answer s length log outcome _ _ _ _ _ ih =>
    have hlocality : localityCount (file.localityIs answer :: .pause length :: log)
        = localityCount log + 1 := by
      rw [localityCount, List.countP_cons_of_pos rfl, List.countP_cons_of_neg Bool.false_ne_true]
      rfl
    have hpause : localityCount (.pause length :: log) = localityCount log :=
      List.countP_cons_of_neg Bool.false_ne_true
    have hpause' : pauseCount (.pause length :: log) = pauseCount log + 1 :=
      List.countP_cons_of_pos rfl
    have hrest := ih 0
    rw [List.drop_zero] at hrest
    match k with
    | 0 =>
      rw [List.drop_zero, hlocality, pauseCount_localityIs_pause]
      exact Nat.succ_le_succ hrest
    | 1 =>
      rw [List.drop_succ_cons, List.drop_zero, hpause, hpause']
      exact Nat.le_succ_of_le hrest
    | k + 2 =>
      rw [List.drop_succ_cons, List.drop_succ_cons]
      exact ih k

/-- A wait has at most one question more than it has pauses. -/
theorem Waits.localityCount_le {file : FontFile} {outcome : WaitOutcome}
    (h : w.Waits signal deadline file t log outcome t') :
    localityCount log ≤ pauseCount log + 1 := h.localityCount_drop_le 0

/-- Data that arrived was there when it was asked for last. -/
theorem Waits.eq_append_of_arrived {file : FontFile}
    (h : w.Waits signal deadline file t log .arrived t') :
    ∃ earlier, log = earlier ++ [file.localityIs .present] := by
  generalize houtcome : WaitOutcome.arrived = outcome at h
  induction h with
  | arrived => exact ⟨[], rfl⟩
  | stopped | timedOut => cases houtcome
  | paused _ _ _ _ _ ih =>
    obtain ⟨earlier, rfl⟩ := ih houtcome
    exact ⟨_ :: _ :: earlier, rfl⟩

/-- A wait that ended did not run out of pauses. -/
theorem Waits.ne_exhausted {file : FontFile} {outcome : WaitOutcome}
    (h : w.Waits signal deadline file t log outcome t') : outcome ≠ .exhausted := by
  induction h with
  | arrived | stopped | timedOut => exact nofun
  | paused _ _ _ _ _ ih => exact ih

/-- A wait that is too long has reached the deadline, and the data was not
there when it was asked for last. -/
theorem Waits.of_timedOut {file : FontFile}
    (h : w.Waits signal deadline file t log .timedOut t') :
    deadline.pause? t'.now = none ∧
      ∃ earlier answer, answer ≠ .present ∧ log = earlier ++ [file.localityIs answer] := by
  generalize houtcome : WaitOutcome.timedOut = outcome at h
  induction h with
  | arrived | stopped => cases houtcome
  | timedOut _ hanswer _ hpause => exact ⟨hpause, [], _, hanswer, rfl⟩
  | paused _ _ _ _ _ ih =>
    obtain ⟨hend, earlier, answer, hanswer, rfl⟩ := ih houtcome
    exact ⟨hend, _ :: _ :: earlier, answer, hanswer, rfl⟩

/-! ## The waits of a call -/

section WaitsOf

variable {entries : List FontEntry} {front : List Exchange} {waits : List EntryWait}

/-- A wait stands in a longer transcript where it stood in its end. -/
theorem StandsIn.after {wait : EntryWait}
    (h : w.StandsIn signal deadline (w.replay t front) log wait) :
    w.StandsIn signal deadline t (front ++ log) (wait.after front) where
  within := by
    rw [EntryWait.after, List.append_assoc]
    exact (List.prefix_append_right_inj front).mpr h.within
  goes := by
    rw [EntryWait.after, List.append_assoc, replay_append, replay_append]
    exact h.goes

/-- The waits of a call that starts by saying something else. -/
theorem WaitsOf.after (h : w.WaitsOf signal deadline entries (w.replay t front) log waits)
    (hfront : localityCount front = 0) :
    w.WaitsOf signal deadline entries t (front ++ log) (waits.map (·.after front)) where
  inOrder := by
    rw [List.map_map]
    exact h.inOrder
  standsIn := by
    rw [List.forall_mem_map]
    exact fun wait hwait => (h.standsIn wait hwait).after
  asked := by
    rw [localityCount_append, hfront, Nat.zero_add, h.asked, List.map_map]
    rfl

/-- The waits of a call that starts with a wait. -/
theorem WaitsOf.cons {entry : FontEntry} {waited quiet : List Exchange} {outcome : WaitOutcome}
    (hwait : w.Waits signal deadline entry.file t waited outcome (w.replay t waited))
    (hquiet : localityCount quiet = 0)
    (h : w.WaitsOf signal deadline entries (w.replay t (waited ++ quiet)) log waits) :
    w.WaitsOf signal deadline (entry :: entries) t (waited ++ quiet ++ log)
      (⟨entry, [], waited, outcome⟩ :: waits.map (·.after (waited ++ quiet))) where
  inOrder := by
    rw [List.map_cons, List.map_map]
    exact (List.prefix_cons_inj entry).mpr h.inOrder
  standsIn := by
    rw [List.forall_mem_cons, List.forall_mem_map]
    refine ⟨⟨?_, hwait⟩, fun wait hmem => (h.standsIn wait hmem).after⟩
    rw [List.append_assoc]
    exact List.prefix_append _ _
  asked := by
    rw [localityCount_append, localityCount_append, hquiet, h.asked, List.map_cons, List.sum_cons,
      List.map_map]
    rfl

/-- A call for no entries has no waits. -/
theorem waitsOf_nil (h : localityCount log = 0) : w.WaitsOf signal deadline entries t log [] :=
  ⟨List.nil_prefix, nofun, h⟩

theorem Requests.localityCount_eq {s s' : σ} {result : Except FontError Unit}
    (h : w.Requests entries s log result s') : localityCount log = 0 := by
  induction h with
  | nil | refused => rfl
  | granted _ _ ih => exact ih

theorem Visits.exists_waitsOf {index : Nat} {lines : Option (List String)}
    (h : w.Visits signal deadline index entries t log lines t') :
    ∃ waits, w.WaitsOf signal deadline entries t log waits := by
  induction h with
  | nil => exact ⟨_, waitsOf_nil rfl⟩
  | @missing index entry entries t t₁ waited outcome hwait _ =>
    have hrest : w.WaitsOf signal deadline entries (w.replay t (waited ++ [])) [] [] :=
      waitsOf_nil rfl
    rw [← hwait.replay_eq] at hwait
    have hwaits := WaitsOf.cons hwait rfl hrest
    rw [List.append_nil, List.append_nil] at hwaits
    exact ⟨_, hwaits⟩
  | @unreadable index entry entries t t₁ waited source s error hwait _ _ =>
    have hrest : w.WaitsOf signal deadline entries
        (w.replay t (waited ++ [entry.file.dataIs source])) [] [] := waitsOf_nil rfl
    rw [← hwait.replay_eq] at hwait
    have hwaits := WaitsOf.cons hwait rfl hrest
    rw [List.append_nil] at hwaits
    exact ⟨_, hwaits⟩
  | @visited index entry entries t t₁ t₂ waited log source s face lines hwait hdata _ _ ih =>
    obtain ⟨waits, hwaits⟩ := ih
    have hthere : w.replay t (waited ++ [entry.file.dataIs source]) = ⟨s, t₁.now⟩ := by
      rw [replay_append, hwait.replay_eq, replay_cons, FontFile.dataIs, follow, hdata, replay_nil]
    rw [← hthere] at hwaits
    rw [← hwait.replay_eq] at hwait
    have hall := WaitsOf.cons hwait rfl hwaits
    rw [← List.append_cons] at hall
    exact ⟨_, hall⟩

/-- **Every call has its waits.** -/
theorem Tells.exists_waitsOf {told : List String}
    (h : w.Tells signal deadline entries t log told t') :
    ∃ waits, w.WaitsOf signal deadline entries t log waits := by
  cases h with
  | stopped => exact ⟨_, waitsOf_nil rfl⟩
  | refused _ hrequests => exact ⟨_, waitsOf_nil hrequests.localityCount_eq⟩
  | told _ hrequests hvisits =>
    obtain ⟨waits, hwaits⟩ := hvisits.exists_waitsOf
    rw [← hrequests.replay_eq t.now] at hwaits
    exact ⟨_, hwaits.after hrequests.localityCount_eq⟩

/-- The locality is asked for once for each pause, and once more for each
entry. -/
theorem Visits.localityCount_le {index : Nat} {lines : Option (List String)}
    (h : w.Visits signal deadline index entries t log lines t') :
    localityCount log ≤ pauseCount log + entries.length := by
  induction h with
  | nil => exact Nat.le_refl 0
  | @missing index entry entries t t₁ waited outcome hwait _ =>
    have hwaited := hwait.localityCount_le
    rw [List.length_cons]
    omega
  | @unreadable index entry entries t t₁ waited source s error hwait _ _ =>
    have hwaited := hwait.localityCount_le
    have hlocality : localityCount [entry.file.dataIs source] = 0 := rfl
    rw [localityCount_append, pauseCount_append, List.length_cons]
    omega
  | @visited index entry entries t t₁ t₂ waited log source s face lines hwait _ _ _ ih =>
    have hwaited := hwait.localityCount_le
    have hlocality : localityCount (entry.file.dataIs source :: log) = localityCount log := rfl
    have hpause : pauseCount (entry.file.dataIs source :: log) = pauseCount log := rfl
    rw [localityCount_append, pauseCount_append, List.length_cons]
    omega

theorem Tells.localityCount_le {told : List String}
    (h : w.Tells signal deadline entries t log told t') :
    localityCount log ≤ pauseCount log + entries.length := by
  cases h with
  | stopped => exact Nat.zero_le _
  | refused _ hrequests =>
    rw [hrequests.localityCount_eq]
    exact Nat.zero_le _
  | told _ hrequests hvisits =>
    have hvisited := hvisits.localityCount_le
    rw [localityCount_append, pauseCount_append, hrequests.localityCount_eq]
    omega

/-- Where no pause is left, each wait has one question left at the most. -/
theorem StandsIn.localityCount_drop_le {wait : EntryWait}
    (h : w.StandsIn signal deadline t log wait) {k : Nat}
    (hquiet : ∀ length, .pause length ∉ log.drop k) :
    localityCount (wait.waited.drop (k - wait.before.length)) ≤ 1 := by
  obtain ⟨rest, hlog⟩ := h.within
  have hpauses : pauseCount (wait.waited.drop (k - wait.before.length)) = 0 := by
    refine List.countP_eq_zero.mpr fun e he hpause => ?_
    have hmem : e ∈ log.drop k := by
      rw [← hlog, List.append_assoc, List.drop_append, List.drop_append]
      exact List.mem_append_right _ (List.mem_append_left _ he)
    cases e with
    | pause length => exact hquiet length hmem
    | _ => exact Bool.false_ne_true hpause
  have hle := h.goes.localityCount_drop_le (k - wait.before.length)
  rw [hpauses] at hle
  exact hle

end WaitsOf

/-- Without a deadline no wait is too long. -/
theorem await_never_ne_timedOut (w : LoaderWorld σ) (signal : StopSignal σ) (file : FontFile)
    (pauses : Nat) (t : Timed σ) : (w.await signal file .never pauses t).1 ≠ .timedOut := by
  fun_induction w.await signal file .never pauses t with
  | case1 | case2 | case4 =>
    intro htimedOut
    cases htimedOut
  | case3 pauses t answer s hask asked hanswer hfired hpause => cases hpause
  | case5 _ _ _ _ _ _ _ _ _ ih => exact ih

end LoaderWorld

/-! ## The whole call -/

/-- **One deadline for a whole call.** Whatever the loaders do and whenever
the signal to stop fires, a call for details whose timeout ends at an
instant that the clock can name ends itself, and so does each of its waits,
with every number of pauses that is not too small. Its transcript tells how.

All pauses together are no longer than the timeout, each is positive and no
longer than the interval, and there are no more questions for localities
than entries and full intervals, the last one begun. A wait that was too
long has reached the deadline and was told last that the data is not there;
a wait whose data arrived was told last that it is. If the signal stays
fired, then from where it has fired there is no pause any more, and each
wait asks once more at the most.

With a timeout that ends behind the clock's last instant no wait is ever
too long. -/
theorem Catalog.details_within_deadline {σ : Type} (w : LoaderWorld σ) (signal : StopSignal σ)
    (timeout : Duration) (c : Catalog) (t : Timed σ) :
    (t.now + timeout < Instant.beyond → ∃ lines t' log waits,
      (c.inWorld w).Tells signal (.until (t.now + timeout)) c.entries t log lines t' ∧
      (∀ patience, c.details w signal timeout patience t = (lines, t')) ∧
      (∀ patience, (c.inWorld w).transcribed.details (signal ∘ Prod.fst) timeout patience
          c.entries (t.noting []) = (lines, t'.noting log)) ∧
      t'.now = t.now + pauseTime log ∧ pauseTime log ≤ timeout ∧
      (∀ length, .pause length ∈ log → 0 < length ∧ length ≤ Duration.pollInterval) ∧
      localityCount log
        ≤ c.fontCount + (timeout + Duration.pollInterval - 1) / Duration.pollInterval ∧
      (c.inWorld w).WaitsOf signal (.until (t.now + timeout)) c.entries t log waits ∧
      (∀ wait ∈ waits, ∀ start stop, (c.inWorld w).replay t wait.before = start →
        (c.inWorld w).replay t (wait.before ++ wait.waited) = stop →
        (∀ pauses, pauseCount wait.waited ≤ pauses → (c.inWorld w).await signal wait.entry.file
          (.until (t.now + timeout)) pauses start = (wait.outcome, stop)) ∧
        wait.outcome ≠ .exhausted ∧
        (wait.outcome = .timedOut → t.now + timeout ≤ stop.now ∧ ∃ earlier answer,
          answer ≠ .present ∧ wait.waited = earlier ++ [wait.entry.file.localityIs answer]) ∧
        (wait.outcome = .arrived →
          ∃ earlier, wait.waited = earlier ++ [wait.entry.file.localityIs .present])) ∧
      (signal.Latched w → ∀ k, signal ((c.inWorld w).replay t (log.take k)).world = true →
        (∀ length, .pause length ∉ log.drop k) ∧
        ∀ wait ∈ waits, localityCount (wait.waited.drop (k - wait.before.length)) ≤ 1)) ∧
    (Instant.beyond ≤ t.now + timeout → ∀ file pauses start,
      ((c.inWorld w).await signal file (Deadline.after t.now timeout) pauses start).1
        ≠ .timedOut) := by
  refine ⟨fun hnamed => ?_, fun hbeyond file pauses start => ?_⟩
  · have hdeadline : Deadline.after t.now timeout = .until (t.now + timeout) := if_pos hnamed
    obtain ⟨log, lines, t', htells⟩ :=
      (c.inWorld w).exists_tells signal (t.now + timeout) c.entries t
    obtain ⟨waits, hwaits⟩ := htells.exists_waitsOf
    have hafter : (c.inWorld w).Tells signal (Deadline.after t.now timeout) c.entries t log lines
        t' := hdeadline.symm ▸ htells
    have hends : ∀ patience, Deadline.after t.now timeout = .never → pauseCount log ≤ patience :=
      fun _ hnever => absurd (hdeadline.symm.trans hnever) nofun
    have hpaced := htells.paced
    have hend : (c.inWorld w).replay t log = t' := htells.replay_eq
    have hnow : t'.now = t.now + pauseTime log := hend ▸ LoaderWorld.now_replay
    have htime : t.now + pauseTime log ≤ t.now + timeout :=
      hnow ▸ hend ▸ hpaced.now_replay_le (Nat.le_add_right _ _)
    have hcount : pauseCount log
        ≤ (timeout + Duration.pollInterval - 1) / Duration.pollInterval := by
      have hfits := hpaced.pauseCount_add 0
      rw [Deadline.pauses, Deadline.pauses, Nat.add_sub_cancel_left] at hfits
      exact hfits ▸ Nat.le_add_right _ _
    refine ⟨lines, t', log, waits, htells, fun patience => hafter.details_eq (hends patience),
      fun patience => hafter.transcribed.details_eq (hends patience), hnow,
      Nat.le_of_add_le_add_left htime, fun length => hpaced.bounds, ?_, hwaits, ?_, ?_⟩
    · rw [Nat.add_comm]
      exact Nat.le_trans htells.localityCount_le (Nat.add_le_add_right hcount _)
    · rintro wait hwait start stop rfl rfl
      have hgoes := (hwaits.standsIn wait hwait).goes
      refine ⟨fun pauses => hgoes.await_eq, hgoes.ne_exhausted, fun houtcome => ?_,
        fun houtcome => (houtcome ▸ hgoes).eq_append_of_arrived⟩
      obtain ⟨hpause, hasked⟩ := (houtcome ▸ hgoes).of_timedOut
      exact ⟨Deadline.pause?_until_eq_none_iff.mp hpause, hasked⟩
    · intro hlatched k hfired
      have hquiet := (hlatched.withMemory c.memoryLoader).pause_notMem_drop hpaced hfired
      exact ⟨hquiet, fun wait hwait => (hwaits.standsIn wait hwait).localityCount_drop_le hquiet⟩
  · rw [show Deadline.after t.now timeout = .never from if_neg (Nat.not_lt.mpr hbeyond)]
    exact LoaderWorld.await_never_ne_timedOut _ signal file pauses start

/-- Two remote fonts and a timeout of 50 ms. The first font is there when it
is asked for the second time, and the second never. The call takes the whole
timeout and asks five times, which is as often as it may. -/
theorem Catalog.details_within_deadline_of_two_remote :
    ∃ (c : Catalog) (t : Timed Shelf) (told : List String) (t' : Timed Shelf)
      (log : List Exchange) (waits : List EntryWait),
      c.fontCount = 2 ∧ StopSignal.Latched Shelf.stopped Shelf.world ∧
      t.now + Duration.ofMillis 50 < Instant.beyond ∧
      (c.inWorld Shelf.world).Tells Shelf.stopped (.until (t.now + Duration.ofMillis 50))
        c.entries t log told t' ∧
      told = [] ∧ t'.now = t.now + Duration.ofMillis 50 ∧
      pauseTime log = Duration.ofMillis 50 ∧ localityCount log = 5 ∧
      (Duration.ofMillis 50 + Duration.pollInterval - 1) / Duration.pollInterval = 3 ∧
      (c.inWorld Shelf.world).WaitsOf Shelf.stopped (.until (t.now + Duration.ofMillis 50))
        c.entries t log waits := by
  let remote (presentAfter : Option Nat) : ScriptedFile :=
    ⟨[0, 1, 0, 0, 0, 0, 0, 0, 0, 0, 0, 0], none, .remote, none, presentAfter, none, .whenPresent,
      0, 0⟩
  let entry (key : UInt32) : FontEntry := .anonymous ⟨.outside 0, ⟨key⟩, "remote"⟩
  let c : Catalog :=
    ⟨⟨true, [.outside 0], []⟩, "en-US", none, [.outside 0], some ⟨[entry 0, entry 1]⟩⟩
  let t : Timed Shelf := ⟨⟨[.scripted [remote (some 1), remote none]], false⟩, 7⟩
  have hnamed : t.now + Duration.ofMillis 50 < Instant.beyond := by decide
  obtain ⟨told, t', log, waits, htells, hrun, hscript, hnow, -, -, -, hwaits, -⟩ :=
    (c.details_within_deadline Shelf.world Shelf.stopped (Duration.ofMillis 50) t).1 hnamed
  have htold : (c.details Shelf.world Shelf.stopped (Duration.ofMillis 50) 0 t).1 = [] := by
    decide +kernel
  have htime : (c.details Shelf.world Shelf.stopped (Duration.ofMillis 50) 0 t).2.now
      = t.now + Duration.ofMillis 50 := by
    decide +kernel
  have hasked : localityCount ((c.inWorld Shelf.world).transcribed.details
      (Shelf.stopped ∘ Prod.fst) (Duration.ofMillis 50) 0 c.entries (t.noting [])).2.world.2
      = 5 := by
    decide +kernel
  rw [hrun 0] at htold htime
  rw [hscript 0] at hasked
  exact ⟨c, t, told, t', log, waits, rfl, Shelf.latched_stopped, hnamed, htells, htold, htime,
    Nat.add_left_cancel (hnow.symm.trans htime), hasked, by decide, hwaits⟩

end FontCatalog
