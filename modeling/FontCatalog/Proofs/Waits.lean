import FontCatalog.Proofs.Conversations
import Mathlib.Algebra.Ring.Nat

/-!
# Calls for details as they go

A wait has no bound of its own: it asks, and pauses, and asks again. The
function `LoaderWorld.await` is given the number of pauses that it may
make, and to speak of a wait that *ends* that number has to go. Here a wait
is a relation, `LoaderWorld.Waits`, with one rule for each way in which a
question can turn out and no number of pauses, so a derivation is a wait
that has ended. Requests, visits and whole calls are relations of the same
kind (`LoaderWorld.Requests`, `LoaderWorld.Visits`, `LoaderWorld.Tells`).
Each carries the transcript of what was said.

The relations and the functions say the same. What a function computes
without running out of pauses is derivable
(`LoaderWorld.tells_of_details`), and what is derivable is computed with
any number of pauses that is enough (`LoaderWorld.Tells.details_eq`). A
pause is made only where the deadline leaves room for it
(`LoaderWorld.Paced`), so before a deadline a fixed number is always enough,
and every call ends (`LoaderWorld.exists_tells`).

A derivation in a world is a derivation in the world that writes its
transcript down (`LoaderWorld.Tells.transcribed`), so the transcript of the
derivation is the one that is written. And a transcript says where it
leads: replaying it from the start gives the end (`LoaderWorld.replay`).
-/

namespace FontCatalog

namespace Exchange

/-- How long an exchange takes. Only pauses take time. -/
def duration : Exchange → Duration
  | pause length => length
  | _ => 0

/-- Whether an exchange is a pause. -/
def isPause : Exchange → Bool
  | pause _ => true
  | _ => false

/-- Whether an exchange is a question for the locality of a file. -/
def isLocality : Exchange → Bool
  | locality .. => true
  | _ => false

end Exchange

/-- **The pauses of a transcript taken together.** -/
def pauseTime (log : List Exchange) : Duration := (log.map Exchange.duration).sum

/-- How many pauses there are in a transcript. -/
def pauseCount (log : List Exchange) : Nat := log.countP Exchange.isPause

/-- How often the locality of a file is asked for in a transcript. -/
def localityCount (log : List Exchange) : Nat := log.countP Exchange.isLocality

theorem pauseCount_append (log more : List Exchange) :
    pauseCount (log ++ more) = pauseCount log + pauseCount more := List.countP_append

/-- A question and a pause count as one pause. -/
theorem pauseCount_localityIs_pause (file : FontFile) (answer : Locality) (length : Nat)
    (log : List Exchange) :
    pauseCount (file.localityIs answer :: .pause length :: log) = pauseCount log + 1 := by
  rw [pauseCount, List.countP_cons_of_neg Bool.false_ne_true,
    List.countP_cons_of_pos rfl]
  rfl

theorem localityCount_append (log more : List Exchange) :
    localityCount (log ++ more) = localityCount log + localityCount more := List.countP_append

/-! ## Deadlines -/

namespace Deadline

variable {instant now : Instant} {patience : Nat} {length : Duration}

/-- A deadline that is not reached leaves room for a pause. -/
theorem pause?_until_eq_none_iff : (Deadline.until instant).pause? now = none ↔ instant ≤ now := by
  rw [pause?]
  split
  · next h => exact iff_of_true rfl h
  · next h => exact iff_of_false (Option.some_ne_none _) h

/-- What a pause before a deadline is: a full one, or what is left. -/
theorem length_of_pause? (h : (Deadline.until instant).pause? now = some length) :
    now < instant ∧ (length = Duration.pollInterval ∧ now + Duration.pollInterval ≤ instant ∨
      now + length = instant ∧ instant - now ≤ Duration.pollInterval) := by
  rw [pause?] at h
  split at h
  · cases h
  · next hlate =>
    obtain rfl := Option.some.inj h
    have hlt : now < instant := Nat.lt_of_not_le hlate
    refine ⟨hlt, ?_⟩
    rcases Nat.le_total Duration.pollInterval (instant - now) with hfull | hlast
    · rw [Nat.min_eq_left hfull]
      exact Or.inl ⟨rfl, (Nat.le_sub_iff_add_le' (Nat.le_of_lt hlt)).mp hfull⟩
    · rw [Nat.min_eq_right hlast]
      exact Or.inr ⟨Nat.add_sub_cancel' (Nat.le_of_lt hlt), hlast⟩

/-- **A pause uses up one of the pauses that fit**, however short it is. -/
theorem pauses_add_one (h : (Deadline.until instant).pause? now = some length) :
    (Deadline.until instant).pauses patience (now + length) + 1
      = (Deadline.until instant).pauses patience now := by
  -- The arithmetic is that of plain numbers, with the interval as a numeral.
  have hfits : ∀ i n k : Nat, n < i → (k = 20000000 ∧ n + 20000000 ≤ i ∨
      n + k = i ∧ i - n ≤ 20000000) →
      (i - (n + k) + 20000000 - 1) / 20000000 + 1 = (i - n + 20000000 - 1) / 20000000 := by
    omega
  obtain ⟨hlt, hlength⟩ := length_of_pause? h
  exact hfits instant now length hlt hlength

/-- A pause does not go past the deadline. -/
theorem add_le_of_pause? (h : (Deadline.until instant).pause? now = some length) :
    now + length ≤ instant := by
  obtain ⟨-, ⟨rfl, hfull⟩ | ⟨hend, -⟩⟩ := length_of_pause? h
  · exact hfull
  · exact Nat.le_of_eq hend

end Deadline

namespace LoaderWorld

variable {σ : Type} (w : LoaderWorld σ)

/-! ## Where a transcript leads -/

/-- What an exchange leaves behind. -/
def follow (t : Timed σ) : Exchange → Timed σ
  | .locality id key _ => ⟨(w.locality id key t.world).2, t.now⟩
  | .request id key _ => ⟨(w.request id key t.world).2, t.now⟩
  | .data id key _ => ⟨(w.data id key t.world).2, t.now⟩
  | .pause length => ⟨w.pause length t.world, t.now + length⟩

/-- **Where a transcript leads**: every question is asked again, and every
pause made again. -/
def replay (t : Timed σ) (log : List Exchange) : Timed σ := log.foldl w.follow t

variable {w} {t t' : Timed σ} {log more : List Exchange}

@[simp] theorem replay_nil : w.replay t [] = t := rfl

@[simp] theorem replay_cons {e : Exchange} :
    w.replay t (e :: log) = w.replay (w.follow t e) log := rfl

theorem replay_append : w.replay t (log ++ more) = w.replay (w.replay t log) more :=
  List.foldl_append

/-- **Time passes in pauses only.** -/
theorem now_replay : (w.replay t log).now = t.now + pauseTime log := by
  induction log generalizing t with
  | nil => rfl
  | cons e log ih =>
    have hfollow : (w.follow t e).now = t.now + e.duration := by cases e <;> rfl
    rw [replay_cons, ih, hfollow, Nat.add_assoc]
    rfl

/-! ## The relations -/

variable (w) (signal : StopSignal σ) (deadline : Deadline)

/-- **A wait for the data of a file**, from its start to its end, with what
was said. -/
inductive Waits (file : FontFile) :
    Timed σ → List Exchange → WaitOutcome → Timed σ → Prop where
  /-- The data is there. -/
  | arrived {t : Timed σ} {s : σ} :
    w.locality file.loader file.key t.world = (.present, s) →
      Waits file t [file.localityIs .present] .arrived ⟨s, t.now⟩
  /-- The data is not there, and the signal to stop has fired. -/
  | stopped {t : Timed σ} {answer : Locality} {s : σ} :
    w.locality file.loader file.key t.world = (answer, s) → answer ≠ .present →
      signal s = true → Waits file t [file.localityIs answer] .stopped ⟨s, t.now⟩
  /-- The data is not there, and the deadline is reached. -/
  | timedOut {t : Timed σ} {answer : Locality} {s : σ} :
    w.locality file.loader file.key t.world = (answer, s) → answer ≠ .present →
      signal s = false → deadline.pause? t.now = none →
      Waits file t [file.localityIs answer] .timedOut ⟨s, t.now⟩
  /-- The data is not there, and after a pause the wait goes on. -/
  | paused {t t' : Timed σ} {answer : Locality} {s : σ} {length : Duration}
    {log : List Exchange} {outcome : WaitOutcome} :
    w.locality file.loader file.key t.world = (answer, s) → answer ≠ .present →
      signal s = false → deadline.pause? t.now = some length →
      Waits file ⟨w.pause length s, t.now + length⟩ log outcome t' →
      Waits file t (file.localityIs answer :: .pause length :: log) outcome t'

/-- **Requests for the data of entries**, up to the first refusal. -/
inductive Requests : List FontEntry → σ → List Exchange → Except FontError Unit → σ → Prop where
  /-- No more entries. -/
  | nil {s : σ} : Requests [] s [] (.ok ()) s
  /-- A request is granted. -/
  | granted {entry : FontEntry} {entries : List FontEntry} {s s₁ s₂ : σ} {log : List Exchange}
    {result : Except FontError Unit} :
    w.request entry.file.loader entry.file.key s = (.ok (), s₁) →
      Requests entries s₁ log result s₂ →
      Requests (entry :: entries) s (entry.file.requestIs (.ok ()) :: log) result s₂
  /-- A request is refused. -/
  | refused {entry : FontEntry} {entries : List FontEntry} {s s₁ : σ} {error : FontError} :
    w.request entry.file.loader entry.file.key s = (.error error, s₁) →
      Requests (entry :: entries) s [entry.file.requestIs (.error error)] (.error error) s₁

/-- **Visits to entries**, the first of which has the number `index`, and
the lines they give. -/
inductive Visits : Nat → List FontEntry → Timed σ → List Exchange → Option (List String) →
    Timed σ → Prop where
  /-- No more entries. -/
  | nil {index : Nat} {t : Timed σ} : Visits index [] t [] (some []) t
  /-- The data does not arrive. -/
  | missing {index : Nat} {entry : FontEntry} {entries : List FontEntry} {t t₁ : Timed σ}
    {waited : List Exchange} {outcome : WaitOutcome} :
    Waits w signal deadline entry.file t waited outcome t₁ → outcome ≠ .arrived →
      Visits index (entry :: entries) t waited none t₁
  /-- The data arrives, and is not the data of the entry. -/
  | unreadable {index : Nat} {entry : FontEntry} {entries : List FontEntry} {t t₁ : Timed σ}
    {waited : List Exchange} {source : Option FontSource} {s : σ} {error : FontError} :
    Waits w signal deadline entry.file t waited .arrived t₁ →
      w.data entry.file.loader entry.file.key t₁.world = (source, s) →
      entry.face source = .error error →
      Visits index (entry :: entries) t (waited ++ [entry.file.dataIs source]) none ⟨s, t₁.now⟩
  /-- The data arrives and gives a line, and the next entry is visited. -/
  | visited {index : Nat} {entry : FontEntry} {entries : List FontEntry} {t t₁ t₂ : Timed σ}
    {waited log : List Exchange} {source : Option FontSource} {s : σ} {face : FontFace}
    {lines : Option (List String)} :
    Waits w signal deadline entry.file t waited .arrived t₁ →
      w.data entry.file.loader entry.file.key t₁.world = (source, s) →
      entry.face source = .ok face →
      Visits (index + 1) entries ⟨s, t₁.now⟩ log lines t₂ →
      Visits index (entry :: entries) t (waited ++ entry.file.dataIs source :: log)
        (lines.map (detailLine index face :: ·)) t₂

/-- **A call for details**, and the lines it gives. -/
inductive Tells (entries : List FontEntry) (t : Timed σ) :
    List Exchange → List String → Timed σ → Prop where
  /-- The signal to stop had fired. -/
  | stopped : signal t.world = true → Tells entries t [] [] t
  /-- A request is refused. -/
  | refused {asked : List Exchange} {error : FontError} {s : σ} :
    signal t.world = false → Requests w entries t.world asked (.error error) s →
      Tells entries t asked [] ⟨s, t.now⟩
  /-- All data is requested, and the entries are visited. -/
  | told {asked visits : List Exchange} {lines : Option (List String)} {s : σ} {t' : Timed σ} :
    signal t.world = false → Requests w entries t.world asked (.ok ()) s →
      Visits w signal deadline 0 entries ⟨s, t.now⟩ visits lines t' →
      Tells entries t (asked ++ visits) (lines.getD []) t'

/-! ## What is certain of each pause -/

/-- **Each pause is one that may be made there**: the signal to stop is
silent, and the deadline leaves room for it. -/
def Paced : Timed σ → List Exchange → Prop
  | _, [] => True
  | t, e :: log =>
    (∀ length, e = .pause length →
      signal t.world = false ∧ deadline.pause? t.now = some length) ∧
      Paced (w.follow t e) log

variable {w signal deadline} {file : FontFile} {entries : List FontEntry} {index : Nat}
  {outcome : WaitOutcome} {result : Except FontError Unit} {lines : Option (List String)}
  {s s' : σ}

/-! ## The end is where the transcript leads -/

theorem Waits.replay_eq (h : w.Waits signal deadline file t log outcome t') :
    w.replay t log = t' := by
  induction h with
  | arrived hask => rw [replay_cons, FontFile.localityIs, follow, hask, replay_nil]
  | stopped hask => rw [replay_cons, FontFile.localityIs, follow, hask, replay_nil]
  | timedOut hask => rw [replay_cons, FontFile.localityIs, follow, hask, replay_nil]
  | paused hask _ _ _ _ ih =>
    rw [replay_cons, FontFile.localityIs, follow, hask, replay_cons, follow, ih]

theorem Requests.replay_eq (h : w.Requests entries s log result s') (now : Instant) :
    w.replay ⟨s, now⟩ log = ⟨s', now⟩ := by
  induction h with
  | nil => rfl
  | granted hask _ ih => rw [replay_cons, FontFile.requestIs, follow, hask, ih]
  | refused hask => rw [replay_cons, FontFile.requestIs, follow, hask, replay_nil]

theorem Visits.replay_eq (h : w.Visits signal deadline index entries t log lines t') :
    w.replay t log = t' := by
  induction h with
  | nil => rfl
  | missing hwait => exact hwait.replay_eq
  | unreadable hwait hdata =>
    rw [replay_append, hwait.replay_eq, replay_cons, FontFile.dataIs, follow, hdata, replay_nil]
  | visited hwait hdata _ _ ih =>
    rw [replay_append, hwait.replay_eq, replay_cons, FontFile.dataIs, follow, hdata, ih]

/-- **The end of a call is where its transcript leads.** -/
theorem Tells.replay_eq {told : List String}
    (h : w.Tells signal deadline entries t log told t') : w.replay t log = t' := by
  cases h with
  | stopped => rfl
  | refused _ hrequests => exact hrequests.replay_eq t.now
  | told _ hrequests hvisits => rw [replay_append, hrequests.replay_eq, hvisits.replay_eq]

/-! ## Pauses -/

/-- What is no pause is paced wherever it stands. -/
theorem Paced.cons_question {e : Exchange} (h : w.Paced signal deadline (w.follow t e) log)
    (he : e.isPause = false) : w.Paced signal deadline t (e :: log) :=
  ⟨fun length hlength => (by rw [hlength] at he; cases he), h⟩

theorem Waits.paced (h : w.Waits signal deadline file t log outcome t') :
    w.Paced signal deadline t log := by
  induction h with
  | arrived | stopped | timedOut => exact Paced.cons_question trivial rfl
  | @paused t t' answer s length log outcome hask _ hfired hpause _ ih =>
    have hasked : w.follow t (file.localityIs answer) = ⟨s, t.now⟩ := by
      rw [FontFile.localityIs, follow, hask]
    refine Paced.cons_question ?_ rfl
    rw [hasked]
    refine ⟨fun length' hlength => ?_, ih⟩
    obtain rfl := Exchange.pause.inj hlength
    exact ⟨hfired, hpause⟩

/-- **The pauses use up those that fit** before the deadline, one for one. -/
theorem Paced.pauseCount_add {instant : Instant}
    (h : w.Paced signal (.until instant) t log) (patience : Nat) :
    pauseCount log + (Deadline.until instant).pauses patience (w.replay t log).now
      = (Deadline.until instant).pauses patience t.now := by
  induction log generalizing t with
  | nil => exact Nat.zero_add _
  | cons e log ih =>
    cases e with
    | pause length =>
      have hcount : pauseCount (.pause length :: log) = pauseCount log + 1 :=
        List.countP_cons_of_pos rfl
      rw [hcount, replay_cons, Nat.add_right_comm, ih h.2]
      exact Deadline.pauses_add_one (h.1 length rfl).2
    | _ =>
      rw [pauseCount, List.countP_cons_of_neg Bool.false_ne_true]
      exact ih h.2

/-! ## Derivations in a world that keeps a transcript -/

theorem Waits.transcribed (h : w.Waits signal deadline file t log outcome t')
    (earlier : List Exchange) :
    w.transcribed.Waits (signal ∘ Prod.fst) deadline file (t.noting earlier) log outcome
      (t'.noting (earlier ++ log)) := by
  induction h generalizing earlier with
  | arrived hask => exact Waits.arrived (locality_transcribed hask earlier)
  | stopped hask hanswer hfired =>
    exact Waits.stopped (locality_transcribed hask earlier) hanswer hfired
  | timedOut hask hanswer hfired hpause =>
    exact Waits.timedOut (locality_transcribed hask earlier) hanswer hfired hpause
  | @paused t t' answer s length log outcome hask hanswer hfired hpause _ ih =>
    have hrest := ih (earlier ++ [file.localityIs answer] ++ [.pause length])
    have hlog : earlier ++ [file.localityIs answer] ++ [.pause length] ++ log
        = earlier ++ file.localityIs answer :: .pause length :: log := by
      rw [List.append_assoc, List.append_assoc]
      rfl
    rw [hlog] at hrest
    exact Waits.paused (locality_transcribed hask earlier) hanswer hfired hpause hrest

theorem Requests.transcribed (h : w.Requests entries s log result s')
    (earlier : List Exchange) :
    w.transcribed.Requests entries (s, earlier) log result (s', earlier ++ log) := by
  induction h generalizing earlier with
  | nil =>
    rw [List.append_nil]
    exact Requests.nil
  | @granted entry entries s s₁ s₂ log result hask _ ih =>
    have hrest := ih (earlier ++ [entry.file.requestIs (.ok ())])
    rw [← List.append_cons] at hrest
    exact Requests.granted (request_transcribed hask earlier) hrest
  | refused hask => exact Requests.refused (request_transcribed hask earlier)

/-- The data that is asked for in a world with a transcript. -/
theorem data_transcribed {id : LoaderId} {key : FileKey} {source : Option FontSource}
    (h : w.data id key s = (source, s')) (earlier : List Exchange) :
    w.transcribed.data id key (s, earlier) = (source, s', earlier ++ [.data id key source]) := by
  show ((w.data id key s).1, _, earlier ++ [.data id key (w.data id key s).1]) = _
  rw [h]

theorem Visits.transcribed (h : w.Visits signal deadline index entries t log lines t')
    (earlier : List Exchange) :
    w.transcribed.Visits (signal ∘ Prod.fst) deadline index entries (t.noting earlier) log lines
      (t'.noting (earlier ++ log)) := by
  induction h generalizing earlier with
  | nil =>
    rw [List.append_nil]
    exact Visits.nil
  | missing hwait houtcome => exact Visits.missing (hwait.transcribed earlier) houtcome
  | @unreadable index entry entries t t₁ waited source s error hwait hdata hface =>
    rw [← List.append_assoc]
    exact Visits.unreadable (hwait.transcribed earlier)
      (data_transcribed hdata (earlier ++ waited)) hface
  | @visited index entry entries t t₁ t₂ waited log source s face lines hwait hdata hface _ ih =>
    have hrest := ih (earlier ++ waited ++ [entry.file.dataIs source])
    rw [← List.append_cons, List.append_assoc earlier waited (_ :: log)] at hrest
    exact Visits.visited (hwait.transcribed earlier)
      (data_transcribed hdata (earlier ++ waited)) hface hrest

/-- **A call is the same call in a world that keeps a transcript**, and the
transcript is the one of the call. -/
theorem Tells.transcribed {told : List String}
    (h : w.Tells signal deadline entries t log told t') :
    w.transcribed.Tells (signal ∘ Prod.fst) deadline entries (t.noting []) log told
      (t'.noting log) := by
  cases h with
  | stopped hfired => exact Tells.stopped hfired
  | refused hfired hrequests => exact Tells.refused hfired (hrequests.transcribed [])
  | @told asked visits lines s t' hfired hrequests hvisits =>
    exact Tells.told hfired (hrequests.transcribed []) (hvisits.transcribed asked)

/-! ## What is derivable is computed -/

/-- A wait is computed with as many pauses as it has. -/
theorem Waits.await_eq (h : w.Waits signal deadline file t log outcome t') {pauses : Nat}
    (hpauses : pauseCount log ≤ pauses) :
    w.await signal file deadline pauses t = (outcome, t') := by
  induction h generalizing pauses with
  | arrived hask =>
    rw [await, hask]
    exact if_pos rfl
  | stopped hask hanswer hfired =>
    rw [await, hask]
    dsimp only
    rw [if_neg hanswer, if_pos hfired]
  | timedOut hask hanswer hfired hpause =>
    rw [await, hask]
    dsimp only
    rw [if_neg hanswer, if_neg (Bool.eq_false_iff.mp hfired), hpause]
  | @paused t t' answer s length log outcome hask hanswer hfired hpause _ ih =>
    -- The first pause is paid for, and the rest of the wait with what is left.
    rw [pauseCount_localityIs_pause] at hpauses
    obtain ⟨left, rfl⟩ : ∃ left, pauses = left + 1 :=
      Nat.exists_eq_succ_of_ne_zero (Nat.ne_of_gt (Nat.lt_of_lt_of_le (Nat.succ_pos _) hpauses))
    rw [await, hask]
    dsimp only
    rw [if_neg hanswer, if_neg (Bool.eq_false_iff.mp hfired), hpause]
    exact ih (Nat.le_of_succ_le_succ hpauses)

/-- Requests are computed as they go. -/
theorem Requests.requestAll_eq (h : w.Requests entries s log result s') :
    w.requestAll entries s = (result, s') := by
  induction h with
  | nil => rfl
  | granted hask _ ih =>
    rw [requestAll, hask]
    exact ih
  | refused hask => rw [requestAll, hask]

/-- The pauses that a call may make are enough for a wait, if without a
deadline there is patience for them. -/
theorem Waits.pauseCount_le (h : w.Waits signal deadline file t log outcome t') {patience : Nat}
    (hpatience : deadline = .never → pauseCount log ≤ patience) :
    pauseCount log ≤ deadline.pauses patience t.now := by
  cases deadline with
  | «until» instant =>
    rw [← h.paced.pauseCount_add patience]
    exact Nat.le_add_right _ _
  | never => exact hpatience rfl

/-- Visits are computed, if without a deadline there is patience for their
pauses. -/
theorem Visits.awaitLines_eq (h : w.Visits signal deadline index entries t log lines t')
    {patience : Nat} (hpatience : deadline = .never → pauseCount log ≤ patience) :
    w.awaitLines signal deadline patience index entries t = (lines, t') := by
  induction h with
  | nil => rfl
  | @missing index entry entries t t₁ waited outcome hwait houtcome =>
    rw [awaitLines, hwait.await_eq (hwait.pauseCount_le hpatience)]
    cases outcome with
    | arrived => exact absurd rfl houtcome
    | _ => rfl
  | @unreadable index entry entries t t₁ waited source s error hwait hdata hface =>
    have hwaited : deadline = .never → pauseCount waited ≤ patience := fun hnever =>
      Nat.le_trans (pauseCount_append waited _ ▸ Nat.le_add_right _ _) (hpatience hnever)
    rw [awaitLines, hwait.await_eq (hwait.pauseCount_le hwaited)]
    dsimp only
    rw [readFace, hdata]
    dsimp only
    rw [hface]
  | @visited index entry entries t t₁ t₂ waited log source s face lines hwait hdata hface _ ih =>
    have hcount : pauseCount (waited ++ entry.file.dataIs source :: log)
        = pauseCount waited + pauseCount log := pauseCount_append waited _
    rw [hcount] at hpatience
    have hwaited : deadline = .never → pauseCount waited ≤ patience := fun hnever =>
      Nat.le_trans (Nat.le_add_right _ _) (hpatience hnever)
    have hrest : deadline = .never → pauseCount log ≤ patience := fun hnever =>
      Nat.le_trans (Nat.le_add_left _ _) (hpatience hnever)
    rw [awaitLines, hwait.await_eq (hwait.pauseCount_le hwaited)]
    dsimp only
    rw [readFace, hdata]
    dsimp only
    rw [hface]
    dsimp only
    rw [ih hrest]
    cases lines <;> rfl

/-- **A call is computed as it goes**, if without a deadline there is
patience for its pauses. -/
theorem Tells.details_eq {timeout : Duration} {told : List String}
    (h : w.Tells signal (Deadline.after t.now timeout) entries t log told t') {patience : Nat}
    (hpatience : Deadline.after t.now timeout = .never → pauseCount log ≤ patience) :
    w.details signal timeout patience entries t = (told, t') := by
  cases h with
  | stopped hfired => rw [details, if_pos hfired]
  | refused hfired hrequests =>
    rw [details, if_neg (Bool.eq_false_iff.mp hfired), hrequests.requestAll_eq]
  | @told asked visits lines s t' hfired hrequests hvisits =>
    have hvisited : Deadline.after t.now timeout = .never → pauseCount visits ≤ patience :=
      fun hnever => Nat.le_trans (pauseCount_append asked visits ▸ Nat.le_add_left _ _)
        (hpatience hnever)
    rw [details, if_neg (Bool.eq_false_iff.mp hfired), hrequests.requestAll_eq]
    dsimp only
    rw [hvisits.awaitLines_eq hvisited]

/-! ## What is computed is derivable -/

/-- A wait that did not run out of pauses is a wait that ended. -/
theorem waits_of_await {pauses : Nat}
    (h : w.await signal file deadline pauses t = (outcome, t')) (houtcome : outcome ≠ .exhausted) :
    ∃ log, w.Waits signal deadline file t log outcome t' := by
  fun_induction w.await signal file deadline pauses t with
  | case1 pauses t s asked hask =>
    obtain ⟨rfl, rfl⟩ := Prod.mk.inj h
    exact ⟨_, Waits.arrived hask⟩
  | case2 pauses t answer s hask asked hanswer hfired =>
    obtain ⟨rfl, rfl⟩ := Prod.mk.inj h
    exact ⟨_, Waits.stopped hask hanswer hfired⟩
  | case3 pauses t answer s hask asked hanswer hfired hpause =>
    obtain ⟨rfl, rfl⟩ := Prod.mk.inj h
    exact ⟨_, Waits.timedOut hask hanswer (Bool.eq_false_iff.mpr hfired) hpause⟩
  | case4 t answer s hask asked hanswer hfired length hpause =>
    exact absurd (Prod.mk.inj h).1.symm houtcome
  | case5 t answer s hask hanswer hfired length hpause pauses ih =>
    obtain ⟨log, hrest⟩ := ih h
    exact ⟨_, Waits.paused hask hanswer (Bool.eq_false_iff.mpr hfired) hpause hrest⟩

/-- Every way of requesting goes as it is computed. -/
theorem requests_of_requestAll (h : w.requestAll entries s = (result, s')) :
    ∃ log, w.Requests entries s log result s' := by
  fun_induction w.requestAll entries s with
  | case1 s =>
    obtain ⟨rfl, rfl⟩ := Prod.mk.inj h
    exact ⟨_, Requests.nil⟩
  | case2 entry entries s s₁ hask ih =>
    obtain ⟨log, hrest⟩ := ih h
    exact ⟨_, Requests.granted hask hrest⟩
  | case3 entry entries s error s₁ hask =>
    obtain ⟨rfl, rfl⟩ := Prod.mk.inj h
    exact ⟨_, Requests.refused hask⟩

/-- Visits that gave lines ended. -/
theorem visits_of_awaitLines {patience : Nat} {told : List String}
    (h : w.awaitLines signal deadline patience index entries t = (some told, t')) :
    ∃ log, w.Visits signal deadline index entries t log (some told) t' := by
  fun_induction w.awaitLines signal deadline patience index entries t generalizing told with
  | case1 index t =>
    obtain ⟨htold, rfl⟩ := Prod.mk.inj h
    obtain rfl := Option.some.inj htold
    exact ⟨_, Visits.nil⟩
  | case2 index entry entries t t₁ hawait error s hread => cases (Prod.mk.inj h).1
  | case3 index entry entries t t₁ hawait face s hread t₂ hlines ih => cases (Prod.mk.inj h).1
  | case4 index entry entries t t₁ hawait face s hread lines t₂ hlines ih =>
    obtain ⟨htold, rfl⟩ := Prod.mk.inj h
    obtain rfl := Option.some.inj htold
    obtain ⟨waited, hwait⟩ := waits_of_await hawait (by decide)
    obtain ⟨log, hrest⟩ := ih hlines
    obtain ⟨hface, rfl⟩ := Prod.mk.inj hread
    exact ⟨_, Visits.visited hwait rfl hface hrest⟩
  | case5 index entry entries t outcome t₁ hgiven hawait => cases (Prod.mk.inj h).1

/-- **A call that gave lines ended.** -/
theorem tells_of_details {timeout : Duration} {patience : Nat} {told : List String}
    (h : w.details signal timeout patience entries t = (told, t')) (htold : told ≠ []) :
    ∃ log, w.Tells signal (Deadline.after t.now timeout) entries t log told t' := by
  rw [details] at h
  split at h
  · exact absurd (Prod.mk.inj h).1.symm htold
  · next hfired =>
    split at h
    · exact absurd (Prod.mk.inj h).1.symm htold
    · next s hrequests =>
      cases hlines : w.awaitLines signal (Deadline.after t.now timeout) patience 0 entries
          ⟨s, t.now⟩ with
      | mk lines t₁ =>
        dsimp only at h
        rw [hlines] at h
        obtain ⟨rfl, rfl⟩ := Prod.mk.inj h
        cases lines with
        | none => exact absurd rfl htold
        | some lines =>
          obtain ⟨asked, hasked⟩ := requests_of_requestAll hrequests
          obtain ⟨visits, hvisits⟩ := visits_of_awaitLines hlines
          exact ⟨_, Tells.told (Bool.eq_false_iff.mpr hfired) hasked hvisits⟩

/-! ## Before a deadline every call ends -/

/-- Before a deadline every wait ends, since each pause uses up one of those
that fit. -/
theorem exists_waits (w : LoaderWorld σ) (signal : StopSignal σ) (instant : Instant)
    (file : FontFile) (t : Timed σ) :
    ∃ log outcome t', w.Waits signal (.until instant) file t log outcome t' := by
  -- The induction is on the number of pauses that fit.
  induction hfit : (Deadline.until instant).pauses 0 t.now using Nat.strongRecOn
    generalizing t with
  | _ fit ih =>
  cases hask : w.locality file.loader file.key t.world with
  | mk answer s =>
    by_cases hanswer : answer = .present
    · subst hanswer
      exact ⟨_, _, _, Waits.arrived hask⟩
    by_cases hfired : signal s = true
    · exact ⟨_, _, _, Waits.stopped hask hanswer hfired⟩
    cases hpause : (Deadline.until instant).pause? t.now with
    | none => exact ⟨_, _, _, Waits.timedOut hask hanswer (Bool.eq_false_iff.mpr hfired) hpause⟩
    | some length =>
      have hless : (Deadline.until instant).pauses 0 (t.now + length) < fit := by
        rw [← hfit, ← Deadline.pauses_add_one hpause]
        exact Nat.lt_succ_self _
      obtain ⟨log, outcome, t', hrest⟩ := ih _ hless ⟨w.pause length s, t.now + length⟩ rfl
      exact ⟨_, _, _, Waits.paused hask hanswer (Bool.eq_false_iff.mpr hfired) hpause hrest⟩

/-- Before a deadline all visits end. -/
theorem exists_visits (w : LoaderWorld σ) (signal : StopSignal σ) (instant : Instant)
    (index : Nat) (entries : List FontEntry) (t : Timed σ) :
    ∃ log lines t', w.Visits signal (.until instant) index entries t log lines t' := by
  induction entries generalizing index t with
  | nil => exact ⟨_, _, _, Visits.nil⟩
  | cons entry entries ih =>
    obtain ⟨waited, outcome, t₁, hwait⟩ := exists_waits w signal instant entry.file t
    by_cases houtcome : outcome = .arrived
    · subst houtcome
      cases hdata : w.data entry.file.loader entry.file.key t₁.world with
      | mk source s =>
        cases hface : entry.face source with
        | error error => exact ⟨_, _, _, Visits.unreadable hwait hdata hface⟩
        | ok face =>
          obtain ⟨log, lines, t₂, hrest⟩ := ih (index + 1) ⟨s, t₁.now⟩
          exact ⟨_, _, _, Visits.visited hwait hdata hface hrest⟩
    · exact ⟨_, _, _, Visits.missing hwait houtcome⟩

/-- **Before a deadline every call ends.** -/
theorem exists_tells (w : LoaderWorld σ) (signal : StopSignal σ) (instant : Instant)
    (entries : List FontEntry) (t : Timed σ) :
    ∃ log told t', w.Tells signal (.until instant) entries t log told t' := by
  by_cases hfired : signal t.world = true
  · exact ⟨_, _, _, Tells.stopped hfired⟩
  have hsilent : signal t.world = false := Bool.eq_false_iff.mpr hfired
  cases hrequest : w.requestAll entries t.world with
  | mk result s =>
    obtain ⟨asked, hasked⟩ := requests_of_requestAll hrequest
    cases result with
    | error error => exact ⟨_, _, _, Tells.refused hsilent hasked⟩
    | ok =>
      obtain ⟨log, lines, t', hvisits⟩ := exists_visits w signal instant 0 entries ⟨s, t.now⟩
      exact ⟨_, _, _, Tells.told hsilent hasked hvisits⟩

end LoaderWorld

end FontCatalog
