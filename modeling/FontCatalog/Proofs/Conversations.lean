import FontCatalog.Catalog.Details

/-!
# How a call for details talks to the loaders

A call for details may be stopped in five ways, at any entry, while the
loaders answer as they like. What it must never do is give some lines
only, or go on after something went wrong; and it must ask for the data of
every font before it waits for any. Both are statements about the
*conversation* with the loaders: every question in order, with its answer.

`LoaderWorld.transcribed` is a world that writes the conversation down.
Its answers are those of the world itself, and it does nothing else, so a
call in it is the same call with a transcript. `Conversation` says which
transcripts there can be and which lines each of them leads to, and
`Catalog.details_conversation` that every call goes that way.

That no later entry is touched before an earlier one is realised is in the
shape of `Visited`: the transcript of several visits is the transcripts of
the single visits, one behind the other.
-/

namespace FontCatalog

/-- **A question to a loader and its answer**, or a pause. -/
inductive Exchange where
  /-- Whether data is there. -/
  | locality (id : LoaderId) (key : FileKey) (answer : Locality)
  /-- To fetch data. -/
  | request (id : LoaderId) (key : FileKey) (answer : Except FontError Unit)
  /-- For the data. -/
  | data (id : LoaderId) (key : FileKey) (answer : Option FontSource)
  /-- No question: a pause. -/
  | pause (length : Nat)

namespace FontFile

/-- The locality of a file was asked for. -/
def localityIs (file : FontFile) (answer : Locality) : Exchange :=
  .locality file.loader file.key answer

/-- The data of a file was requested. -/
def requestIs (file : FontFile) (answer : Except FontError Unit) : Exchange :=
  .request file.loader file.key answer

/-- The data of a file was asked for. -/
def dataIs (file : FontFile) (answer : Option FontSource) : Exchange :=
  .data file.loader file.key answer

end FontFile

/-! ## Transcripts -/

namespace LoaderWorld

variable {σ : Type}

/-- **A world that keeps a transcript** of the conversation, the latest
exchange last. -/
def transcribed (w : LoaderWorld σ) : LoaderWorld (σ × List Exchange) where
  locality id key s :=
    ((w.locality id key s.1).1, (w.locality id key s.1).2,
      s.2 ++ [.locality id key (w.locality id key s.1).1])
  request id key s :=
    ((w.request id key s.1).1, (w.request id key s.1).2,
      s.2 ++ [.request id key (w.request id key s.1).1])
  data id key s :=
    ((w.data id key s.1).1, (w.data id key s.1).2,
      s.2 ++ [.data id key (w.data id key s.1).1])
  pause length s := (w.pause length s.1, s.2 ++ [.pause length])

section

variable {w : LoaderWorld σ} {id : LoaderId} {key : FileKey} {s s' : σ}

/-! The answers in a world with a transcript are those of the world. -/

theorem locality_transcribed {answer : Locality} (h : w.locality id key s = (answer, s'))
    (log : List Exchange) :
    w.transcribed.locality id key (s, log)
      = (answer, s', log ++ [.locality id key answer]) := by
  show ((w.locality id key s).1, _, log ++ [.locality id key (w.locality id key s).1]) = _
  rw [h]

theorem request_transcribed {answer : Except FontError Unit}
    (h : w.request id key s = (answer, s')) (log : List Exchange) :
    w.transcribed.request id key (s, log) = (answer, s', log ++ [.request id key answer]) := by
  show ((w.request id key s).1, _, log ++ [.request id key (w.request id key s).1]) = _
  rw [h]

end

end LoaderWorld

/-- The same time, in a world with a transcript. -/
def Timed.noting {σ : Type} (t : Timed σ) (log : List Exchange) : Timed (σ × List Exchange) :=
  ⟨(t.world, log), t.now⟩

theorem Timed.now_noting {σ : Type} (t : Timed σ) (log : List Exchange) :
    (t.noting log).now = t.now := rfl

theorem Timed.world_noting {σ : Type} (t : Timed σ) (log : List Exchange) :
    (t.noting log).world = (t.world, log) := rfl

/-! ## Which transcripts there can be -/

/-- **A wait for the data of a file**: its locality is asked for, and as
long as the data is not there, there may be a pause and another question.
The wait ends with data that is there, or is given up. -/
inductive Wait (file : FontFile) : List Exchange → Bool → Prop where
  /-- The data is there. -/
  | arrived : Wait file [file.localityIs .present] true
  /-- The data is not there, and it is not asked again. -/
  | givenUp {answer : Locality} : answer ≠ .present → Wait file [file.localityIs answer] false
  /-- The data is not there, and it is asked again after a pause. -/
  | paused {answer : Locality} {length : Nat} {log : List Exchange} {arrived : Bool} :
    answer ≠ .present → Wait file log arrived →
      Wait file (file.localityIs answer :: .pause length :: log) arrived

/-- **Entries that were visited**, in order, the first with the number
`index`: each was waited for, its data was there and asked for at once, and
its face could be read from that data and gave the line. -/
inductive Visited : Nat → List FontEntry → List Exchange → List String → Prop where
  /-- No entries. -/
  | nil {index : Nat} : Visited index [] [] []
  /-- An entry, and those behind it. -/
  | cons {index : Nat} {entry : FontEntry} {entries : List FontEntry}
    {waited visits : List Exchange} {source : Option FontSource} {face : FontFace}
    {lines : List String} :
    Wait entry.file waited true → entry.face source = .ok face →
      Visited (index + 1) entries visits lines →
      Visited index (entry :: entries) (waited ++ entry.file.dataIs source :: visits)
        (detailLine index face :: lines)

/-- **A visit that failed**: the wait was given up, or the face could not be
read from the data. -/
inductive Failed (entry : FontEntry) : List Exchange → Prop where
  /-- The data did not arrive. -/
  | missing {waited : List Exchange} : Wait entry.file waited false → Failed entry waited
  /-- The data is not the data of the entry. -/
  | unreadable {waited : List Exchange} {source : Option FontSource} {error : FontError} :
    Wait entry.file waited true → entry.face source = .error error →
      Failed entry (waited ++ [entry.file.dataIs source])

/-- **Visits that were broken off**: some entries were visited, the visit to
the next one failed, and nothing was asked after it. -/
def BrokenOff (index : Nat) (entries : List FontEntry) (log : List Exchange) : Prop :=
  ∃ (before : List FontEntry) (entry : FontEntry) (after : List FontEntry)
    (visits last : List Exchange) (lines : List String),
    entries = before ++ entry :: after ∧ log = visits ++ last ∧
      Visited index before visits lines ∧ Failed entry last

/-- What visits lead to: lines if all entries were visited. -/
def VisitsGive (index : Nat) (entries : List FontEntry) (log : List Exchange) :
    Option (List String) → Prop
  | some lines => Visited index entries log lines
  | none => BrokenOff index entries log

/-- The data of every entry was requested. -/
def requested (entries : List FontEntry) : List Exchange :=
  entries.map fun entry => entry.file.requestIs (.ok ())

/-- **Requests that were refused**: some were granted, the next one was not,
and nothing was asked after it. -/
def Refused (entries : List FontEntry) (error : FontError) (log : List Exchange) : Prop :=
  ∃ (before : List FontEntry) (entry : FontEntry) (after : List FontEntry),
    entries = before ++ entry :: after ∧
      log = requested before ++ [entry.file.requestIs (.error error)]

/-- What requests lead to. -/
def RequestsGive (entries : List FontEntry) (log : List Exchange) : Except FontError Unit → Prop
  | .ok () => log = requested entries
  | .error error => Refused entries error log

/-- **A conversation for the details of entries**, and the lines it leads
to. -/
inductive Conversation (fired : Bool) (entries : List FontEntry) :
    List Exchange → List String → Prop where
  /-- The signal to stop had fired, and no loader was asked. -/
  | stopped : fired = true → Conversation fired entries [] []
  /-- A request was refused. -/
  | refused {error : FontError} {log : List Exchange} :
    fired = false → Refused entries error log → Conversation fired entries log []
  /-- All data was requested, and then a visit failed. -/
  | brokenOff {visits : List Exchange} :
    fired = false → BrokenOff 0 entries visits →
      Conversation fired entries (requested entries ++ visits) []
  /-- All data was requested, and then all entries were visited. -/
  | told {visits : List Exchange} {lines : List String} :
    fired = false → Visited 0 entries visits lines →
      Conversation fired entries (requested entries ++ visits) lines

/-! ## What a conversation says of the lines -/

namespace Visited

variable {index : Nat} {entries : List FontEntry} {visits : List Exchange} {lines : List String}

/-- There is a line for each entry. -/
theorem length_eq (h : Visited index entries visits lines) : lines.length = entries.length := by
  induction h with
  | nil => rfl
  | cons _ _ _ ih => exact congrArg Nat.succ ih

/-- **The visit to one entry** lies behind the visits to the earlier ones,
and its line is that of the face that was read right after the wait. -/
theorem getElem? (h : Visited index entries visits lines) {i : Nat} {entry : FontEntry}
    (hi : entries[i]? = some entry) :
    ∃ earlier waited source face later,
      visits = earlier ++ (waited ++ entry.file.dataIs source :: later) ∧
      Visited index (entries.take i) earlier (lines.take i) ∧ Wait entry.file waited true ∧
      entry.face source = .ok face ∧ lines[i]? = some (detailLine (index + i) face) := by
  induction h generalizing i with
  | nil => cases hi
  | @cons index first entries waited visits source face lines hwait hface hrest ih =>
    cases i with
    | zero =>
      obtain rfl := Option.some.inj hi
      exact ⟨[], waited, source, face, visits, rfl, Visited.nil, hwait, hface, rfl⟩
    | succ i =>
      obtain ⟨earlier, waited', source', face', later, rfl, hearlier, hwait', hface', hline⟩ :=
        ih hi
      refine ⟨waited ++ first.file.dataIs source :: earlier, waited', source', face', later, ?_,
        Visited.cons hwait hface hearlier, hwait', hface', ?_⟩
      · rw [List.append_assoc, List.cons_append]
      · rw [← Nat.add_assoc, Nat.add_right_comm]
        exact hline

end Visited

/-- **All or nothing.** A conversation leads to no lines, or to one line
for each entry; and the line of an entry is that of the face read from the
data that was asked for right after the wait for the entry, behind all
requests and the visits to the earlier entries. -/
theorem Conversation.lines_eq_nil_or {fired : Bool} {entries : List FontEntry}
    {log : List Exchange} {lines : List String} (h : Conversation fired entries log lines) :
    lines = [] ∨ lines.length = entries.length ∧
      ∀ i entry, entries[i]? = some entry → ∃ earlier waited source face later,
        log = requested entries ++ (earlier ++ (waited ++ entry.file.dataIs source :: later)) ∧
        Visited 0 (entries.take i) earlier (lines.take i) ∧ Wait entry.file waited true ∧
        entry.face source = .ok face ∧ lines[i]? = some (detailLine i face) := by
  cases h with
  | stopped => exact Or.inl rfl
  | refused => exact Or.inl rfl
  | brokenOff => exact Or.inl rfl
  | @told visits lines _ hvisited =>
    refine Or.inr ⟨hvisited.length_eq, fun i entry hi => ?_⟩
    obtain ⟨earlier, waited, source, face, later, rfl, hearlier, hwait, hface, hline⟩ :=
      hvisited.getElem? hi
    rw [Nat.zero_add] at hline
    exact ⟨earlier, waited, source, face, later, rfl, hearlier, hwait, hface, hline⟩

namespace LoaderWorld

variable {σ : Type} (w : LoaderWorld σ) (signal : StopSignal σ)

/-- A wait in a world with a transcript is the same wait, written down. -/
theorem await_transcribed (file : FontFile) (deadline : Deadline) (pauses : Nat) (t : Timed σ)
    (log : List Exchange) :
    ∃ waited, w.transcribed.await (signal ∘ Prod.fst) file deadline pauses (t.noting log)
        = ((w.await signal file deadline pauses t).1,
          (w.await signal file deadline pauses t).2.noting (log ++ waited)) ∧
      Wait file waited (decide ((w.await signal file deadline pauses t).1 = .arrived)) := by
  fun_induction w.await signal file deadline pauses t generalizing log with
  | case1 pauses t world asked hask =>
    refine ⟨[file.localityIs .present], ?_, Wait.arrived⟩
    rw [await, Timed.noting, locality_transcribed hask]
    rfl
  | case2 pauses t answer world hask asked hanswer hfired =>
    refine ⟨[file.localityIs answer], ?_, Wait.givenUp hanswer⟩
    rw [await, Timed.noting, locality_transcribed hask]
    dsimp only [Function.comp_apply]
    rw [if_neg hanswer, if_pos hfired]
    rfl
  | case3 pauses t answer world hask asked hanswer hfired hpause =>
    refine ⟨[file.localityIs answer], ?_, Wait.givenUp hanswer⟩
    rw [await, Timed.noting, locality_transcribed hask]
    dsimp only [Function.comp_apply]
    rw [if_neg hanswer, if_neg hfired, hpause]
    rfl
  | case4 t answer world hask asked hanswer hfired length hpause =>
    refine ⟨[file.localityIs answer], ?_, Wait.givenUp hanswer⟩
    rw [await, Timed.noting, locality_transcribed hask]
    dsimp only [Function.comp_apply]
    rw [if_neg hanswer, if_neg hfired, hpause]
    rfl
  | case5 t answer world hask hanswer hfired length hpause pauses ih =>
    obtain ⟨waited, hrest, hwait⟩ :=
      ih (log ++ [file.localityIs answer] ++ [.pause length])
    refine ⟨file.localityIs answer :: .pause length :: waited, ?_, Wait.paused hanswer hwait⟩
    have hlog : log ++ [file.localityIs answer] ++ [.pause length] ++ waited
        = log ++ file.localityIs answer :: .pause length :: waited := by
      rw [List.append_assoc, List.append_assoc]
      rfl
    rw [hlog] at hrest
    rw [await, Timed.noting, locality_transcribed hask]
    dsimp only [Function.comp_apply]
    rw [if_neg hanswer, if_neg hfired, hpause]
    exact hrest

/-- Requests in a world with a transcript are the same requests, written
down. -/
theorem requestAll_transcribed (entries : List FontEntry) (s : σ) (log : List Exchange) :
    ∃ asked, w.transcribed.requestAll entries (s, log)
        = ((w.requestAll entries s).1, (w.requestAll entries s).2, log ++ asked) ∧
      RequestsGive entries asked (w.requestAll entries s).1 := by
  fun_induction w.requestAll entries s generalizing log with
  | case1 s =>
    refine ⟨[], ?_, rfl⟩
    rw [List.append_nil]
    rfl
  | case2 entry entries s s' hask ih =>
    obtain ⟨asked, hrest, hasked⟩ := ih (log ++ [entry.file.requestIs (.ok ())])
    refine ⟨entry.file.requestIs (.ok ()) :: asked, ?_, ?_⟩
    · rw [← List.append_cons] at hrest
      rw [requestAll, request_transcribed hask]
      exact hrest
    · cases hresult : (w.requestAll entries s').1 with
      | ok =>
        rw [hresult] at hasked
        exact congrArg (entry.file.requestIs (.ok ()) :: ·) hasked
      | error error =>
        rw [hresult] at hasked
        obtain ⟨before, refuser, after, rfl, rfl⟩ := hasked
        exact ⟨entry :: before, refuser, after, rfl, rfl⟩
  | case3 entry entries s error s' hask =>
    refine ⟨[entry.file.requestIs (.error error)], ?_, [], entry, entries, rfl, rfl⟩
    rw [requestAll, request_transcribed hask]
    rfl

/-- Reading a face in a world with a transcript is one question for the
data. -/
theorem readFace_transcribed {entry : FontEntry} {s s' : σ} {result : Except FontError FontFace}
    (h : w.readFace entry s = (result, s')) (log : List Exchange) :
    ∃ source, entry.face source = result ∧ w.transcribed.readFace entry (s, log)
      = (result, s', log ++ [entry.file.dataIs source]) := by
  obtain ⟨hresult, rfl⟩ := Prod.mk.inj h
  refine ⟨(w.data entry.file.loader entry.file.key s).1, hresult, ?_⟩
  rw [← hresult]
  rfl

/-- A visit to data that arrived, in a world with a transcript. -/
theorem visit_transcribed {deadline : Deadline} {pauses : Nat} {entry : FontEntry}
    {t t' : Timed σ} {world : σ} {result : Except FontError FontFace}
    (hawait : w.await signal entry.file deadline pauses t = (.arrived, t'))
    (hread : w.readFace entry t'.world = (result, world)) (log : List Exchange) :
    ∃ waited source, Wait entry.file waited true ∧ entry.face source = result ∧
      w.transcribed.await (signal ∘ Prod.fst) entry.file deadline pauses (t.noting log)
        = (.arrived, t'.noting (log ++ waited)) ∧
      w.transcribed.readFace entry (t'.world, log ++ waited)
        = (result, world, log ++ waited ++ [entry.file.dataIs source]) := by
  obtain ⟨waited, hwaited, hwait⟩ :=
    w.await_transcribed signal entry.file deadline pauses t log
  rw [hawait] at hwaited hwait
  obtain ⟨source, hface, hreading⟩ := w.readFace_transcribed hread (log ++ waited)
  exact ⟨waited, source, hwait, hface, hwaited, hreading⟩

/-- Visits in a world with a transcript are the same visits, written
down. -/
theorem awaitLines_transcribed (deadline : Deadline) (patience index : Nat)
    (entries : List FontEntry) (t : Timed σ) (log : List Exchange) :
    ∃ visits, w.transcribed.awaitLines (signal ∘ Prod.fst) deadline patience index entries
          (t.noting log)
        = ((w.awaitLines signal deadline patience index entries t).1,
          (w.awaitLines signal deadline patience index entries t).2.noting (log ++ visits)) ∧
      VisitsGive index entries visits
        (w.awaitLines signal deadline patience index entries t).1 := by
  fun_induction w.awaitLines signal deadline patience index entries t generalizing log with
  | case1 index t =>
    refine ⟨[], ?_, Visited.nil⟩
    rw [List.append_nil]
    rfl
  | case2 index entry entries t t' hawait error world hread =>
    obtain ⟨waited, source, hwait, hface, hwaited, hreading⟩ :=
      w.visit_transcribed signal hawait hread log
    refine ⟨waited ++ [entry.file.dataIs source], ?_, [], entry, entries, [], _, [], rfl, rfl,
      Visited.nil, Failed.unreadable hwait hface⟩
    rw [awaitLines, Timed.now_noting, hwaited]
    dsimp only
    rw [Timed.world_noting, hreading, ← List.append_assoc]
    rfl
  | case3 index entry entries t t' hawait face world hread t'' hlines ih =>
    obtain ⟨waited, source, hwait, hface, hwaited, hreading⟩ :=
      w.visit_transcribed signal hawait hread log
    obtain ⟨visits, hvisits, hgive⟩ := ih (log ++ waited ++ [entry.file.dataIs source])
    rw [hlines, Timed.noting] at hvisits
    rw [hlines] at hgive
    obtain ⟨before, missed, after, earlier, last, lines, rfl, rfl, hearlier, hfailed⟩ := hgive
    refine ⟨waited ++ entry.file.dataIs source :: (earlier ++ last), ?_, entry :: before, missed,
      after, waited ++ entry.file.dataIs source :: earlier, last, _, rfl, ?_,
      Visited.cons hwait hface hearlier, hfailed⟩
    · rw [awaitLines, Timed.now_noting, hwaited]
      dsimp only
      rw [Timed.world_noting, hreading]
      dsimp only
      rw [Timed.now_noting, hvisits, ← List.append_cons, List.append_assoc]
    · rw [List.append_assoc, List.cons_append]
  | case4 index entry entries t t' hawait face world hread lines t'' hlines ih =>
    obtain ⟨waited, source, hwait, hface, hwaited, hreading⟩ :=
      w.visit_transcribed signal hawait hread log
    obtain ⟨visits, hvisits, hgive⟩ := ih (log ++ waited ++ [entry.file.dataIs source])
    rw [hlines, Timed.noting] at hvisits
    rw [hlines] at hgive
    refine ⟨waited ++ entry.file.dataIs source :: visits, ?_, Visited.cons hwait hface hgive⟩
    rw [awaitLines, Timed.now_noting, hwaited]
    dsimp only
    rw [Timed.world_noting, hreading]
    dsimp only
    rw [Timed.now_noting, hvisits, ← List.append_cons, List.append_assoc]
  | case5 index entry entries t outcome t' hgiven hawait =>
    obtain ⟨waited, hwaited, hwait⟩ := w.await_transcribed signal entry.file deadline
      (deadline.pauses patience t.now) t log
    rw [hawait] at hwaited hwait
    have hmissing : Wait entry.file waited false := decide_eq_false hgiven ▸ hwait
    refine ⟨waited, ?_, [], entry, entries, [], waited, [], rfl, rfl, Visited.nil,
      Failed.missing hmissing⟩
    rw [awaitLines, Timed.now_noting, hwaited]
    cases outcome with
    | arrived => exact absurd rfl hgiven
    | _ => rfl

/-- **A call for details in a world with a transcript** is the same call,
and its transcript is a conversation that leads to its lines. -/
theorem details_transcribed (timeout : Duration) (patience : Nat) (entries : List FontEntry)
    (t : Timed σ) :
    ∃ log, w.transcribed.details (signal ∘ Prod.fst) timeout patience entries (t.noting [])
        = ((w.details signal timeout patience entries t).1,
          (w.details signal timeout patience entries t).2.noting log) ∧
      Conversation (signal t.world) entries log
        (w.details signal timeout patience entries t).1 := by
  by_cases hfired : signal t.world = true
  · refine ⟨[], ?_, ?_⟩
    · rw [details, details, if_pos hfired, Timed.world_noting]
      exact if_pos hfired
    · rw [details, if_pos hfired]
      exact Conversation.stopped hfired
  have hsilent : signal t.world = false := Bool.eq_false_iff.mpr hfired
  obtain ⟨asked, hasked, hgive⟩ := w.requestAll_transcribed entries t.world []
  rw [List.nil_append] at hasked
  cases hrequest : w.requestAll entries t.world with
  | mk result world =>
    rw [hrequest] at hasked hgive
    cases result with
    | error error =>
      refine ⟨asked, ?_, ?_⟩
      · rw [details, details, if_neg hfired, Timed.world_noting, hrequest, hasked]
        exact if_neg hfired
      · rw [details, if_neg hfired, hrequest]
        exact Conversation.refused hsilent hgive
    | ok =>
      obtain ⟨visits, hvisits, hgives⟩ := w.awaitLines_transcribed signal
        (Deadline.after t.now timeout) patience 0 entries ⟨world, t.now⟩ asked
      obtain rfl : asked = requested entries := hgive
      refine ⟨requested entries ++ visits, ?_, ?_⟩
      · rw [Timed.noting] at hvisits
        rw [details, details, if_neg hfired, Timed.world_noting, hrequest, hasked,
          if_neg (show ¬(signal ∘ Prod.fst) (t.world, []) = true from hfired)]
        dsimp only
        rw [Timed.now_noting, hvisits]
      · rw [details, if_neg hfired, hrequest]
        dsimp only
        cases hlines : w.awaitLines signal (Deadline.after t.now timeout) patience 0 entries
            ⟨world, t.now⟩ with
        | mk lines t' =>
          rw [hlines] at hgives
          cases lines with
          | none => exact Conversation.brokenOff hsilent hgives
          | some lines => exact Conversation.told hsilent hgives

end LoaderWorld

/-- **Details are all or nothing, in order, with requests first.** A call
for details has a transcript: the same call, in a world that writes the
conversation with the loaders down, gives the same lines and leaves the
same world behind. The transcript is a `Conversation` that leads to the
lines, and there are no lines or one for each font. -/
theorem Catalog.details_conversation {σ : Type} (w : LoaderWorld σ) (signal : StopSignal σ)
    (timeout : Duration) (patience : Nat) (c : Catalog) (t : Timed σ) :
    ∃ log, (c.inWorld w).transcribed.details (signal ∘ Prod.fst) timeout patience c.entries
          (t.noting [])
        = ((c.details w signal timeout patience t).1,
          (c.details w signal timeout patience t).2.noting log) ∧
      Conversation (signal t.world) c.entries log (c.details w signal timeout patience t).1 ∧
      ((c.details w signal timeout patience t).1 = [] ∨
        (c.details w signal timeout patience t).1.length = c.fontCount ∧
        ∀ i entry, c.entries[i]? = some entry → ∃ earlier waited source face later,
          log = requested c.entries
            ++ (earlier ++ (waited ++ entry.file.dataIs source :: later)) ∧
          Visited 0 (c.entries.take i) earlier
            ((c.details w signal timeout patience t).1.take i) ∧
          Wait entry.file waited true ∧ entry.face source = .ok face ∧
          (c.details w signal timeout patience t).1[i]? = some (detailLine i face)) := by
  obtain ⟨log, hrun, hconversation⟩ :=
    (c.inWorld w).details_transcribed signal timeout patience c.entries t
  exact ⟨log, hrun, hconversation, hconversation.lines_eq_nil_or⟩

end FontCatalog
