/-!
# Time

Waiting is measured on a clock that only pauses move. Durations and
instants are whole numbers of nanoseconds. The clock has a last instant it
can name; a timeout that would end behind it never ends, and that is the
difference between the two kinds of `Deadline`.

A caller that waits pauses for at most `pollInterval` at a time, and never
past its deadline (`Deadline.pause?`), so every pause before a deadline is
positive and they add up to no more than the timeout.
-/

namespace FontCatalog

/-- **A span of time**, in nanoseconds. -/
abbrev Duration := Nat

/-- **A point in time**, in nanoseconds since the clock started. -/
abbrev Instant := Nat

namespace Duration

/-- A number of milliseconds. -/
def ofMillis (n : Nat) : Duration := n * 1000000

/-- A number of seconds. -/
def ofSeconds (n : Nat) : Duration := n * 1000000000

/-- The longest duration that can be asked for. -/
def longest : Duration := ofSeconds 0xFFFFFFFFFFFFFFFF + 999999999

/-- The longest pause between two questions. -/
def pollInterval : Duration := ofMillis 20

end Duration

namespace Instant

/-- The instants that the clock can name lie before this one. -/
def beyond : Instant := Duration.ofSeconds 0x8000000000000000

end Instant

/-- **Until when to wait.** -/
inductive Deadline where
  /-- Up to an instant. -/
  | until (instant : Instant)
  /-- Without end. -/
  | never
deriving DecidableEq

namespace Deadline

/-- **The end of a timeout** that starts now. A timeout too long for the
clock does not end. -/
def after (now : Instant) (timeout : Duration) : Deadline :=
  if now + timeout < Instant.beyond then .until (now + timeout) else .never

/-- **How long to pause** before asking again; not at all once the
deadline is reached. -/
def pause? (now : Instant) : Deadline → Option Duration
  | .until instant =>
    if instant ≤ now then none else some (min Duration.pollInterval (instant - now))
  | .never => some Duration.pollInterval

/-- **How many pauses fit** before the deadline, each but the last of full
length. Without end there is no such number, and `patience` is taken. -/
def pauses (patience : Nat) (now : Instant) : Deadline → Nat
  | .until instant =>
    (instant - now + Duration.pollInterval - 1) / Duration.pollInterval
  | .never => patience

/-- A pause is positive and no longer than the interval. -/
theorem pause?_bounds {d : Deadline} {now : Instant} {length : Duration}
    (h : d.pause? now = some length) : 0 < length ∧ length ≤ Duration.pollInterval := by
  have hinterval : 0 < Duration.pollInterval := by decide
  cases d with
  | «until» instant =>
    simp only [pause?] at h
    split at h
    · simp at h
    · next hlate =>
      obtain rfl := Option.some.inj h
      have hleft : 0 < instant - now := Nat.sub_pos_of_lt (Nat.lt_of_not_le hlate)
      exact ⟨Nat.lt_min.mpr ⟨hinterval, hleft⟩, Nat.min_le_left _ _⟩
  | never =>
    obtain rfl := Option.some.inj h
    exact ⟨hinterval, Nat.le_refl _⟩

end Deadline

end FontCatalog
