/-!
# Metrics

A metric is a distance in font units. All distances that fonts store are
whole numbers, but a descent may be given as the amount *below* the
baseline, and turning an amount of zero round gives a negative zero, which
is shown with its sign. `Metric` is therefore the whole numbers with a
second zero; it counts as zero in every sum, and as zero when read as a
number.

The only faces here are those read from font data, and a variation moves
their metrics by whole numbers too (`Tables.metricDelta`). Faces that are
made in another way may have metrics between whole numbers; they are not
described here, and nor is how such a metric is rounded where it is shown.
-/

namespace FontCatalog

/-- **A distance in font units.** -/
inductive Metric where
  /-- A whole number of units. -/
  | whole (n : Int)
  /-- Zero units, downwards. -/
  | minusZero
deriving DecidableEq, Inhabited

namespace Metric

/-- The number of units. -/
def toInt : Metric → Int
  | whole n => n
  | minusZero => 0

/-- The distance of `n` units downwards. -/
def below (n : Nat) : Metric := if n = 0 then minusZero else whole (-n)

/-- A distance moved by `d` units. A sum is never the negative zero. -/
def move (m : Metric) (d : Int) : Metric := whole (m.toInt + d)

/-- The decimal text of a distance. -/
def text : Metric → String
  | whole n => toString n
  | minusZero => "-0"

@[simp] theorem toInt_whole (n : Int) : (whole n).toInt = n := rfl

@[simp] theorem toInt_move (m : Metric) (d : Int) : (m.move d).toInt = m.toInt + d := rfl

end Metric

end FontCatalog
