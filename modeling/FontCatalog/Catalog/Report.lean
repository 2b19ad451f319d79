import FontCatalog.Catalog.Details

/-!
# Reports

Two texts report on a catalogue's set. The first lists what is kept in the
set and needs no font data; the second gives the details that do, and says
beforehand if data has to be fetched. Both end every line with a line
feed, and a set without fonts has no details to report.
-/

namespace FontCatalog.Catalog

variable {σ : Type}

/-- Lines of text, each with its line feed. -/
def textOfLines (lines : List String) : String :=
  lines.foldl (fun text line => text ++ line ++ "\n") ""

/-- **The report on what is kept in the set.** -/
def propertiesReport (c : Catalog) : String :=
  textOfLines <|
    ("Number of fonts in the font set: " ++ toString c.fontCount) ::
      if c.fontCount = 0 then []
      else
        ["", "Full face name property for fonts in the custom font set:"] ++ c.fullNames ++ [""]

/-- What is said before data is fetched. -/
def remoteNotice : List String :=
  ["The custom font set has remote fonts that will need to be downloaded.",
   "Fetching remote fonts, which may take some time. To quit, press Enter..."]

/-- What is said where there are no details. -/
def unavailable : String := "Font data details are unavailable."

/-- **The report on the details**, with the caller's own stop signal. -/
def detailsReport (w : LoaderWorld σ) (signal : StopSignal σ) (timeout : Duration)
    (patience : Nat) (c : Catalog) (t : Timed σ) : String × Timed σ :=
  if c.fontCount = 0 then ("", t)
  else
    let (remote, world) := c.hasRemoteFonts w t.world
    let (lines, t) := c.details w signal timeout patience { t with world := world }
    (textOfLines <|
      ["", "Reporting some details requiring actual font data:"]
        ++ (if remote then remoteNotice else [])
        ++ (if lines.isEmpty then [unavailable] else lines), t)

/-- **The report on the details for an interactive user**, who can stop it
from outside: it has to know first whether there is anything to stop. -/
def interactiveDetailsReport (w : LoaderWorld σ) (timeout : Duration) (patience : Nat)
    (c : Catalog) (t : Timed σ) : String × Timed σ :=
  let (_, world) := c.hasRemoteFonts w t.world
  c.detailsReport w StopSignal.silent timeout patience { t with world := world }

end FontCatalog.Catalog
