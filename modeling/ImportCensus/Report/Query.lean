import ImportCensus.Glob.Match
import ImportCensus.Report.Builder

/-!
# Queries

The parts of a report that somebody asks for: packages by patterns for their keys, and exported
names by name.  Both answers keep the order of the report.
-/

namespace ImportCensus.Report

/-- The packages whose key one of the patterns means. -/
def packagesMatching (r : Report) (patterns : List Text) : Except Glob.Error (List Package) := do
  let entries ← r.packages.entries.filterM fun entry => Glob.matchesAny? patterns entry.1
  return entries.map Prod.snd

/-- The entries of the exported names that are among `names`. -/
def exportsNamed (r : Report) (names : List Text) : List ExportEntry :=
  (r.exportNames.entries.filter fun entry => names.contains entry.1).map Prod.snd

end ImportCensus.Report
