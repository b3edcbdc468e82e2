/-! # The report of missing items

The **report** frames the missing items: a blank line, a header with their number, a blank line, one
line per item, and a closing blank line. -/

namespace FxmlWiring.Report

/-- The header line. -/
def header (count : Nat) : String :=
  toString count ++ " MISSING ITEMS: "

/-- The lines of a report. -/
def lines (items : List String) : List String :=
  ["", header items.length, ""] ++ items ++ [""]

/-- A line with its end. -/
def line (s : String) : String :=
  s ++ "\n"

/-- The report as text. -/
def render (items : List String) : String :=
  String.join ((lines items).map line)

end FxmlWiring.Report
