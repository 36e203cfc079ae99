import Microtypes.Expansion
import Microtypes.Text.Column

/-!
# The summary of a run

After a file is written, the console shows how many wrappers of each variant it holds and how many
of them have each group of code.
-/

namespace Microtypes

/-- The numbers of a summary. -/
structure Counts where
  microtypes : Int
  normal : Int
  secret : Int
  errors : Int
  /-- How many wrappers have each group of code, by the name of the group. -/
  groups : List (String × Int)
deriving DecidableEq, Repr

/-- The numbers of an expansion. -/
def Expansion.counts (e : Expansion) : Counts where
  microtypes := e.specs.length
  normal := e.generated.countP (·.plan.variant = .normal)
  secret := e.generated.countP (·.plan.variant = .secret)
  errors := e.errors.length
  groups := Group.all.map fun g => (g.name, (e.generated.countP (·.plan.has g) : Int))

/-- What a summary shows. -/
structure Summary where
  label : String
  output : String
  features : String
  counts : Counts
  filename : String
  lines : Int
deriving DecidableEq, Repr

/-- The text of a summary. Groups that no wrapper has are left out, and so are the errors when there
are none. -/
def Summary.text (s : Summary) : String :=
  let number (n : Int) := padLeft 5 (toString n)
  let top := ["Microtypes generated:", "", "  Source:     " ++ s.label,
    "  Output:     " ++ s.output, "  Features:   " ++ s.features, ""]
  let made := s!"  ({s.counts.normal} normal + {s.counts.secret} secret)"
  let microtypes := ["  Microtypes: " ++ number s.counts.microtypes ++ made]
  let errors :=
    if s.counts.errors = 0 then []
    else ["  Errors:     " ++ number s.counts.errors ++ "  (embedded as compile_error!)"]
  let present := s.counts.groups.filter (·.2 ≠ 0)
  let rows := present.map fun (name, n) => "    " ++ padRight 22 name ++ number n
  let groups := if present.isEmpty then [] else ["", "  Capability groups:"] ++ rows
  let lines := groupedNumber s.lines
  let written := ["", "  Written: " ++ s.filename ++ " (" ++ lines ++ " lines)", ""]
  "\n".intercalate (top ++ microtypes ++ errors ++ groups ++ written)

end Microtypes
