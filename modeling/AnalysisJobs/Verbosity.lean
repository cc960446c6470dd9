import AnalysisJobs.Text.Blank
/-!
# Verbosity of performance reports

Whether durations are reported, and whether durations over their budget are
warned about as well.  The choice is read from a setting that may be absent.
-/

namespace AnalysisJobs

inductive Verbosity
  | off
  | on
  | verbose
  deriving DecidableEq, Repr

namespace Verbosity

/-- Read a setting.  Blanks around it and the case of letters do not matter; an
absent or empty setting, `0` and `false` mean off. -/
def ofSetting : Option String → Verbosity
  | none => off
  | some setting =>
    let word := String.ofList ((Text.trimmed setting.toList).map Char.toLower)
    if word = "" || word = "0" || word = "false" then off
    else if word = "verbose" then verbose
    else on

end Verbosity

end AnalysisJobs
