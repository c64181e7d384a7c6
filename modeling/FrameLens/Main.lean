import FrameLens.Command.Outcome
import FrameLens.Symbol.Mangled
import Std.Time.Format

/-!
The command line program.
-/
open FrameLens

/-- The time of day in UTC, to the second. -/
def timeStamp : IO String := do
  let now ← Std.Time.Timestamp.now
  let utc := Std.Time.DateTime.ofTimestamp now Std.Time.TimeZone.ZoneRules.UTC
  return utc.format "uuuu-MM-dd'T'HH:mm:ss'Z'"

def main (arguments : List String) : IO UInt32 := do
  let outcome := Command.outcome ⟨Symbol.demangle?⟩ About.name arguments
  let time ← timeStamp
  for line in outcome.output do
    IO.println line
  for notice in outcome.notices do
    IO.eprintln (notice.line time)
  return outcome.exitCode
