import VersionedRecords.Orders.Walkthrough

/-!
The command line: walks through the order book from the first edit to a replayed removal.
`RUST_LOG` says which notices are shown on the way; they are printed without the time of day.
-/

open VersionedRecords

def main : IO UInt32 := do
  let setting ← IO.getEnv "RUST_LOG"
  let (code, lines) := Orders.walkthrough (NoticeFilter.ofSetting setting)
  for line in lines do
    IO.println line
  return UInt32.ofNat code
