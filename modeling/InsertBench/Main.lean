import InsertBench.Program
import Std.Time.DateTime.Timestamp

/-! # The executable -/
namespace InsertBench

def monotonicMicros : IO UInt64 := do
  return ((← IO.monoNanosNow) / 1000).toUInt64

def wallMicros : IO Int64 := do
  return Int64.ofInt ((← Std.Time.Timestamp.now).toNanosecondsSinceUnixEpoch.val / 1000)

end InsertBench

def main (words : List String) : IO UInt32 := do
  match InsertBench.Job.ofWords words with
  | .error ending =>
    ending.lines.forM IO.println
    return ending.status
  | .ok job =>
    job.banner.forM IO.println
    match ← job.run InsertBench.monotonicMicros (← InsertBench.wallMicros) with
    | none => throw (IO.userError "a call to the store was never answered")
    | some ending =>
      (ending.lines.drop job.banner.length).forM IO.println
      return ending.status
