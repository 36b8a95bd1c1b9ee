/-! # Faults

A fault is the end of a computation by a broken assumption of its own: arithmetic that leaves its
word, an index outside its range, a name that a store cannot hold. Nobody handles a fault; it
unwinds whatever is running and releases what is held on the way.
-/
namespace InsertBench

inductive Fault
  | divideByZero
  | multiplyOverflow
  | addOverflow
  | subtractOverflow
  | indexOutside (length index : Nat)
  | sliceBackwards (first last : Nat)
  | sliceStartsOutside (first length : Nat)
  | sliceEndsOutside (last length : Nat)
  /-- A worker or an offset outside the partition that keys are dealt from. -/
  | outsidePartition
  | unnamedTable
  /-- A span of time whose seconds leave their word. -/
  | spanTooLong
  /-- A worker faulted that nobody waited for. -/
  | workerFaulted
  /-- A fault that a store raises with words of its own. -/
  | raised (text : String)
deriving DecidableEq

def Fault.message : Fault → String
  | divideByZero => "attempt to divide by zero"
  | multiplyOverflow => "attempt to multiply with overflow"
  | addOverflow => "attempt to add with overflow"
  | subtractOverflow => "attempt to subtract with overflow"
  | indexOutside length index => s!"index out of bounds: the len is {length} but the index is {index}"
  | sliceBackwards first last => s!"slice index starts at {first} but ends at {last}"
  | sliceStartsOutside first length =>
    s!"range start index {first} out of range for slice of length {length}"
  | sliceEndsOutside last length => s!"range end index {last} out of range for slice of length {length}"
  | outsidePartition =>
    "assertion failed: thread_id < self.thread_count && offset < self.rows_per_txn"
  | unnamedTable => "assertion failed: !name.is_empty()"
  | spanTooLong => "overflow in Duration::new"
  | workerFaulted => "a scoped thread panicked"
  | raised text => text

end InsertBench
