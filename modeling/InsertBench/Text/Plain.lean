/-! # Plain text

What a terminal would write of a text: control characters are left out unless they are white space, and
so are escape sequences. White space that breaks into a sequence ends it and is written; only in a
command or a string, which have an end mark, it is left out like all else.
-/
namespace InsertBench.Text

/-- Where a text stands with regard to escape sequences. -/
inductive Sequence
  | outside
  /-- Right after the escape character. -/
  | opened
  /-- Before the final character of a sequence with intermediate characters. -/
  | intermediate
  /-- Before the final character of a control sequence. -/
  | control
  /-- In an operating system command, which a bell ends. -/
  | command
  /-- In the head of a device control string: at its start, after a parameter, or after an intermediate
  character. -/
  | device
  | deviceParameter
  | deviceIntermediate
  /-- In a string of another kind, or in a device control string whose head is over or broken. -/
  | string
deriving DecidableEq

def isBreak (c : Char) : Bool := c = '\t' || c = '\n' || c = '\x0c' || c = '\r'

def isPrintable (c : Char) : Bool := ' ' ≤ c && c ≠ '\x7f'

namespace Sequence

/-- A sequence that ends at a character of a range, or that white space breaks. -/
def upTo (first : Char) (s : Sequence) (c : Char) : Sequence :=
  if first ≤ c && c ≤ '~' || isBreak c then .outside else s

def opening (c : Char) : Sequence :=
  if c = '[' then .control
  else if c = ']' then .command
  else if c = 'P' then .device
  else if c = 'X' || c = '^' || c = '_' then .string
  else if ' ' ≤ c && c ≤ '/' then .intermediate
  else upTo '0' .opened c

/-- How the head of a device control string goes on: parameters are followed by intermediate characters,
and these by the character that ends the head. Parameters from a first one on break the head here. -/
def head (firstBreaking : Char) (s : Sequence) (c : Char) : Sequence :=
  if '@' ≤ c && c ≤ '~' then .string
  else if ' ' ≤ c && c ≤ '/' then .deviceIntermediate
  else if firstBreaking ≤ c && c ≤ '?' then .string
  else if '0' ≤ c && c ≤ '?' then .deviceParameter
  else s

/-- Whether a character ends a string: one of its bytes in UTF-8 is the string terminator. -/
def terminates (c : Char) : Bool := 0x9C ∈ String.utf8EncodeChar c

/-- Where a text stands after one more character. Another escape character starts anew, and the
characters "cancel" and "substitute" end every sequence. -/
def next (s : Sequence) (c : Char) : Sequence :=
  if c = '\x1b' then .opened
  else if c = '\x18' || c = '\x1a' then .outside
  else match s with
  | .outside => .outside
  | .opened => opening c
  | .intermediate => upTo '0' .intermediate c
  | .control => upTo '@' .control c
  | .command => if c = '\x07' then .outside else .command
  | .device => head '@' .device c
  | .deviceParameter => head '<' .deviceParameter c
  | .deviceIntermediate => head '0' .deviceIntermediate c
  | .string => if terminates c then .outside else .string

def writes (s : Sequence) (c : Char) : Bool :=
  match s with
  | .outside => isBreak c || isPrintable c
  | .opened | .intermediate | .control => isBreak c
  | .command | .device | .deviceParameter | .deviceIntermediate | .string => false

end Sequence

/-- The characters that are written of a text that begins somewhere. -/
def plainFrom (s : Sequence) : List Char → List Char
  | [] => []
  | c :: rest => if s.writes c then c :: plainFrom (s.next c) rest else plainFrom (s.next c) rest

def plain (text : String) : String := String.ofList (plainFrom .outside text.toList)

end InsertBench.Text
