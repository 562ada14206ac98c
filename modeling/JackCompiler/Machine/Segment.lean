/-!
# Memory segments

The target machine addresses its memory through eight named segments.
-/

namespace JackCompiler

/-- A memory segment of the target machine. -/
inductive Segment
  /-- Not memory: pushing an index of this segment pushes the number itself. -/
  | constant
  | argument
  | local
  | static
  /-- The words of the current object, whose address is `pointer 0`. -/
  | this
  /-- The words at the address held in `pointer 1`. -/
  | that
  | pointer
  | temp
  deriving DecidableEq

namespace Segment

/-- The name of a segment in instructions. -/
def name : Segment → String
  | constant => "constant"
  | argument => "argument"
  | .local => "local"
  | static => "static"
  | this => "this"
  | that => "that"
  | pointer => "pointer"
  | temp => "temp"

end Segment

end JackCompiler
