import Scriptlet.Run.Fault

/-!
# The output of a run

Whole lines, up to a limit in bytes.
-/

namespace Scriptlet.Run

structure Sink where
  limit : Nat
  text : String := ""
deriving DecidableEq, Repr

/-- Adds a line, or fails and adds nothing if the limit would be passed. -/
def Sink.writeLine (s : Sink) (line : String) : Except Fault Sink :=
  if s.limit < s.text.utf8ByteSize + line.utf8ByteSize + 1 then .error (.outputLimit s.limit)
  else .ok { s with text := s.text ++ line ++ "\n" }

end Scriptlet.Run
