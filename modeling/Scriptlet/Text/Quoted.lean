import Scriptlet.Text.Shown
import Scriptlet.Text.Visible

/-!
# Quoted text

A text between double quotes, written so that all of it can be seen and its end is plain.
-/

namespace Scriptlet.Text

/-- A character between double quotes: what is visible stands as it is, except for the quote itself
and the backslash. -/
def quotedChar (c : Char) : String :=
  if c = '\x00' then "\\0"
  else if c = '\t' then "\\t"
  else if c = '\r' then "\\r"
  else if c = '\n' then "\\n"
  else if c = '"' || c = '\\' then String.ofList ['\\', c]
  else if isVisible c then String.ofList [c]
  else codeEscape c

def quoted (s : String) : String :=
  "\"" ++ String.join (s.toList.map quotedChar) ++ "\""

end Scriptlet.Text
