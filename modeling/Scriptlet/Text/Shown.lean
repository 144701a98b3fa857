/-!
# Characters shown in messages

A character that would not be visible, or that would close the quotes around it, is shown by an
escape.
-/

namespace Scriptlet.Text

def codeEscape (c : Char) : String :=
  "\\u\x7b" ++ String.ofList (Nat.toDigits 16 c.toNat) ++ "\x7d"

/-- `c` as a message shows it: printable ASCII as it is, the usual short escapes, and its code for
everything else. -/
def shown (c : Char) : String :=
  if c = '\t' then "\\t"
  else if c = '\r' then "\\r"
  else if c = '\n' then "\\n"
  else if c = '\'' || c = '"' || c = '\\' then String.ofList ['\\', c]
  else if 0x20 ≤ c.toNat && c.toNat ≤ 0x7E then String.ofList [c]
  else codeEscape c

end Scriptlet.Text
