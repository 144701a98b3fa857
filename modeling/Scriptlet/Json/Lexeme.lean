/-!
# Lexemes of a JSON text

A JSON text, given as bytes, split into its punctuation, strings, and other values. The bytes pass one
by one through `step`. Strings keep their bytes as they are written; `decode` gives the text they stand
for.
-/

namespace Scriptlet.Json

inductive Bracket where
  | square
  | curly
deriving DecidableEq, Repr

inductive Lexeme where
  | opening (b : Bracket)
  | closing (b : Bracket)
  | comma
  | colon
  /-- the bytes between the quotes -/
  | string (written : List UInt8)
  /-- a number, a truth value or null -/
  | plain
deriving DecidableEq, Repr

inductive Mode where
  | between
  /-- inside a string; what has been read of it, last byte first -/
  | string (read : List UInt8)
  | escape (read : List UInt8)
  /-- `left` digits of an escape are missing -/
  | escapeDigits (left : Nat) (read : List UInt8)
  /-- inside a word of which `rest` is missing -/
  | word (rest : List UInt8)
  | minus
  | zero
  | whole
  | point
  | fraction
  | exponent
  | exponentSign
  | exponentDigits
deriving DecidableEq, Repr

def isDigit (b : UInt8) : Bool :=
  0x30 ≤ b && b ≤ 0x39

def hexValue? (b : UInt8) : Option Nat :=
  if isDigit b then some (b.toNat - 0x30)
  else if 0x61 ≤ b ∧ b ≤ 0x66 then some (b.toNat - 0x61 + 10)
  else if 0x41 ≤ b ∧ b ≤ 0x46 then some (b.toNat - 0x41 + 10)
  else none

def shortEscape? (b : UInt8) : Option UInt8 :=
  if b = 0x22 ∨ b = 0x5C ∨ b = 0x2F then some b
  else if b = 0x62 then some 0x08
  else if b = 0x66 then some 0x0C
  else if b = 0x6E then some 0x0A
  else if b = 0x72 then some 0x0D
  else if b = 0x74 then some 0x09
  else none

/-- The first byte after a lexeme: what it begins, and the lexeme if it is one by itself. -/
def begin? (b : UInt8) : Option (Mode × List Lexeme) :=
  if b = 0x20 ∨ b = 0x09 ∨ b = 0x0A ∨ b = 0x0D then some (.between, [])
  else if b = 0x5B then some (.between, [.opening .square])
  else if b = 0x5D then some (.between, [.closing .square])
  else if b = 0x7B then some (.between, [.opening .curly])
  else if b = 0x7D then some (.between, [.closing .curly])
  else if b = 0x2C then some (.between, [.comma])
  else if b = 0x3A then some (.between, [.colon])
  else if b = 0x22 then some (.string [], [])
  else if b = 0x2D then some (.minus, [])
  else if b = 0x30 then some (.zero, [])
  else if isDigit b then some (.whole, [])
  else if b = 0x74 then some (.word [0x72, 0x75, 0x65], [])
  else if b = 0x66 then some (.word [0x61, 0x6C, 0x73, 0x65], [])
  else if b = 0x6E then some (.word [0x75, 0x6C, 0x6C], [])
  else none

def endNumber? (b : UInt8) : Option (Mode × List Lexeme) :=
  (begin? b).map fun (mode, lexemes) => (mode, .plain :: lexemes)

def isPoint (b : UInt8) : Bool := b = 0x2E

def isExponent (b : UInt8) : Bool := b = 0x65 || b = 0x45

/-- One byte further: the new mode, and the lexemes that have come to an end. -/
def step : Mode → UInt8 → Option (Mode × List Lexeme)
  | .between, b => begin? b
  | .string read, b =>
    if b = 0x22 then some (.between, [.string read.reverse])
    else if b = 0x5C then some (.escape (b :: read), [])
    else if b < 0x20 then none
    else some (.string (b :: read), [])
  | .escape read, b =>
    if b = 0x75 then some (.escapeDigits 4 (b :: read), [])
    else if (shortEscape? b).isSome then some (.string (b :: read), [])
    else none
  | .escapeDigits left read, b =>
    if (hexValue? b).isNone then none
    else if left ≤ 1 then some (.string (b :: read), [])
    else some (.escapeDigits (left - 1) (b :: read), [])
  | .word [], _ => none
  | .word [c], b => if b = c then some (.between, [.plain]) else none
  | .word (c :: rest), b => if b = c then some (.word rest, []) else none
  | .minus, b =>
    if b = 0x30 then some (.zero, []) else if isDigit b then some (.whole, []) else none
  | .zero, b =>
    if isPoint b then some (.point, [])
    else if isExponent b then some (.exponent, [])
    else if isDigit b then none
    else endNumber? b
  | .whole, b =>
    if isDigit b then some (.whole, [])
    else if isPoint b then some (.point, [])
    else if isExponent b then some (.exponent, [])
    else endNumber? b
  | .point, b => if isDigit b then some (.fraction, []) else none
  | .fraction, b =>
    if isDigit b then some (.fraction, [])
    else if isExponent b then some (.exponent, [])
    else endNumber? b
  | .exponent, b =>
    if b = 0x2B ∨ b = 0x2D then some (.exponentSign, [])
    else if isDigit b then some (.exponentDigits, [])
    else none
  | .exponentSign, b => if isDigit b then some (.exponentDigits, []) else none
  | .exponentDigits, b => if isDigit b then some (.exponentDigits, []) else endNumber? b

def finish : Mode → Option (List Lexeme)
  | .between => some []
  | .zero | .whole | .fraction | .exponentDigits => some [.plain]
  | _ => none

/-- The lexemes of a text; `done` are those before it, last one first. -/
def lexemesFrom (mode : Mode) (done : List Lexeme) : List UInt8 → Option (List Lexeme)
  | [] => (finish mode).map fun last => (last.reverse ++ done).reverse
  | b :: rest =>
    match step mode b with
    | none => none
    | some (mode, new) => lexemesFrom mode (new.reverse ++ done) rest

def lexemes (bytes : List UInt8) : Option (List Lexeme) :=
  lexemesFrom .between [] bytes

def fourDigits? (a b c d : UInt8) : Option Nat := do
  return 4096 * (← hexValue? a) + 256 * (← hexValue? b) + 16 * (← hexValue? c) + (← hexValue? d)

def utf8 (n : Nat) : List UInt8 :=
  (String.ofList [Char.ofNat n]).toUTF8.toList

/-- The bytes that a string stands for. A code between 0xD800 and 0xDFFF has to be one half of a
pair. -/
def unescape : List UInt8 → Option (List UInt8)
  | [] => some []
  | 0x5C :: 0x75 :: a :: b :: c :: d :: rest =>
    match fourDigits? a b c d with
    | none => none
    | some n =>
      if n < 0xD800 ∨ 0xDFFF < n then (unescape rest).map (utf8 n ++ ·)
      else if 0xDC00 ≤ n then none
      else
        match rest with
        | 0x5C :: 0x75 :: a :: b :: c :: d :: rest =>
          match fourDigits? a b c d with
          | none => none
          | some low =>
            if low < 0xDC00 ∨ 0xDFFF < low then none
            else
              (unescape rest).map (utf8 (0x10000 + 0x400 * (n - 0xD800) + (low - 0xDC00)) ++ ·)
        | _ => none
  | 0x5C :: b :: rest =>
    match shortEscape? b with
    | none => none
    | some c => (unescape rest).map (c :: ·)
  | b :: rest => (unescape rest).map (b :: ·)

def decode (written : List UInt8) : Option String := do
  String.fromUTF8? ⟨(← unescape written).toArray⟩

inductive Next where
  | value
  /-- a value, or the end of the array that has just been opened -/
  | valueOrEnd
  | key
  /-- a key, or the end of the object that has just been opened -/
  | keyOrEnd
  | colon
  /-- after a value: a comma or the end of what encloses it -/
  | more
deriving DecidableEq, Repr

def Next.inside : Bracket → Next
  | .square => .valueOrEnd
  | .curly => .keyOrEnd

def Next.afterComma : Bracket → Next
  | .square => .value
  | .curly => .key

/-- Whether the lexemes complete a text, inside the given open brackets. -/
def completes : List Bracket → Next → List Lexeme → Bool
  | enclosing, .more, [] => enclosing = []
  | b :: enclosing, .more, .comma :: rest => completes (b :: enclosing) (.afterComma b) rest
  | b :: enclosing, .more, .closing c :: rest => b = c && completes enclosing .more rest
  | enclosing, .colon, .colon :: rest => completes enclosing .value rest
  | enclosing, .key, .string _ :: rest => completes enclosing .colon rest
  | enclosing, .keyOrEnd, .string _ :: rest => completes enclosing .colon rest
  | _ :: enclosing, .keyOrEnd, .closing .curly :: rest => completes enclosing .more rest
  | _ :: enclosing, .valueOrEnd, .closing .square :: rest => completes enclosing .more rest
  | enclosing, .value, .string _ :: rest => completes enclosing .more rest
  | enclosing, .value, .plain :: rest => completes enclosing .more rest
  | enclosing, .value, .opening b :: rest => completes (b :: enclosing) (.inside b) rest
  | enclosing, .valueOrEnd, .string _ :: rest => completes enclosing .more rest
  | enclosing, .valueOrEnd, .plain :: rest => completes enclosing .more rest
  | enclosing, .valueOrEnd, .opening b :: rest => completes (b :: enclosing) (.inside b) rest
  | _, _, _ => false

def wellFormed (ls : List Lexeme) : Bool :=
  completes [] .value ls

/-- The fields of the outermost object of a well-formed text, `depth` levels in: the key as it is
written, and the lexeme that its value starts with. -/
def outerFields : Nat → List Lexeme → List (List UInt8 × Lexeme)
  | _, [] => []
  | 1, .string key :: .colon :: value :: rest => (key, value) :: outerFields 1 (value :: rest)
  | depth, .opening _ :: rest => outerFields (depth + 1) rest
  | depth, .closing _ :: rest => outerFields (depth - 1) rest
  | depth, _ :: rest => outerFields depth rest

end Scriptlet.Json
