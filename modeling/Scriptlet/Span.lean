/-!
# Places in a program text

A `Position` is a line and a column, both counted from 1 and the column in characters, together with
its offset from the start of the text in UTF-8 bytes. A `Span` is a stretch of bytes that begins at a
position. `Position.advance` is the only way to move: a place is known from the characters before it.
Lines and columns are counted in 32 bits, and after the last of them the count goes on with 0. Offsets
have no bound; in a text of less than 4 GiB they fit in 32 bits too.
-/

namespace Scriptlet

structure Position where
  line : UInt32
  column : UInt32
  offset : Nat
deriving DecidableEq, Repr, Inhabited

namespace Position

def start : Position := ⟨1, 1, 0⟩

def advance (p : Position) (c : Char) : Position :=
  if c = '\n' then ⟨p.line + 1, 1, p.offset + c.utf8Size⟩
  else ⟨p.line, p.column + 1, p.offset + c.utf8Size⟩

def advanceAll (p : Position) (cs : List Char) : Position :=
  cs.foldl advance p

@[simp] theorem advanceAll_nil (p : Position) : p.advanceAll [] = p := rfl

@[simp] theorem advanceAll_cons (p : Position) (c : Char) (cs : List Char) :
    p.advanceAll (c :: cs) = (p.advance c).advanceAll cs := rfl

@[simp] theorem advanceAll_append (p : Position) (cs ds : List Char) :
    p.advanceAll (cs ++ ds) = (p.advanceAll cs).advanceAll ds :=
  List.foldl_append

/-- The position as messages name it: `line:column`. -/
def text (p : Position) : String :=
  s!"{p.line}:{p.column}"

end Position

/-- The bytes from `start` up to, but not including, offset `stop`. -/
structure Span where
  start : Position
  stop : Nat
deriving DecidableEq, Repr, Inhabited

namespace Span

def point (p : Position) : Span := ⟨p, p.offset⟩

/-- The smallest span that covers both. The left one's position is kept when they start together. -/
def join (a b : Span) : Span where
  start := if b.start.offset < a.start.offset then b.start else a.start
  stop := max a.stop b.stop

def contains (a b : Span) : Bool :=
  a.start.offset ≤ b.start.offset && b.stop ≤ a.stop

end Span

end Scriptlet
