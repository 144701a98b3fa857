import Scriptlet.Diagnostic
import Scriptlet.Text.Blank
import Scriptlet.Text.Numeral
import Scriptlet.Text.Shown
import Scriptlet.Token

/-!
# Splitting a text into pieces

A text is a row of pieces: blanks, comments, tokens, and stretches that are none of these. Splitting
loses nothing, `join_split` says: the pieces joined are the text. What a piece contributes, a token or
diagnostics, depends on the piece and on the position where it stands, and that position is known from
the characters before it.
-/

namespace Scriptlet

inductive Piece.Sort where
  /-- one blank character -/
  | blank
  /-- a line comment, or a block comment with its end -/
  | comment
  /-- a block comment that runs to the end of the text -/
  | openComment
  | token (kind : Token.Kind)
  /-- a string literal that is not closed on its line -/
  | openString
  /-- a character that begins nothing -/
  | stray
deriving DecidableEq, Repr

structure Piece where
  sort : Piece.Sort
  text : List Char
deriving DecidableEq, Repr

namespace Piece

def isNameStart (c : Char) : Bool :=
  c.isAlpha || c == '_'

def isNameRest (c : Char) : Bool :=
  isNameStart c || c.isDigit

def isEscape (c : Char) : Bool :=
  c == 'n' || c == 't' || c == 'r' || c == '\\' || c == '"' || c == '0'

/-- The rest of a block comment: what belongs to it, what follows, and whether its end was found. -/
def blockComment : List Char → List Char × List Char × Bool
  | [] => ([], [], false)
  | '*' :: '/' :: cs => (['*', '/'], cs, true)
  | c :: cs =>
    let (inside, rest, closed) := blockComment cs
    (c :: inside, rest, closed)

/-- The rest of a string literal after its opening quote: what belongs to it, what follows, and
whether its closing quote was found. The literal does not go past the end of its line, not even after
a backslash. -/
def stringRest : List Char → List Char × List Char × Bool
  | [] => ([], [], false)
  | '"' :: cs => (['"'], cs, true)
  | '\n' :: cs => ([], '\n' :: cs, false)
  | '\\' :: '\n' :: cs => (['\\'], '\n' :: cs, false)
  | '\\' :: c :: cs =>
    let (inside, rest, closed) := stringRest cs
    ('\\' :: c :: inside, rest, closed)
  | c :: cs =>
    let (inside, rest, closed) := stringRest cs
    (c :: inside, rest, closed)

def number (cs : List Char) : Piece × List Char :=
  let whole := cs.takeWhile Char.isDigit
  match cs.dropWhile Char.isDigit with
  | '.' :: d :: after =>
    if d.isDigit then
      (⟨.token .fnumber, whole ++ '.' :: (d :: after).takeWhile Char.isDigit⟩,
        (d :: after).dropWhile Char.isDigit)
    else (⟨.token .number, whole⟩, '.' :: d :: after)
  | rest => (⟨.token .number, whole⟩, rest)

def word (cs : List Char) : Piece × List Char :=
  let name := cs.takeWhile isNameRest
  (⟨.token ((Token.Kind.ofWord? (String.ofList name)).getD .ident), name⟩, cs.dropWhile isNameRest)

def symbol (c : Char) : Piece :=
  match Token.Kind.ofChar? c with
  | some kind => ⟨.token kind, [c]⟩
  | none => ⟨.stray, [c]⟩

/-- A comment, or the longest operator or delimiter. -/
def commentOrSymbol (c : Char) (cs : List Char) : Piece × List Char :=
  match c, cs with
  | '/', '/' :: cs =>
    (⟨.comment, '/' :: '/' :: cs.takeWhile (· != '\n')⟩, cs.dropWhile (· != '\n'))
  | '/', '*' :: cs =>
    let (inside, rest, closed) := blockComment cs
    (⟨if closed then .comment else .openComment, '/' :: '*' :: inside⟩, rest)
  | c, d :: rest =>
    match Token.Kind.ofPair? c d with
    | some kind => (⟨.token kind, [c, d]⟩, rest)
    | none => (symbol c, d :: rest)
  | c, [] => (symbol c, [])

/-- The first piece of the text `c :: cs`, and what follows it. -/
def first (c : Char) (cs : List Char) : Piece × List Char :=
  if Text.isBlank c then (⟨.blank, [c]⟩, cs)
  else if c = '"' then
    let (inside, rest, closed) := stringRest cs
    (⟨if closed then .token .str else .openString, '"' :: inside⟩, rest)
  else if c.isDigit then number (c :: cs)
  else if isNameStart c then word (c :: cs)
  else commentOrSymbol c cs

theorem blockComment_append (cs : List Char) :
    (blockComment cs).1 ++ (blockComment cs).2.1 = cs := by
  fun_induction blockComment cs with
  | case1 => rfl
  | case2 => rfl
  | case3 c cs _ inside rest closed h ih => simpa [h] using ih

theorem stringRest_append (cs : List Char) : (stringRest cs).1 ++ (stringRest cs).2.1 = cs := by
  fun_induction stringRest cs with
  | case1 => rfl
  | case2 => rfl
  | case3 => rfl
  | case4 => rfl
  | case5 c cs _ inside rest closed h ih => simpa [h] using ih
  | case6 c cs _ _ _ _ inside rest closed h ih => simpa [h] using ih

theorem number_append (cs : List Char) : (number cs).1.text ++ (number cs).2 = cs := by
  have hwhole := List.takeWhile_append_dropWhile (p := Char.isDigit) (l := cs)
  unfold number
  split
  · rename_i d after h
    rw [h] at hwhole
    split
    · simpa using hwhole
    · exact hwhole
  · exact hwhole

theorem word_append (cs : List Char) : (word cs).1.text ++ (word cs).2 = cs := by
  simp [word]

theorem symbol_text (c : Char) : (symbol c).text = [c] := by
  unfold symbol
  split <;> rfl

theorem commentOrSymbol_append (c : Char) (cs : List Char) :
    (commentOrSymbol c cs).1.text ++ (commentOrSymbol c cs).2 = c :: cs := by
  unfold commentOrSymbol
  split
  · simp
  · rename_i cs
    simpa using blockComment_append cs
  · split
    · rfl
    · simp [symbol_text]
  · simp [symbol_text]

theorem first_append (c : Char) (cs : List Char) :
    (first c cs).1.text ++ (first c cs).2 = c :: cs := by
  unfold first
  split
  · rfl
  split
  · rename_i h
    subst h
    simpa using stringRest_append cs
  split
  · exact number_append _
  split
  · exact word_append _
  · exact commentOrSymbol_append c cs

theorem number_text_ne_nil {c : Char} (h : c.isDigit) (cs : List Char) :
    (number (c :: cs)).1.text ≠ [] := by
  unfold number
  split
  · split <;> simp [h]
  · simp [h]

theorem first_text_ne_nil (c : Char) (cs : List Char) : (first c cs).1.text ≠ [] := by
  unfold first
  split
  · simp
  split
  · simp
  split
  · rename_i h; exact number_text_ne_nil h cs
  split
  · rename_i h
    simp [word, isNameRest, h]
  · unfold commentOrSymbol
    split
    · simp
    · simp
    · split <;> simp [symbol_text]
    · simp [symbol_text]

theorem first_rest_length (c : Char) (cs : List Char) : (first c cs).2.length ≤ cs.length := by
  have happ := congrArg List.length (first_append c cs)
  have hpos := List.length_pos_iff.2 (first_text_ne_nil c cs)
  simp only [List.length_append, List.length_cons] at happ
  omega

def split : List Char → List Piece
  | [] => []
  | c :: cs => (first c cs).1 :: split (first c cs).2
termination_by cs => cs.length
decreasing_by
  have := first_rest_length c cs
  simp only [List.length_cons]
  omega

/-- Splitting a text loses nothing. -/
theorem join_split (cs : List Char) : (split cs).flatMap text = cs := by
  fun_induction split cs with
  | case1 => rfl
  | case2 c cs ih => rw [List.flatMap_cons, ih, first_append]

def token? (piece : Piece) (p : Position) : Option Token :=
  match piece.sort with
  | .token kind => some ⟨kind, String.ofList piece.text, p, (p.advanceAll piece.text).offset⟩
  | _ => none

inductive Fault where
  | invalidCharacter (c : Char)
  | unterminatedString
  | invalidEscape (c : Char)
  | unterminatedComment
  | numberOutOfRange (lexeme : String)
deriving DecidableEq, Repr

namespace Fault

def code : Fault → Code
  | invalidCharacter _ => .invalidCharacter
  | unterminatedString => .unterminatedString
  | invalidEscape _ => .invalidEscape
  | unterminatedComment => .unterminatedComment
  | numberOutOfRange _ => .invalidNumber

def message : Fault → String
  | invalidCharacter c => s!"invalid character '{Text.shown c}'"
  | unterminatedString => "unterminated string literal"
  | invalidEscape c => "invalid escape sequence '\\" ++ Text.shown c ++ "'"
  | unterminatedComment => "unterminated block comment"
  | numberOutOfRange lexeme => s!"number literal '{lexeme}' is out of range"

def diagnostic (f : Fault) (p : Position) (text : List Char) : Diagnostic :=
  ⟨.lexical, .error, f.code, f.message, p, (p.advanceAll text).offset⟩

end Fault

/-- The faulty escapes in the inside of a string literal that goes on at `p`. -/
def escapeFaults (p : Position) : List Char → List Diagnostic
  | [] => []
  | '\\' :: c :: cs =>
    let rest := escapeFaults ((p.advance '\\').advance c) cs
    if isEscape c then rest else Fault.diagnostic (.invalidEscape c) p ['\\', c] :: rest
  | c :: cs => escapeFaults (p.advance c) cs

def inRange (kind : Token.Kind) (cs : List Char) : Bool :=
  match kind with
  | .number => (Text.int64? cs).isSome
  | .fnumber => (Text.float? cs).any Float.isFinite
  | _ => true

def diagnostics (piece : Piece) (p : Position) : List Diagnostic :=
  let whole (f : Fault) := f.diagnostic p piece.text
  match piece.sort with
  | .blank | .comment => []
  | .openComment => [whole .unterminatedComment]
  | .stray => piece.text.map fun c => whole (.invalidCharacter c)
  | .openString => escapeFaults (p.advance '"') piece.text.tail ++ [whole .unterminatedString]
  | .token .str => escapeFaults (p.advance '"') piece.text.tail
  | .token kind =>
    if inRange kind piece.text then []
    else [whole (.numberOutOfRange (String.ofList piece.text))]

/-- Each piece with the position where it stands, the first at `p`. -/
def place (p : Position) : List Piece → List (Position × Piece)
  | [] => []
  | piece :: rest => (p, piece) :: place (p.advanceAll piece.text) rest

end Piece

/-- The tokens of a text, closed by the end-of-input token, and what is wrong with the text. -/
structure Tokens where
  tokens : List Token
  diagnostics : List Diagnostic
deriving DecidableEq, Repr

def Tokens.ofText (source : String) : Tokens :=
  let cs := source.toList
  let placed := Piece.place .start (Piece.split cs)
  { tokens := placed.filterMap (fun (p, piece) => piece.token? p) ++
      [Token.endAt (Position.start.advanceAll cs)]
    diagnostics := placed.flatMap fun (p, piece) => piece.diagnostics p }

end Scriptlet
