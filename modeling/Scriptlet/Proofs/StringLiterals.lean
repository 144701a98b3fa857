import Scriptlet.Proofs.Literals
import Scriptlet.Proofs.Positions

/-!
# Every string has a literal

Between the quotes of a literal, a character is written as it is or by its escape (`Token.Spells`). Every character
can be written in at least one of the two ways, and whichever way is chosen for each character, the literal is read
as one token whose value is the string (`Tokens.ofText_quoted`).

The lexer and the reader of escapes go through the literal apart from each other. Each of them takes one spelled
character in one step: `unescape_spelled`, `escapeFaults_spelled`, and for the end of the literal `mem_insides`.
-/

namespace Scriptlet

namespace Token

/-- The characters that have an escape, each with the letter that stands after the backslash. -/
def escapes : List (Char × Char) :=
  [('\n', 'n'), ('\t', 't'), ('\r', 'r'), ('\\', '\\'), ('"', '"'), ('\x00', '0')]

/-- `Spells c text`: between the quotes of a literal, the character `c` may be written as `text`. -/
inductive Spells : Char → List Char → Prop
  | verbatim {c : Char} (hquote : c ≠ '"') (hbackslash : c ≠ '\\') (hnewline : c ≠ '\n') : Spells c [c]
  | escape {c letter : Char} (h : (c, letter) ∈ escapes) : Spells c ['\\', letter]

/-- The literal whose characters are written as `parts`. -/
def quoted (parts : List (List Char)) : String := String.ofList ('"' :: (parts.flatten ++ ['"']))

variable {cs : List Char} {parts : List (List Char)}

theorem toList_quoted (parts : List (List Char)) : (quoted parts).toList = '"' :: (parts.flatten ++ ['"']) :=
  String.toList_ofList

/-- An escape is one for the lexer, and is read as the character that it is for. -/
theorem escapes_read : ∀ entry ∈ escapes,
    Piece.isEscape entry.2 = true ∧ escaped entry.2 = entry.1 ∧ entry.2 ≠ '\n' := by
  decide

theorem exists_spells (c : Char) : ∃ text, Spells c text := by
  by_cases h : c ∈ escapes.map Prod.fst
  · obtain ⟨⟨_, letter⟩, hletter, rfl⟩ := List.mem_map.1 h
    exact ⟨_, .escape hletter⟩
  · refine ⟨_, .verbatim ?_ ?_ ?_⟩ <;> rintro rfl <;> exact h (by decide)

theorem exists_spelling (cs : List Char) : ∃ parts, List.Forall₂ Spells cs parts := by
  induction cs with
  | nil => exact ⟨[], .nil⟩
  | cons c cs ih =>
    obtain ⟨text, htext⟩ := exists_spells c
    obtain ⟨parts, hparts⟩ := ih
    exact ⟨text :: parts, .cons htext hparts⟩

/-- The escapes are read back as the characters that they are for. -/
theorem unescape_spelled (h : List.Forall₂ Spells cs parts) : unescape parts.flatten = cs := by
  induction h with
  | nil => rfl
  | cons hfirst _ ih =>
    rw [List.flatten_cons]
    cases hfirst with
    | verbatim _ hbackslash _ =>
      rw [List.singleton_append, unescape.eq_3 _ _ (fun _ _ hc => absurd hc hbackslash), ih]
    | escape hletter =>
      rw [List.cons_append, List.singleton_append, unescape, (escapes_read _ hletter).2.1, ih]

theorem unquote_quoted (inside : List Char) : unquote ('"' :: (inside ++ ['"'])) = inside := by
  simp [unquote]

theorem stringValue_quoted {s : String} (h : List.Forall₂ Spells s.toList parts) :
    stringValue (quoted parts) = s := by
  rw [stringValue, toList_quoted, unquote_quoted, unescape_spelled h, String.ofList_toList]

theorem mem_insides (h : List.Forall₂ Spells cs parts) : parts.flatten ∈ Lexeme.insides := by
  induction h with
  | nil => exact Lexeme.insides_nil
  | cons hfirst _ ih =>
    cases hfirst with
    | verbatim hquote hbackslash hnewline => exact Lexeme.insides_plain ⟨hquote, hbackslash, hnewline⟩ ih
    | escape hletter => exact Lexeme.insides_escape (escapes_read _ hletter).2.2 ih

/-- Nothing is wrong with the escapes of spelled characters. -/
theorem escapeFaults_spelled (h : List.Forall₂ Spells cs parts) (p : Position) :
    Piece.escapeFaults p (parts.flatten ++ ['"']) = [] := by
  induction h generalizing p with
  | nil => rfl
  | cons hfirst _ ih =>
    rw [List.flatten_cons, List.append_assoc]
    cases hfirst with
    | verbatim _ hbackslash _ =>
      rw [List.singleton_append, Piece.escapeFaults.eq_3 _ _ _ (fun _ _ hc => absurd hc hbackslash), ih]
    | escape hletter =>
      rw [List.cons_append, List.singleton_append, Piece.escapeFaults, if_pos (escapes_read _ hletter).1, ih]

theorem newline_not_mem_quoted (h : List.Forall₂ Spells cs parts) : '\n' ∉ (quoted parts).toList := by
  have hinside : '\n' ∉ parts.flatten := by
    induction h with
    | nil => exact List.not_mem_nil
    | cons hfirst _ ih =>
      rw [List.flatten_cons, List.mem_append]
      refine not_or.2 ⟨?_, ih⟩
      cases hfirst with
      | verbatim _ _ hnewline => simpa using hnewline.symm
      | escape hletter => simpa using (escapes_read _ hletter).2.2.symm
  simp [toList_quoted, hinside]

end Token

open Token

variable {parts : List (List Char)}

/-- A literal is the first piece of a text that begins with it. -/
theorem Piece.split_quoted {cs : List Char} (h : List.Forall₂ Spells cs parts) (rest : List Char) :
    split ((quoted parts).toList ++ rest) = ⟨.token .str, (quoted parts).toList⟩ :: split rest := by
  have hrest := Lexeme.stringRest_inside (mem_insides h) rest
  have hfirst : first '"' (parts.flatten ++ '"' :: rest) = (⟨.token .str, (quoted parts).toList⟩, rest) := by
    rw [first, if_neg (by decide), if_pos rfl, hrest, toList_quoted]
    rfl
  conv_lhs => rw [toList_quoted, List.cons_append, List.append_assoc, List.singleton_append, split, hfirst]

theorem Piece.diagnostics_quoted {cs : List Char} (h : List.Forall₂ Spells cs parts) (p : Position) :
    diagnostics ⟨.token .str, (quoted parts).toList⟩ p = [] := by
  show escapeFaults (p.advance '"') (quoted parts).toList.tail = []
  rw [toList_quoted]
  exact escapeFaults_spelled h _

namespace Tokens

open Piece

/-- The literal alone is one token. -/
theorem ofText_spelled {cs : List Char} (h : List.Forall₂ Spells cs parts) : ofText (quoted parts) =
    ⟨[⟨.str, quoted parts, .start, (quoted parts).utf8ByteSize⟩,
      Token.endAt ⟨1, 1 + .ofNat (quoted parts).length, (quoted parts).utf8ByteSize⟩], []⟩ := by
  have hsplit : split (quoted parts).toList = [⟨.token .str, (quoted parts).toList⟩] := by
    simpa [split] using split_quoted h []
  have hend : Position.start.advanceAll (quoted parts).toList =
      ⟨1, 1 + .ofNat (quoted parts).length, (quoted parts).utf8ByteSize⟩ := by
    rw [Position.advanceAll_unbroken (newline_not_mem_quoted h), String.ofList_toList, String.length_toList,
      Position.start, Nat.zero_add]
  simp [ofText, hsplit, place, token?, hend, diagnostics_quoted h]

/-- The literal and a semicolon are a program. -/
theorem ofTokens_spelled {s : String} (h : List.Forall₂ Spells s.toList parts) : ∃ stmtSpan span,
    Program.ofTokens (ofText (quoted parts ++ ";")).tokens =
      ⟨⟨[.expr (.literal (.str s) ⟨.start, (quoted parts).utf8ByteSize⟩) stmtSpan], span⟩, []⟩ := by
  have hsplit : split (quoted parts ++ ";").toList =
      [⟨.token .str, (quoted parts).toList⟩, ⟨.token .semicolon, [';']⟩] := by
    have hsemi : split [';'] = [⟨.token .semicolon, [';']⟩] := by
      rw [split, show first ';' [] = (⟨.token .semicolon, [';']⟩, []) from rfl, split]
    rw [String.toList_append, split_quoted h, show ";".toList = [';'] from rfl, hsemi]
  have htokens : ∃ semi eof : Token, semi.kind = .semicolon ∧ eof.kind = .eof ∧
      (ofText (quoted parts ++ ";")).tokens =
        [⟨.str, quoted parts, .start, (quoted parts).utf8ByteSize⟩, semi, eof] := by
    simp only [ofText, hsplit, place, List.filterMap_cons, List.filterMap_nil, token?, String.ofList_toList,
      end_offset]
    exact ⟨_, _, rfl, rfl, rfl⟩
  obtain ⟨semi, eof, hsemi, heof, htokens⟩ := htokens
  rw [htokens, Program.ofTokens_string rfl hsemi heof, stringValue_quoted h]
  exact ⟨_, _, rfl⟩

/-- String literals can express every string. Each string can be spelled, and however it is spelled, the literal is
read as one string token and the end of input, with nothing to report; its value is the string; and so is the literal
in the tree. The latter is said of the literal as a statement of its own, of every place where an expression is read
that begins with such a token, and of every program that is read without a report: its literals are the values of the
literal tokens, one by one, and the string is the one that belongs to the token. -/
theorem ofText_quoted (s : String) :
    (∃ parts, List.Forall₂ Spells s.toList parts) ∧
    ∀ parts, List.Forall₂ Spells s.toList parts →
      let text := quoted parts
      let literal : Token := ⟨.str, text, .start, text.utf8ByteSize⟩
      ofText text = ⟨[literal, Token.endAt ⟨1, 1 + .ofNat text.length, text.utf8ByteSize⟩], []⟩ ∧
      Token.stringValue literal.lexeme = s ∧
      (∃ stmtSpan span, Program.ofTokens (ofText (text ++ ";")).tokens =
        ⟨⟨[.expr (.literal (.str s) literal.span) stmtSpan], span⟩, []⟩) ∧
      ∀ t : Token, t.kind = .str → t.lexeme = text →
        (∀ n (r : Reader.State) rest, r.rest = t :: rest →
          Expr.readPrimary n r = .ok (.literal (.str s) t.span) r.advance) ∧
        ∀ before after, Token.Ended (before ++ t :: after) →
          (Program.ofTokens (before ++ t :: after)).diagnostics = [] →
          (Program.ofTokens (before ++ t :: after)).program.literals =
            before.filterMap Literal.ofToken? ++ .str s :: after.filterMap Literal.ofToken? := by
  refine ⟨exists_spelling s.toList, fun parts h => ?_⟩
  refine ⟨ofText_spelled h, stringValue_quoted h, ofTokens_spelled h, fun t hkind hlexeme => ?_⟩
  have hvalue : Literal.ofToken? t = some (.str s) := by
    rw [Literal.ofToken?, hkind, hlexeme, stringValue_quoted h]
  refine ⟨fun n r rest hrest => Expr.readPrimary_literal hrest hvalue n, fun before after hended hquiet => ?_⟩
  rw [Program.ofTokens_literals hended hquiet, List.filterMap_append, List.filterMap_cons_some hvalue]

/-- The tab is written in both ways, and what would end the literal stands in the middle of it. -/
theorem ofText_quoted_bothTabs :
    let s := "a\t\"\\\n\x00é\t"
    let parts := [['a'], ['\t'], ['\\', '"'], ['\\', '\\'], ['\\', 'n'], ['\\', '0'], ['é'], ['\\', 't']]
    let text := "\"a\t\\\"\\\\\\n\\0é\\t\""
    let source := "print(1 + \"a\t\\\"\\\\\\n\\0é\\t\");"
    List.Forall₂ Spells s.toList parts ∧ quoted parts = text ∧
    ofText text = ⟨[⟨.str, text, .start, 16⟩, Token.endAt ⟨1, 16, 16⟩], []⟩ ∧
    Token.stringValue text = s ∧
    (Program.ofTokens (ofText source).tokens).diagnostics = [] ∧
    (Program.ofTokens (ofText source).tokens).program.literals = [.int 1, .str s] := by
  intro s parts text source
  have hplain {c : Char} (h : c ≠ '"' ∧ c ≠ '\\' ∧ c ≠ '\n') : Spells c [c] := .verbatim h.1 h.2.1 h.2.2
  have hchars : s.toList = ['a', '\t', '"', '\\', '\n', '\x00', 'é', '\t'] := by decide +kernel
  have hspelled : List.Forall₂ Spells s.toList parts := by
    rw [hchars]
    exact .cons (hplain (by decide)) <| .cons (hplain (by decide)) <| .cons (.escape (by decide)) <|
      .cons (.escape (by decide)) <| .cons (.escape (by decide)) <| .cons (.escape (by decide)) <|
      .cons (hplain (by decide)) <| .cons (.escape (by decide)) .nil
  have htext : quoted parts = text := by decide +kernel
  obtain ⟨htokens, hvalue, -, htree⟩ := (ofText_quoted s).2 parts hspelled
  obtain ⟨hsize, hlength⟩ : text.utf8ByteSize = 16 ∧ text.length = 15 := by decide +kernel
  rw [htext] at htokens hvalue htree
  rw [hsize, hlength] at htokens
  let before : List Token := [⟨.printWord, "print", ⟨1, 1, 0⟩, 5⟩, ⟨.lparen, "(", ⟨1, 6, 5⟩, 6⟩,
    ⟨.number, "1", ⟨1, 7, 6⟩, 7⟩, ⟨.plus, "+", ⟨1, 9, 8⟩, 9⟩]
  let after : List Token := [⟨.rparen, ")", ⟨1, 26, 26⟩, 27⟩, ⟨.semicolon, ";", ⟨1, 27, 27⟩, 28⟩,
    ⟨.eof, "", ⟨1, 28, 28⟩, 28⟩]
  let t : Token := ⟨.str, text, ⟨1, 11, 10⟩, 26⟩
  have hsource : (ofText source).tokens = before ++ t :: after := by decide +kernel
  have hquiet : (Program.ofTokens (ofText source).tokens).diagnostics = [] := by decide +kernel
  have hended := ofText_ended source
  refine ⟨hspelled, htext, htokens, hvalue, hquiet, ?_⟩
  rw [hsource] at hquiet hended ⊢
  exact (htree t rfl rfl).2 before after hended hquiet

end Tokens

end Scriptlet
