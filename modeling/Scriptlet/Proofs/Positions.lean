import Scriptlet.Proofs.Gating
import Scriptlet.Proofs.MaximalMunch

/-!
# Positions are right

What the line, the column and the offset of a place in a text are is said here by counting what stands before it
(`Position.Stands`), and not by walking through the text. A position that stands right still does after a
character (`Stands.advance`), unless the count of the lines or the columns is at its end. So each that is reached
from the start of a text stands right (`ReachedIn.standsIn`) if the text is shorter than `2 ^ 32 - 1` bytes. The
start of a piece is reached in this way, and so is every place inside it where something is reported
(`Piece.diagnostics_reached`).
-/

namespace Scriptlet

namespace Position

/-- `p` is the place in the text `cs` after the whole lines `upper` and after `current` on its own line: the
offset counts bytes, the line counts line breaks, and the column counts characters. -/
structure Stands (p : Position) (cs upper current : List Char) : Prop where
  front : upper ++ current <+: cs
  whole : upper = [] ∨ upper.getLast? = some '\n'
  unbroken : '\n' ∉ current
  offset : p.offset = (String.ofList (upper ++ current)).utf8ByteSize
  line : p.line.toNat = 1 + (upper ++ current).count '\n'
  column : p.column.toNat = 1 + current.length

/-- The position is that of a place between the characters of the text. -/
def StandsIn (p : Position) (source : String) : Prop := ∃ upper current, p.Stands source.toList upper current

theorem length_le_size (cs : List Char) : cs.length ≤ (String.ofList cs).utf8ByteSize := by
  induction cs with
  | nil => exact Nat.zero_le _
  | cons c cs ih =>
    have hc := c.utf8Size_pos
    rw [String.ofList_cons, String.utf8ByteSize_append, String.utf8ByteSize_singleton, List.length_cons]
    omega

theorem size_le_of_front {source : String} {before : List Char} (h : before <+: source.toList) :
    (String.ofList before).utf8ByteSize ≤ source.utf8ByteSize := by
  obtain ⟨after, hafter⟩ := h
  have hsource : source = String.ofList before ++ String.ofList after := by
    rw [← String.ofList_append, hafter, String.ofList_toList]
  rw [hsource, String.utf8ByteSize_append]
  exact Nat.le_add_right _ _

theorem toNat_next {n : UInt32} (h : n.toNat + 1 < 2 ^ 32) : (n + 1).toNat = n.toNat + 1 := by
  rw [UInt32.toNat_add]
  exact Nat.mod_eq_of_lt h

namespace Stands

variable {p : Position} {cs upper current : List Char} {c : Char}

theorem start (cs : List Char) : start.Stands cs [] [] where
  front := List.nil_prefix
  whole := .inl rfl
  unbroken := List.not_mem_nil
  offset := rfl
  line := rfl
  column := rfl

theorem offset_le {source : String} (h : p.Stands source.toList upper current) :
    p.offset ≤ source.utf8ByteSize :=
  h.offset.trans_le (size_le_of_front h.front)

/-- Each character adds to the line or to the column, and it adds at least one byte. -/
theorem line_add_column_le (h : p.Stands cs upper current) : p.line.toNat + p.column.toNat ≤ p.offset + 2 := by
  have hcount : upper.count '\n' ≤ upper.length := List.count_le_length
  have hnone : current.count '\n' = 0 := List.count_eq_zero.2 h.unbroken
  have hsize := length_le_size (upper ++ current)
  rw [← h.offset, List.length_append] at hsize
  rw [h.line, h.column, List.count_append, hnone]
  omega

theorem newline (h : p.Stands cs upper current) (hfront : upper ++ current ++ ['\n'] <+: cs)
    (hcounts : p.offset + 2 < 2 ^ 32) : (p.advance '\n').Stands cs (upper ++ current ++ ['\n']) [] where
  front := by rwa [List.append_nil]
  whole := .inr List.getLast?_concat
  unbroken := List.not_mem_nil
  offset := by
    rw [List.append_nil, String.ofList_append, String.utf8ByteSize_append, ← h.offset]
    rfl
  line := by
    have hbound := h.line_add_column_le
    have hcolumn := h.column
    rw [List.append_nil, List.count_append, ← Nat.add_assoc, ← h.line]
    exact toNat_next (by omega)
  column := rfl

theorem within (h : p.Stands cs upper current) (hc : c ≠ '\n') (hfront : upper ++ (current ++ [c]) <+: cs)
    (hcounts : p.offset + 2 < 2 ^ 32) : (p.advance c).Stands cs upper (current ++ [c]) where
  front := hfront
  whole := h.whole
  unbroken := by
    rw [List.mem_append, List.mem_singleton]
    exact not_or.2 ⟨h.unbroken, hc.symm⟩
  offset := by
    rw [← List.append_assoc, String.ofList_append, String.utf8ByteSize_append, ← h.offset, advance, if_neg hc,
      String.ofList_cons, String.utf8ByteSize_append, String.utf8ByteSize_singleton]
    rfl
  line := by
    rw [← List.append_assoc, List.count_append, List.count_singleton, beq_false_of_ne hc, ← Nat.add_assoc, ← h.line,
      advance, if_neg hc]
    rfl
  column := by
    have hbound := h.line_add_column_le
    have hline := h.line
    rw [advance, if_neg hc, List.length_append, ← Nat.add_assoc, ← h.column]
    exact toNat_next (by omega)

/-- The next character keeps a position right, if it can be counted. -/
theorem advance (h : p.Stands cs upper current) (hfront : upper ++ current ++ [c] <+: cs)
    (hcounts : p.offset + 2 < 2 ^ 32) :
    ∃ upper' current', upper' ++ current' = upper ++ current ++ [c] ∧ (p.advance c).Stands cs upper' current' := by
  by_cases hc : c = '\n'
  · subst hc
    exact ⟨_, _, List.append_nil _, h.newline hfront hcounts⟩
  · rw [List.append_assoc] at hfront ⊢
    exact ⟨_, _, rfl, h.within hc hfront hcounts⟩

end Stands

/-- A position reached from the start of the text is right. -/
theorem stands_advanceAll {cs before : List Char} (h : before <+: cs)
    (hsize : (String.ofList before).utf8ByteSize < 2 ^ 32 - 1) :
    ∃ upper current, upper ++ current = before ∧ (start.advanceAll before).Stands cs upper current := by
  induction before using List.reverseRecOn with
  | nil => exact ⟨[], [], rfl, .start cs⟩
  | append_singleton before c ih =>
    have hgrows : (String.ofList before).utf8ByteSize + 1 ≤ (String.ofList (before ++ [c])).utf8ByteSize := by
      rw [String.ofList_append, String.utf8ByteSize_append]
      exact Nat.add_le_add_left (length_le_size [c]) _
    obtain ⟨upper, current, rfl, hstands⟩ := ih ((List.prefix_append _ _).trans h) (by omega)
    rw [advanceAll_append]
    exact hstands.advance h (by rw [hstands.offset]; omega)

/-- The position is reached from the start of the text. -/
def ReachedIn (p : Position) (source : String) : Prop :=
  ∃ before, before <+: source.toList ∧ p = start.advanceAll before

theorem ReachedIn.standsIn {p : Position} {source : String} (h : p.ReachedIn source)
    (hsize : source.utf8ByteSize < 2 ^ 32 - 1) : p.StandsIn source := by
  obtain ⟨before, hbefore, rfl⟩ := h
  obtain ⟨upper, current, -, hstands⟩ :=
    stands_advanceAll hbefore (Nat.lt_of_le_of_lt (size_le_of_front hbefore) hsize)
  exact ⟨upper, current, hstands⟩

/-- The end of a text on one line. -/
theorem advanceAll_unbroken {p : Position} {cs : List Char} (h : '\n' ∉ cs) :
    p.advanceAll cs = ⟨p.line, p.column + .ofNat cs.length, p.offset + (String.ofList cs).utf8ByteSize⟩ := by
  induction cs generalizing p with
  | nil => simp
  | cons c cs ih =>
    obtain ⟨hc, hcs⟩ := not_or.1 (mt List.mem_cons.2 h)
    rw [advanceAll_cons, ih hcs, advance, if_neg (Ne.symm hc), String.ofList_cons, String.utf8ByteSize_append,
      String.utf8ByteSize_singleton, List.length_cons, Nat.add_comm cs.length, UInt32.ofNat_add]
    simp only [UInt32.add_assoc, Nat.add_assoc, Position.mk.injEq, true_and]
    exact ⟨rfl, trivial⟩

theorem line_advanceAll (p : Position) (cs : List Char) :
    (p.advanceAll cs).line = p.line + .ofNat (cs.count '\n') := by
  induction cs generalizing p with
  | nil => exact (UInt32.add_zero _).symm
  | cons c cs ih =>
    rw [advanceAll_cons, ih, List.count_cons, advance, UInt32.ofNat_add]
    split
    · next hc =>
      subst hc
      rw [UInt32.add_assoc, UInt32.add_comm 1]
      rfl
    · next hc =>
      simp only [beq_iff_eq, hc, if_false]
      exact congrArg _ (UInt32.add_zero _).symm

end Position

/-! ### Where something is reported -/

theorem Lexeme.quote {text : List Char} (h : Lexeme .str text) : ∃ inside, text = '"' :: inside := by
  cases h with
  | keyword hs => simp [Lexeme.keywords] at hs
  | string htext =>
    obtain ⟨inside, -, rfl⟩ := Lexeme.mem_strings.1 htext
    exact ⟨_, rfl⟩
  | symbol hs => simp [Lexeme.symbols] at hs

namespace Piece

variable {p : Position} {piece : Piece} {d : Diagnostic}

theorem escapeFaults_reached {cs : List Char} (h : d ∈ escapeFaults p cs) :
    ∃ inside, inside <+: cs ∧ d.span.start = p.advanceAll inside := by
  fun_induction escapeFaults p cs with
  | case1 => cases h
  | case2 p c cs rest hescape ih =>
    obtain ⟨inside, hinside, hstart⟩ := ih h
    exact ⟨'\\' :: c :: inside, by simpa using hinside, hstart⟩
  | case3 p c cs rest hescape ih =>
    rcases List.mem_cons.1 h with rfl | h
    · exact ⟨[], List.nil_prefix, rfl⟩
    · obtain ⟨inside, hinside, hstart⟩ := ih h
      exact ⟨'\\' :: c :: inside, by simpa using hinside, hstart⟩
  | case4 p c cs _ ih =>
    obtain ⟨inside, hinside, hstart⟩ := ih h
    exact ⟨c :: inside, by simpa using hinside, hstart⟩

/-- A string literal begins with a quote, whether it is closed or not. -/
theorem first_quote {c : Char} {cs : List Char}
    (h : (first c cs).1.sort = .token .str ∨ (first c cs).1.sort = .openString) :
    ∃ inside, (first c cs).1.text = '"' :: inside := by
  rcases h with h | h
  · exact (Lexeme.of_first h).quote
  · revert h
    refine first_elim (motive := fun piece _ => piece.sort = .openString → ∃ inside, piece.text = '"' :: inside)
      c cs (fun _ => nofun) (fun _ => ⟨_, rfl⟩) ?_ nofun (fun _ => nofun) ?_ (fun _ _ _ => nofun) ?_
    · obtain ⟨k, hk⟩ := number_isToken (c :: cs)
      rw [hk]
      nofun
    · intro ds
      dsimp only
      split <;> nofun
    · rcases symbol_isToken c with h | ⟨k, h⟩ <;> rw [h] <;> nofun

/-- What is wrong with a piece is reported at its start or inside it. -/
theorem diagnostics_reached
    (hquote : piece.sort = .token .str ∨ piece.sort = .openString → ∃ inside, piece.text = '"' :: inside)
    (h : d ∈ piece.diagnostics p) : ∃ inside, inside <+: piece.text ∧ d.span.start = p.advanceAll inside := by
  have hwhole {f : Fault} (h : d = f.diagnostic p piece.text) :
      ∃ inside, inside <+: piece.text ∧ d.span.start = p.advanceAll inside :=
    ⟨[], List.nil_prefix, by rw [h]; rfl⟩
  have hinside (hsort : piece.sort = .token .str ∨ piece.sort = .openString)
      (h : d ∈ escapeFaults (p.advance '"') piece.text.tail) :
      ∃ inside, inside <+: piece.text ∧ d.span.start = p.advanceAll inside := by
    obtain ⟨body, hbody⟩ := hquote hsort
    rw [hbody] at h ⊢
    obtain ⟨inside, hinside, hstart⟩ := escapeFaults_reached h
    exact ⟨'"' :: inside, List.prefix_cons_inj _ |>.2 hinside, hstart⟩
  unfold diagnostics at h
  split at h
  · cases h
  · cases h
  · exact hwhole (List.mem_singleton.1 h)
  · obtain ⟨c, -, rfl⟩ := List.mem_map.1 h
    exact hwhole rfl
  · next hsort =>
    rcases List.mem_append.1 h with h | h
    · exact hinside (.inr hsort) h
    · exact hwhole (List.mem_singleton.1 h)
  · next hsort => exact hinside (.inl hsort) h
  · split at h
    · cases h
    · exact hwhole (List.mem_singleton.1 h)

end Piece

namespace Tokens

open Piece

variable {source : String}

/-- A place in a piece of a text is reached from the start of the text. -/
theorem place_reached {p : Position} {piece : Piece} {inside : List Char}
    (h : (p, piece) ∈ place .start (split source.toList)) (hinside : inside <+: piece.text) :
    (p.advanceAll inside).ReachedIn source := by
  obtain ⟨before, c, rest, hsource, rfl, rfl⟩ := place_first h
  refine ⟨before ++ inside, ?_, (Position.advanceAll_append _ _ _).symm⟩
  rw [hsource, List.prefix_append_right_inj, ← first_append c rest]
  exact hinside.trans (List.prefix_append _ _)

theorem token_reached {t : Token} (h : t ∈ (ofText source).tokens) : t.span.start.ReachedIn source := by
  rcases mem_ofText h with rfl | ⟨p, piece, hmem, htoken⟩
  · exact ⟨_, List.prefix_rfl, rfl⟩
  · rw [token_start htoken]
    exact place_reached hmem List.nil_prefix

theorem diagnostic_reached {d : Diagnostic} (h : d ∈ (ofText source).diagnostics) :
    d.span.start.ReachedIn source := by
  obtain ⟨⟨p, piece⟩, hmem, hd⟩ := List.mem_flatMap.1 h
  have hquote : piece.sort = .token .str ∨ piece.sort = .openString → ∃ inside, piece.text = '"' :: inside := by
    obtain ⟨-, c, rest, -, -, rfl⟩ := place_first hmem
    exact first_quote
  obtain ⟨inside, hinside, hstart⟩ := diagnostics_reached hquote hd
  rw [hstart]
  exact place_reached hmem hinside

/-! ### The number of lines -/

theorem linesOfCode_eq {source : String} (hsize : source.utf8ByteSize < 2 ^ 32 - 1) :
    linesOfCode source = (Position.start.advanceAll source.toList).line.toNat := by
  have hsize' : (String.ofList source.toList).utf8ByteSize < 2 ^ 32 - 1 := by rwa [String.ofList_toList]
  obtain ⟨upper, current, hsource, hstands⟩ := Position.stands_advanceAll List.prefix_rfl hsize'
  rw [hstands.line, hsource, linesOfCode, Nat.add_comm]

theorem compile_linesOfCode (options : CompileOptions) (clock : Clock) (source : String) :
    (compile options clock source).metrics.map (·.linesOfCode) =
      if options.includeMetrics then some (linesOfCode source) else none := by
  have hcourse := compile_course options clock source
  generalize compile options clock source = report at hcourse ⊢
  cases hcourse <;> unfold Report.of <;> split <;> rfl

/-- Positions are right in a text shorter than `2 ^ 32 - 1` bytes. Each token, the end of input included, and each
lexical diagnostic begins between two characters; its line is the number of line breaks before it, its column the
number of characters before it on its line, both counted from 1, and its offset the number of bytes before it. The
number of lines of code is the line of the end of input. -/
theorem ofText_positions (source : String) (hsize : source.utf8ByteSize < 2 ^ 32 - 1) :
    (∀ t ∈ (ofText source).tokens, t.span.start.StandsIn source) ∧
    (∀ d ∈ (ofText source).diagnostics, d.span.start.StandsIn source) ∧
    ∃ ts eof, (ofText source).tokens = ts ++ [eof] ∧ eof.kind = .eof ∧
      eof.span.start.offset = source.utf8ByteSize ∧
      ∀ options clock, (compile options clock source).metrics.map (·.linesOfCode) =
        if options.includeMetrics then some eof.span.start.line.toNat else none := by
  refine ⟨fun t ht => ?_, fun d hd => ?_, _, _, rfl, rfl, end_offset source, fun options clock => ?_⟩
  · exact (token_reached ht).standsIn hsize
  · exact (diagnostic_reached hd).standsIn hsize
  · rw [compile_linesOfCode, linesOfCode_eq hsize]
    rfl

/-- A comment over two lines and characters of two bytes stand before the reported escape and before the name. -/
theorem ofText_positions_secondLine :
    let source := "é /*\nü*/ \"ä\\q\n  x"
    let name : Token := ⟨.ident, "x", ⟨3, 3, 19⟩, 20⟩
    let escape : Diagnostic :=
      ⟨.lexical, .error, .invalidEscape, "invalid escape sequence '\\q'", ⟨2, 7, 14⟩, 16⟩
    source.utf8ByteSize < 2 ^ 32 - 1 ∧
    name ∈ (ofText source).tokens ∧ escape ∈ (ofText source).diagnostics ∧
    name.span.start.StandsIn source ∧ escape.span.start.StandsIn source ∧
    ∀ clock, (compile {} clock source).metrics.map (·.linesOfCode) = some 3 := by
  intro source name escape
  have hsize : source.utf8ByteSize < 2 ^ 32 - 1 := by decide +kernel
  have hname : name ∈ (ofText source).tokens := by decide +kernel
  have hescape : escape ∈ (ofText source).diagnostics := by decide +kernel
  obtain ⟨htokens, hreports, ts, eof, hsplit, -, -, hlines⟩ := ofText_positions source hsize
  have heof : eof.span.start.line = 3 := by
    have hlast : (ofText source).tokens.getLast? = some eof := by rw [hsplit, List.getLast?_concat]
    have hthird : (ofText source).tokens.getLast?.map (·.span.start.line) = some 3 := by decide +kernel
    rw [hlast] at hthird
    exact Option.some.inj hthird
  refine ⟨hsize, hname, hescape, htokens _ hname, hreports _ hescape, fun clock => ?_⟩
  rw [hlines, heof]
  rfl

/-! ### The end of the count -/

/-- A text of `n` empty lines. -/
def lineBreaks (n : Nat) : String := String.ofList (List.replicate n '\n')

theorem size_lineBreaks (n : Nat) : (lineBreaks n).utf8ByteSize = n := by
  induction n with
  | zero => rfl
  | succ n ih =>
    rw [lineBreaks, List.replicate_succ, String.ofList_cons, String.utf8ByteSize_append,
      String.utf8ByteSize_singleton, ← lineBreaks, ih]
    exact Nat.add_comm 1 n

theorem count_lineBreaks (n : Nat) : (lineBreaks n).toList.count '\n' = n := by
  rw [lineBreaks, String.toList_ofList, List.count_replicate_self]

theorem end_line (source : String) : (ofText source).tokens.getLast?.map (·.span.start.line) =
    some (1 + .ofNat (source.toList.count '\n')) := by
  rw [ofText, List.getLast?_concat]
  exact congrArg some (Position.line_advanceAll _ _)

/-- The line of the end of a text of `2 ^ 32 - 1` line breaks is 0. -/
theorem ofText_positions_wrapped :
    let source := lineBreaks (2 ^ 32 - 1)
    source.utf8ByteSize < 2 ^ 32 ∧
    (∃ eof, (ofText source).tokens.getLast? = some eof ∧ eof.span.start.line = 0 ∧
      ¬ eof.span.start.StandsIn source) ∧
    ∀ clock, (compile {} clock source).metrics.map (·.linesOfCode) = some (2 ^ 32) := by
  intro source
  refine ⟨by rw [size_lineBreaks]; decide, ?_, fun clock => ?_⟩
  · have hline := end_line source
    rw [count_lineBreaks] at hline
    obtain ⟨eof, hlast, hline⟩ := Option.map_eq_some_iff.1 hline
    have hzero : eof.span.start.line = 0 := hline.trans (by decide)
    refine ⟨eof, hlast, hzero, ?_⟩
    rintro ⟨upper, current, hstands⟩
    have hfirst := hstands.line
    rw [hzero] at hfirst
    exact absurd hfirst (by simp [Nat.add_comm 1])
  · rw [compile_linesOfCode, linesOfCode, count_lineBreaks]
    rfl

end Tokens

end Scriptlet
