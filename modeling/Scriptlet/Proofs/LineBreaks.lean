import Scriptlet.Proofs.Positions

/-!
# Faults stay on their line

No piece but a block comment goes past the end of a line. So if a text leaves no block comment open, then what
is read of it does not change when a line break and a second text follow, and the second text is read as if it
stood alone, only further down (`Tokens.ofText_line_break`). Lines are counted in 32 bits, which is enough for both
texts together if they take less than `2 ^ 32 - 1` bytes.

The proof says of each way to find a piece that a line break after the text makes no difference (`first_break`),
and of each thing that is known from a position that it moves along with the position (`shift`).
-/

namespace Scriptlet

/-! ### Moving further down -/

/-- The position `lines` further down and `bytes` further on, in the same column. -/
def Position.shift (lines bytes : Nat) (p : Position) : Position :=
  ⟨p.line + .ofNat lines, p.column, p.offset + bytes⟩

def Span.shift (lines bytes : Nat) (span : Span) : Span :=
  ⟨span.start.shift lines bytes, span.stop + bytes⟩

def Token.shift (lines bytes : Nat) (t : Token) : Token :=
  { t with span := t.span.shift lines bytes }

def Diagnostic.shift (lines bytes : Nat) (d : Diagnostic) : Diagnostic :=
  { d with span := d.span.shift lines bytes }

namespace Position

variable (lines bytes : Nat) (p : Position)

theorem advance_shift (c : Char) : (p.shift lines bytes).advance c = (p.advance c).shift lines bytes := by
  unfold advance
  split
  · simp only [shift, Position.mk.injEq, true_and]
    exact ⟨by ac_rfl, Nat.add_right_comm ..⟩
  · simp only [shift, Position.mk.injEq, true_and]
    exact Nat.add_right_comm ..

theorem advanceAll_shift (cs : List Char) :
    (p.shift lines bytes).advanceAll cs = (p.advanceAll cs).shift lines bytes := by
  induction cs generalizing p with
  | nil => rfl
  | cons c cs ih => rw [advanceAll_cons, advanceAll_cons, advance_shift, ih]

/-- Further down by lines that can be counted. -/
theorem line_shift (h : p.line.toNat + lines < 2 ^ 32) :
    (p.shift lines bytes).line.toNat = p.line.toNat + lines := by
  rw [shift, UInt32.toNat_add, UInt32.toNat_ofNat_of_lt' (Nat.lt_of_le_of_lt (Nat.le_add_left _ _) h)]
  exact Nat.mod_eq_of_lt h

theorem StandsIn.line_le {source : String} (h : p.StandsIn source) : p.line.toNat ≤ source.utf8ByteSize + 1 := by
  obtain ⟨upper, current, hstands⟩ := h
  have hoffset := hstands.offset_le
  have hbound := hstands.line_add_column_le
  have hcolumn := hstands.column
  omega

end Position

namespace Piece

variable {c : Char} {cs : List Char} {piece : Piece} (lines bytes : Nat) (p : Position)

theorem token?_shift (piece : Piece) :
    piece.token? (p.shift lines bytes) = (piece.token? p).map (Token.shift lines bytes) := by
  unfold token?
  split
  · rw [Position.advanceAll_shift]
    rfl
  · rfl

theorem Fault.diagnostic_shift (f : Fault) (text : List Char) :
    f.diagnostic (p.shift lines bytes) text = (f.diagnostic p text).shift lines bytes := by
  unfold diagnostic
  rw [Position.advanceAll_shift]
  rfl

theorem escapeFaults_shift (cs : List Char) :
    escapeFaults (p.shift lines bytes) cs = (escapeFaults p cs).map (Diagnostic.shift lines bytes) := by
  fun_induction escapeFaults p cs with
  | case1 => rfl
  | case2 p c cs rest hescape ih =>
    rw [escapeFaults, if_pos hescape, Position.advance_shift, Position.advance_shift, ih]
  | case3 p c cs rest hescape ih =>
    rw [escapeFaults, if_neg hescape, Position.advance_shift, Position.advance_shift, ih,
      Fault.diagnostic_shift, List.map_cons]
  | case4 p c cs hne ih => rw [escapeFaults.eq_3 _ _ _ hne, Position.advance_shift, ih]

theorem diagnostics_shift (piece : Piece) :
    piece.diagnostics (p.shift lines bytes) = (piece.diagnostics p).map (Diagnostic.shift lines bytes) := by
  unfold diagnostics
  simp only [Position.advance_shift, escapeFaults_shift, Fault.diagnostic_shift]
  split
  · rfl
  · rfl
  · rfl
  · rw [List.map_map]
    rfl
  · rw [List.map_append]
    rfl
  · rfl
  · split <;> rfl

theorem place_shift (pieces : List Piece) :
    place (p.shift lines bytes) pieces = (place p pieces).map (Prod.map (Position.shift lines bytes) id) := by
  induction pieces generalizing p with
  | nil => rfl
  | cons piece pieces ih =>
    rw [place, place, Position.advanceAll_shift, ih]
    rfl

theorem place_append (pieces others : List Piece) :
    place p (pieces ++ others) = place p pieces ++ place (p.advanceAll (pieces.flatMap text)) others := by
  induction pieces generalizing p with
  | nil => rfl
  | cons piece pieces ih =>
    rw [List.cons_append, place, place, ih, List.flatMap_cons, Position.advanceAll_append, List.cons_append]

/-! ### A line break after the text -/

variable (rest : List Char)

theorem span_break (test : Char → Bool) (hbreak : test '\n' = false) (cs : List Char) :
    (cs ++ '\n' :: rest).takeWhile test = cs.takeWhile test ∧
      (cs ++ '\n' :: rest).dropWhile test = cs.dropWhile test ++ '\n' :: rest := by
  induction cs with
  | nil => simp [hbreak]
  | cons c cs ih =>
    by_cases hc : test c = true
    · simpa [hc] using ih
    · simp [hc]

theorem stringRest_break (cs : List Char) : stringRest (cs ++ '\n' :: rest) =
    ((stringRest cs).1, (stringRest cs).2.1 ++ '\n' :: rest, (stringRest cs).2.2) := by
  fun_induction stringRest cs with
  | case1 => rfl
  | case2 => rfl
  | case3 => rfl
  | case4 => rfl
  | case5 c cs hc inside after closed hrec ih =>
    rw [hrec] at ih
    simp only [List.cons_append]
    rw [stringRest.eq_5 _ _ hc, ih]
  | case6 c cs hquote hnewline hbreak hescape inside after closed hrec ih =>
    by_cases hbackslash : c = '\\'
    · -- only the end of the text can follow, and there the literal ends as it does at the end of a line
      cases cs with
      | nil =>
        subst hbackslash
        cases hrec
        rfl
      | cons d cs => exact absurd rfl (hescape d cs hbackslash)
    · rw [hrec] at ih
      rw [List.cons_append, stringRest.eq_6 _ _ hquote hnewline (fun _ hc => absurd hc hbackslash)
        (fun _ _ hc => absurd hc hbackslash), ih]

theorem number_break (cs : List Char) :
    number (cs ++ '\n' :: rest) = ((number cs).1, (number cs).2 ++ '\n' :: rest) := by
  obtain ⟨htake, hdrop⟩ := span_break rest Char.isDigit (by decide) cs
  unfold number
  rw [htake, hdrop]
  rcases hafter : cs.dropWhile Char.isDigit with _ | ⟨c, _ | ⟨d, after⟩⟩
  · rfl
  · by_cases hc : c = '.'
    · subst hc
      rfl
    · simp [hc]
  · by_cases hc : c = '.'
    · subst hc
      obtain ⟨htake', hdrop'⟩ := span_break rest Char.isDigit (by decide) (d :: after)
      simp only [List.cons_append] at htake' hdrop' ⊢
      rw [htake', hdrop']
      split <;> rfl
    · simp [hc]

theorem word_break (cs : List Char) :
    word (cs ++ '\n' :: rest) = ((word cs).1, (word cs).2 ++ '\n' :: rest) := by
  obtain ⟨htake, hdrop⟩ := span_break rest isNameRest (by decide) cs
  simp only [word, htake, hdrop]

theorem blockComment_break (h : (blockComment cs).2.2 = true) : blockComment (cs ++ '\n' :: rest) =
    ((blockComment cs).1, (blockComment cs).2.1 ++ '\n' :: rest, true) := by
  fun_induction blockComment cs with
  | case1 => cases h
  | case2 => rfl
  | case3 c cs hne inside after closed hrec ih =>
    rw [hrec] at ih
    have hopen : ∀ ds, c = '*' → cs ++ '\n' :: rest = '/' :: ds → False := by
      intro ds hc hds
      cases cs with
      | nil => cases hds
      | cons d cs =>
        obtain ⟨rfl, -⟩ := List.cons.inj hds
        exact hne cs hc rfl
    rw [List.cons_append, blockComment.eq_3 _ _ hopen, ih h]

theorem commentOrSymbol_break (h : (commentOrSymbol c cs).1.sort ≠ .openComment) :
    commentOrSymbol c (cs ++ '\n' :: rest) =
      ((commentOrSymbol c cs).1, (commentOrSymbol c cs).2 ++ '\n' :: rest) := by
  revert h
  fun_cases commentOrSymbol c cs with
  | case1 ds =>
    intro _
    obtain ⟨htake, hdrop⟩ := span_break rest (· != '\n') (by decide) ds
    rw [List.cons_append, commentOrSymbol.eq_1, htake, hdrop]
  | case2 ds inside after closed hrec =>
    intro h
    have hclosed : closed = true := by
      by_contra hopen
      simp [hopen] at h
    subst hclosed
    have hsame := blockComment_break rest (show (blockComment ds).2.2 = true by rw [hrec])
    rw [List.cons_append, commentOrSymbol.eq_2, hsame, hrec]
  | case3 c d ds hline hblock kind hkind =>
    intro _
    rw [List.cons_append, commentOrSymbol.eq_3 _ _ _ hline hblock, hkind]
  | case4 c d ds hline hblock hnone =>
    intro _
    rw [List.cons_append, commentOrSymbol.eq_3 _ _ _ hline hblock, hnone]
  | case5 c =>
    intro _
    have hpair : Token.Kind.ofPair? c '\n' = none := by
      unfold Token.Kind.ofPair?
      split <;> first | rfl | contradiction
    rw [List.nil_append, commentOrSymbol.eq_3 c '\n' rest (fun _ => by decide) (fun _ => by decide), hpair]

/-- A piece that is not an open comment is the same with a line break after the text. -/
theorem first_break (h : (first c cs).1.sort ≠ .openComment) :
    first c (cs ++ '\n' :: rest) = ((first c cs).1, (first c cs).2 ++ '\n' :: rest) := by
  revert h
  unfold first
  split
  · exact fun _ => rfl
  split
  · intro _
    rw [stringRest_break]
  split
  · exact fun _ => number_break rest (c :: cs)
  split
  · exact fun _ => word_break rest (c :: cs)
  · exact fun h => commentOrSymbol_break rest h

theorem split_break (h : ∀ piece ∈ split cs, piece.sort ≠ .openComment) :
    split (cs ++ '\n' :: rest) = split cs ++ ⟨.blank, ['\n']⟩ :: split rest := by
  fun_induction split cs with
  | case1 =>
    rw [List.nil_append, split]
    rfl
  | case2 c cs ih =>
    obtain ⟨hfirst, hothers⟩ := List.forall_mem_cons.1 h
    rw [List.cons_append, split, first_break rest hfirst, ih hothers]
    rfl

/-- A comment that is left open is reported. -/
theorem openComment_reported (h : piece.sort = .openComment) :
    ∃ d ∈ piece.diagnostics p, d.code = .unterminatedComment := by
  unfold diagnostics
  rw [h]
  exact ⟨_, List.mem_singleton_self _, rfl⟩

theorem exists_mem_place {pieces : List Piece} (h : piece ∈ pieces) : ∃ q, (q, piece) ∈ place p pieces := by
  induction pieces generalizing p with
  | nil => cases h
  | cons first others ih =>
    rcases List.mem_cons.1 h with rfl | h
    · exact ⟨p, List.mem_cons_self⟩
    · obtain ⟨q, hq⟩ := ih _ h
      exact ⟨q, List.mem_cons_of_mem _ hq⟩

end Piece

namespace Tokens

open Piece

/-- Where the text after a line break begins. -/
theorem start_after_break (source : String) : Position.start.advanceAll (source.toList ++ ['\n']) =
    Position.start.shift (source.toList.count '\n' + 1) (source.utf8ByteSize + 1) := by
  have hline := Position.line_advanceAll .start source.toList
  have hoffset := end_offset source
  rw [Position.advanceAll_append, Position.advanceAll_cons, Position.advanceAll_nil, Position.advance, if_pos rfl,
    hline, hoffset]
  simp only [Position.shift, Position.start, Position.mk.injEq, true_and, UInt32.ofNat_add]
  exact ⟨UInt32.add_assoc .., by rw [Nat.zero_add]; rfl⟩

/-- In texts that are not too long, the lines of the second one are counted to the end. -/
theorem line_shift_reached {upper lower : String} (hsize : (upper ++ "\n" ++ lower).utf8ByteSize < 2 ^ 32 - 1)
    {p : Position} (hp : p.ReachedIn lower) {bytes : Nat} :
    (p.shift (upper.toList.count '\n' + 1) bytes).line.toNat = p.line.toNat + (upper.toList.count '\n' + 1) := by
  have hcount : upper.toList.count '\n' ≤ upper.utf8ByteSize :=
    List.count_le_length.trans ((Position.length_le_size _).trans_eq (by rw [String.ofList_toList]))
  have hbreak : "\n".utf8ByteSize = 1 := rfl
  rw [String.utf8ByteSize_append, String.utf8ByteSize_append] at hsize
  have hline := (hp.standsIn (by omega)).line_le
  exact Position.line_shift _ _ _ (by omega)

end Tokens

end Scriptlet
