import Scriptlet.Proofs.Coverage

/-!
# Splitting a text that is written anew

A piece that is a token is found again wherever its text stands, provided that a blank character or the
end of the text comes next (`split_token`): a blank character takes part in no token but a string, and
the end of a string is found inside it. Blank characters and comments between tokens leave no trace
(`split_filling`).
-/

namespace Scriptlet

namespace Piece

variable {b c : Char} {cs body rest : List Char} {k : Token.Kind} {piece : Piece}

/-! ### What can follow a token -/

/-- Nothing, or a blank character first. -/
def Clear (rest : List Char) : Prop := ∀ b ∈ rest.head?, Text.isBlank b = true

theorem blank_ne {b d : Char} (h : Text.isBlank b = true) (hd : Text.isBlank d = false) : b ≠ d := by
  rintro rfl
  rw [h] at hd
  cases hd

theorem blank_not_digit (h : Text.isBlank b = true) : b.isDigit = false := by
  have hval : b.toNat = b.val.toNat := rfl
  simp only [Text.isBlank, Bool.or_eq_true, Bool.and_eq_true, decide_eq_true_eq, beq_iff_eq] at h
  rw [Bool.eq_false_iff]
  intro hdigit
  simp only [Char.isDigit, Bool.and_eq_true, decide_eq_true_eq, ge_iff_le, UInt32.le_iff_toNat_le] at hdigit
  simp at hdigit
  omega

theorem isAlpha_iff (c : Char) :
    c.isAlpha = true ↔ (65 ≤ c.toNat ∧ c.toNat ≤ 90) ∨ 97 ≤ c.toNat ∧ c.toNat ≤ 122 := by
  have hletters : c.isAlpha = (decide (c.val ≥ 65 ∧ c.val ≤ 90) ||
      decide (c.val ≥ 97) && decide (c.val ≤ 122)) := rfl
  simp only [hletters, Bool.or_eq_true, Bool.and_eq_true, decide_eq_true_eq, ge_iff_le, UInt32.le_iff_toNat_le]
  rfl

theorem blank_not_nameRest (h : Text.isBlank b = true) : isNameRest b = false := by
  have hdigit := blank_not_digit h
  have hunderscore : (b == '_') = false := by
    rw [beq_eq_false_iff_ne]
    exact blank_ne h (by decide)
  simp only [Text.isBlank, Bool.or_eq_true, Bool.and_eq_true, decide_eq_true_eq, beq_iff_eq] at h
  have halpha : b.isAlpha = false := by
    rw [Bool.eq_false_iff, Ne, isAlpha_iff]
    omega
  simp [isNameRest, isNameStart, halpha, hunderscore, hdigit]

theorem blank_no_pair (h : Text.isBlank b = true) : Token.Kind.ofPair? c b = none := by
  unfold Token.Kind.ofPair?
  split
  case h_7 => rfl
  all_goals exact absurd h (by decide)

/-! ### Tokens -/

theorem stringRest_again (h : (stringRest cs).2.2 = true) (rest : List Char) :
    stringRest ((stringRest cs).1 ++ rest) = ((stringRest cs).1, rest, true) := by
  fun_induction stringRest cs with
  | case1 => cases h
  | case2 => rfl
  | case3 => cases h
  | case4 => cases h
  | case5 c cs hc inside after closed hrec ih =>
    rw [hrec] at ih
    simp only [List.cons_append]
    rw [stringRest.eq_5 _ _ hc, ih h]
  | case6 c cs hquote hnewline hbreak hescape inside after closed hrec ih =>
    rw [hrec] at ih
    have hbackslash : c ≠ '\\' := by
      rintro rfl
      cases cs with
      | nil =>
        cases hrec
        cases h
      | cons d cs => exact hescape d cs rfl rfl
    simp only [List.cons_append]
    rw [stringRest.eq_6 _ _ hquote hnewline (fun _ hc => absurd hc hbackslash)
      (fun _ _ hc => absurd hc hbackslash), ih h]

theorem takeWhile_again {p : Char → Bool} (hbody : ∀ b ∈ body, p b = true)
    (hrest : ∀ b ∈ rest.head?, p b = false) :
    (body ++ rest).takeWhile p = body ∧ (body ++ rest).dropWhile p = rest := by
  rw [List.takeWhile_append_of_pos hbody, List.dropWhile_append_of_pos hbody]
  cases rest with
  | nil => simp
  | cons b rest => simp [hrest b rfl]

theorem number_again (cs : List Char) (hrest : Clear rest) :
    number ((number cs).1.text ++ rest) = ((number cs).1, rest) := by
  have hstop : ∀ b ∈ rest.head?, b.isDigit = false := fun b hb => blank_not_digit (hrest b hb)
  have hdigits (cs : List Char) : ∀ b ∈ cs.takeWhile Char.isDigit, b.isDigit = true :=
    fun b hb => List.mem_takeWhile_imp hb
  -- a number without a fraction is not continued by what follows
  have hwhole : number (cs.takeWhile Char.isDigit ++ rest) =
      (⟨.token .number, cs.takeWhile Char.isDigit⟩, rest) := by
    obtain ⟨htake, hdrop⟩ := takeWhile_again (hdigits cs) hstop
    rw [number, htake, hdrop]
    split
    · exact absurd (hrest '.' rfl) (by decide)
    · rfl
  fun_cases number cs with
  | case1 whole d after hdrop hd =>
    rw [List.takeWhile_cons_of_pos hd]
    have hpoint : ∀ b ∈ ('.' :: d :: (after.takeWhile Char.isDigit ++ rest)).head?, b.isDigit = false := by
      simp
    obtain ⟨htake, hrest'⟩ := takeWhile_again (hdigits cs) hpoint
    obtain ⟨htake', hdrop'⟩ := takeWhile_again (hdigits after) hstop
    simp only [List.append_assoc, List.cons_append]
    rw [number, htake, hrest']
    simp [hd, htake', hdrop', whole]
  | case2 => exact hwhole
  | case3 => exact hwhole

theorem word_again (cs : List Char) (hrest : Clear rest) :
    word ((word cs).1.text ++ rest) = ((word cs).1, rest) := by
  have hname : ∀ b ∈ cs.takeWhile isNameRest, isNameRest b = true := fun b hb => List.mem_takeWhile_imp hb
  obtain ⟨htake, hdrop⟩ := takeWhile_again hname fun b hb => blank_not_nameRest (hrest b hb)
  simp only [word, htake, hdrop]

theorem symbol_again (hsort : (symbol c).sort = .token k) (hrest : Clear rest) :
    commentOrSymbol c rest = (symbol c, rest) := by
  cases rest with
  | nil =>
    unfold commentOrSymbol
    split <;> simp_all
  | cons b rest =>
    have hblank := hrest b rfl
    unfold commentOrSymbol
    split
    · rename_i heq
      cases heq
      exact absurd hblank (by decide)
    · rename_i heq
      cases heq
      exact absurd hblank (by decide)
    · rename_i heq
      cases heq
      rw [blank_no_pair hblank]
    · contradiction

theorem pair_again {d : Char} (h : Token.Kind.ofPair? c d = some k) (rest : List Char) :
    commentOrSymbol c (d :: rest) = (⟨.token k, [c, d]⟩, rest) := by
  unfold commentOrSymbol
  split
  · rename_i heq
    cases heq
    cases h
  · rename_i heq
    cases heq
    cases h
  · rename_i heq
    cases heq
    rw [h]
  · contradiction

theorem commentOrSymbol_again {tail : List Char} (hsort : (commentOrSymbol c cs).1.sort = .token k)
    (htext : (commentOrSymbol c cs).1.text = c :: tail) (hrest : Clear rest) :
    commentOrSymbol c (tail ++ rest) = ((commentOrSymbol c cs).1, rest) := by
  have hsymbol (hsort : (symbol c).sort = .token k) (htext : (symbol c).text = c :: tail) :
      commentOrSymbol c (tail ++ rest) = (symbol c, rest) := by
    rw [symbol_text, List.cons_eq_cons] at htext
    rw [← htext.2]
    exact symbol_again hsort hrest
  revert hsort htext
  fun_cases commentOrSymbol c cs with
  | case1 => nofun
  | case2 ds inside after closed =>
    dsimp only
    split <;> nofun
  | case3 c d ds hline hblock kind hkind =>
    rintro ⟨⟩ ⟨⟩
    exact pair_again hkind rest
  | case4 => exact hsymbol
  | case5 => exact hsymbol

theorem first_text (c : Char) (cs : List Char) : ∃ tail, (first c cs).1.text = c :: tail := by
  have happ := first_append c cs
  rcases htext : (first c cs).1.text with _ | ⟨d, tail⟩
  · exact absurd htext (first_text_ne_nil c cs)
  · rw [htext, List.cons_append, List.cons_eq_cons] at happ
    exact ⟨tail, by rw [happ.1]⟩

/-- A token is the first piece again where its text is followed by a blank character or by nothing. -/
theorem first_again {tail : List Char} (hsort : (first c cs).1.sort = .token k)
    (htext : (first c cs).1.text = c :: tail) (hrest : Clear rest) :
    first c (tail ++ rest) = ((first c cs).1, rest) := by
  by_cases hblank : Text.isBlank c = true
  · simp [first, hblank] at hsort
  by_cases hquote : c = '"'
  · have hfirst (ds : List Char) : first c ds =
        (⟨if (stringRest ds).2.2 then .token .str else .openString, '"' :: (stringRest ds).1⟩,
          (stringRest ds).2.1) := by
      rw [first, if_neg hblank, if_pos hquote]
    rw [hfirst] at hsort htext
    have hclosed : (stringRest cs).2.2 = true := by
      by_contra hopen
      simp [hopen] at hsort
    rw [hquote, List.cons_eq_cons] at htext
    rw [hfirst, hfirst, ← htext.2, stringRest_again hclosed, hclosed]
  by_cases hdigit : c.isDigit = true
  · have hfirst (ds : List Char) : first c ds = number (c :: ds) := by
      simp [first, hblank, hquote, hdigit]
    rw [hfirst] at htext ⊢
    rw [hfirst, ← List.cons_append, ← htext]
    exact number_again _ hrest
  by_cases hname : isNameStart c = true
  · have hfirst (ds : List Char) : first c ds = word (c :: ds) := by
      simp [first, hblank, hquote, hdigit, hname]
    rw [hfirst] at htext ⊢
    rw [hfirst, ← List.cons_append, ← htext]
    exact word_again _ hrest
  · have hfirst (ds : List Char) : first c ds = commentOrSymbol c ds := by
      simp [first, hblank, hquote, hdigit, hname]
    rw [hfirst] at hsort htext ⊢
    rw [hfirst]
    exact commentOrSymbol_again hsort htext hrest

theorem split_of_first (h : first c cs = (piece, rest)) : split (c :: cs) = piece :: split rest := by
  rw [split, h]

theorem mem_split (h : piece ∈ split cs) : ∃ c rest, piece = (first c rest).1 := by
  fun_induction split cs with
  | case1 => cases h
  | case2 c cs ih =>
    rcases List.mem_cons.1 h with rfl | h
    · exact ⟨c, cs, rfl⟩
    · exact ih h

theorem split_token (hpiece : piece ∈ split cs) (hsort : piece.sort = .token k) (hrest : Clear rest) :
    split (piece.text ++ rest) = piece :: split rest := by
  obtain ⟨c, ds, rfl⟩ := mem_split hpiece
  obtain ⟨tail, htext⟩ := first_text c ds
  rw [htext, List.cons_append]
  exact split_of_first (first_again hsort htext hrest)

/-! ### What stands between tokens -/

/-- Blank characters, closed block comments, and line comments with the end of their line. -/
inductive Filling : List Char → Prop
  | nil : Filling []
  | blank {c : Char} {cs : List Char} (hc : Text.isBlank c = true) (hcs : Filling cs) : Filling (c :: cs)
  | line {body cs : List Char} (hbody : '\n' ∉ body) (hcs : Filling cs) :
      Filling ('/' :: '/' :: (body ++ '\n' :: cs))
  | block {body cs : List Char} (hbody : ¬ ['*', '/'] <:+: body ++ ['*']) (hcs : Filling cs) :
      Filling ('/' :: '*' :: (body ++ '*' :: '/' :: cs))

/-- Whether the piece is neither blank nor a comment. -/
def solid (piece : Piece) : Bool :=
  match piece.sort with
  | .blank | .comment => false
  | _ => true

theorem blockComment_body (hbody : ¬ ['*', '/'] <:+: body ++ ['*']) (rest : List Char) :
    blockComment (body ++ '*' :: '/' :: rest) = (body ++ ['*', '/'], rest, true) := by
  induction body with
  | nil => rfl
  | cons c body ih =>
    rw [List.cons_append, List.infix_cons_iff, not_or] at hbody
    have hopen : ∀ cs, c = '*' → body ++ '*' :: '/' :: rest = '/' :: cs → False := by
      rintro cs rfl hcs
      cases body with
      | nil => cases hcs
      | cons d body =>
        cases hcs
        exact hbody.1 (by simp)
    rw [List.cons_append, blockComment.eq_3 _ _ hopen, ih hbody.2]
    rfl

theorem split_blank (hc : Text.isBlank c = true) (cs : List Char) :
    split (c :: cs) = ⟨.blank, [c]⟩ :: split cs :=
  split_of_first (by simp [first, hc])

theorem split_line (hbody : '\n' ∉ body) (cs : List Char) :
    split ('/' :: '/' :: (body ++ '\n' :: cs)) = ⟨.comment, '/' :: '/' :: body⟩ :: split ('\n' :: cs) := by
  have hline : ∀ b ∈ body, (b != '\n') = true := by
    intro b hb
    rw [bne_iff_ne]
    rintro rfl
    exact hbody hb
  have hstop : ∀ b ∈ ('\n' :: cs).head?, (b != '\n') = false := by simp
  obtain ⟨htake, hdrop⟩ := takeWhile_again hline hstop
  refine split_of_first ?_
  show ((⟨.comment, '/' :: '/' :: (body ++ '\n' :: cs).takeWhile (· != '\n')⟩ : Piece),
    (body ++ '\n' :: cs).dropWhile (· != '\n')) = _
  rw [htake, hdrop]

theorem split_block (hbody : ¬ ['*', '/'] <:+: body ++ ['*']) (cs : List Char) :
    split ('/' :: '*' :: (body ++ '*' :: '/' :: cs)) =
      ⟨.comment, '/' :: '*' :: (body ++ ['*', '/'])⟩ :: split cs := by
  refine split_of_first ?_
  show ((⟨if (blockComment (body ++ '*' :: '/' :: cs)).2.2 then .comment else .openComment,
    '/' :: '*' :: (blockComment (body ++ '*' :: '/' :: cs)).1⟩ : Piece),
    (blockComment (body ++ '*' :: '/' :: cs)).2.1) = _
  rw [blockComment_body hbody]
  rfl

/-- What stands between tokens leaves no trace. -/
theorem solid_filling (h : Filling cs) (rest : List Char) :
    (split (cs ++ rest)).filter solid = (split rest).filter solid := by
  induction h with
  | nil => rfl
  | blank hc _ ih =>
    rw [List.cons_append, split_blank hc]
    exact ih
  | @line body cs hbody _ ih =>
    rw [List.cons_append, List.cons_append, List.append_assoc, List.cons_append, split_line hbody,
      split_blank (by decide)]
    exact ih
  | @block body cs hbody _ ih =>
    rw [List.cons_append, List.cons_append, List.append_assoc, List.cons_append, List.cons_append,
      split_block hbody]
    exact ih

/-! ### What is wrong with a piece, wherever it stands -/

theorem escapeFaults_nil {p : Position} (h : escapeFaults p cs = []) (q : Position) :
    escapeFaults q cs = [] := by
  fun_induction escapeFaults p cs generalizing q with
  | case1 => rfl
  | case2 p c cs rest hescape ih =>
    rw [escapeFaults, if_pos hescape]
    exact ih h _
  | case3 => cases h
  | case4 p c cs hne ih =>
    rw [escapeFaults.eq_3 _ _ _ hne]
    exact ih h _

theorem diagnostics_nil {p : Position} (h : piece.diagnostics p = []) (q : Position) :
    piece.diagnostics q = [] := by
  revert h
  unfold diagnostics
  split
  · exact fun _ => rfl
  · exact fun _ => rfl
  · nofun
  · simp
  · simp
  · exact fun h => escapeFaults_nil h _
  · split
    · exact fun _ => rfl
    · nofun

theorem token_of_solid {p : Position} (hsolid : piece.solid = true) (htext : piece.text ≠ [])
    (h : piece.diagnostics p = []) : ∃ k, piece.sort = .token k := by
  by_contra hne
  rw [not_exists] at hne
  have hblank : piece.sort ≠ .blank := fun hsort => by simp [solid, hsort] at hsolid
  have hcomment : piece.sort ≠ .comment := fun hsort => by simp [solid, hsort] at hsolid
  obtain ⟨d, hd, -⟩ := lost_reported (p := p) htext hblank hcomment hne
  rw [h] at hd
  cases hd

theorem diagnostics_of_not_solid (h : piece.solid = false) (p : Position) : piece.diagnostics p = [] := by
  unfold solid at h
  unfold diagnostics
  split at h <;> simp_all

end Piece

end Scriptlet
