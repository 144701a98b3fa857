import Scriptlet.Piece

/-!
# The tokens of a text

What the readers of tokens rely on: the tokens of a text have their only end of input at the end, and
each begins after all that come before it, so that a token is known by where it stands.
-/

namespace Scriptlet

/-- A row of tokens with its only end of input at the end. -/
def Token.Ended (tokens : List Token) : Prop :=
  ∃ ts eof, tokens = ts ++ [eof] ∧ (∀ t ∈ ts, t.kind ≠ .eof) ∧ eof.kind = .eof

namespace Piece

variable {c d : Char} {cs : List Char} {k : Token.Kind}

theorem ofWord_ne_eof {s : String} (h : Token.Kind.ofWord? s = some k) : k ≠ .eof := by
  unfold Token.Kind.ofWord? at h
  split at h <;> cases h <;> nofun

theorem ofChar_ne_eof (h : Token.Kind.ofChar? c = some k) : k ≠ .eof := by
  unfold Token.Kind.ofChar? at h
  split at h <;> cases h <;> nofun

theorem ofPair_ne_eof (h : Token.Kind.ofPair? c d = some k) : k ≠ .eof := by
  unfold Token.Kind.ofPair? at h
  split at h <;> cases h <;> nofun

theorem number_sort : (number cs).1.sort ≠ .token .eof := by
  unfold number
  split
  · split <;> nofun
  · nofun

theorem word_sort : (word cs).1.sort ≠ .token .eof := by
  unfold word
  cases h : Token.Kind.ofWord? (String.ofList (cs.takeWhile isNameRest)) with
  | none => simp [h]
  | some k => simpa [h] using ofWord_ne_eof h

theorem symbol_sort : (symbol c).sort ≠ .token .eof := by
  unfold symbol
  split
  · next h => simpa using ofChar_ne_eof h
  · nofun

theorem commentOrSymbol_sort : (commentOrSymbol c cs).1.sort ≠ .token .eof := by
  unfold commentOrSymbol
  split
  · nofun
  · dsimp only
    split <;> nofun
  · split
    · next h => simpa using ofPair_ne_eof h
    · exact symbol_sort
  · exact symbol_sort

/-- No piece of a text is the end of input. -/
theorem first_sort : (first c cs).1.sort ≠ .token .eof := by
  unfold first
  split
  · nofun
  split
  · dsimp only
    split <;> nofun
  split
  · exact number_sort
  split
  · exact word_sort
  · exact commentOrSymbol_sort

theorem split_sort (cs : List Char) : ∀ piece ∈ split cs, piece.sort ≠ .token .eof := by
  fun_induction split cs with
  | case1 => exact List.forall_mem_nil _
  | case2 c cs ih => exact List.forall_mem_cons.2 ⟨first_sort, ih⟩

theorem split_text (cs : List Char) : ∀ piece ∈ split cs, piece.text ≠ [] := by
  fun_induction split cs with
  | case1 => exact List.forall_mem_nil _
  | case2 c cs ih => exact List.forall_mem_cons.2 ⟨first_text_ne_nil c cs, ih⟩

theorem mem_of_mem_place {pieces : List Piece} {p q : Position} {piece : Piece}
    (h : (q, piece) ∈ place p pieces) : piece ∈ pieces := by
  induction pieces generalizing p with
  | nil => exact nomatch h
  | cons first rest ih =>
    obtain h | h := List.mem_cons.1 h
    · cases h; exact List.mem_cons_self
    · exact List.mem_cons_of_mem _ (ih h)

theorem offset_advance (p : Position) (c : Char) : p.offset < (p.advance c).offset := by
  have := c.utf8Size_pos
  unfold Position.advance
  split <;> exact Nat.lt_add_of_pos_right this

theorem offset_advanceAll (p : Position) (cs : List Char) : p.offset ≤ (p.advanceAll cs).offset := by
  induction cs generalizing p with
  | nil => exact Nat.le_refl _
  | cons c cs ih => exact Nat.le_trans (Nat.le_of_lt (offset_advance p c)) (ih _)

theorem offset_lt_advanceAll (p : Position) (h : cs ≠ []) : p.offset < (p.advanceAll cs).offset := by
  cases cs with
  | nil => exact absurd rfl h
  | cons c cs => exact Nat.lt_of_lt_of_le (offset_advance p c) (offset_advanceAll _ cs)

theorem offset_le_of_mem_place {pieces : List Piece} {p q : Position} {piece : Piece}
    (h : (q, piece) ∈ place p pieces) : p.offset ≤ q.offset := by
  induction pieces generalizing p with
  | nil => exact nomatch h
  | cons first rest ih =>
    obtain h | h := List.mem_cons.1 h
    · cases h; exact Nat.le_refl _
    · exact Nat.le_trans (offset_advanceAll p first.text) (ih h)

/-- Each piece begins after all that come before it. -/
theorem place_sorted {pieces : List Piece} (p : Position) (h : ∀ piece ∈ pieces, piece.text ≠ []) :
    (place p pieces).Pairwise fun a b => a.1.offset < b.1.offset := by
  induction pieces generalizing p with
  | nil => exact .nil
  | cons first rest ih =>
    refine .cons ?_ (ih _ fun piece hp => h piece (List.mem_cons_of_mem _ hp))
    rintro ⟨q, piece⟩ hq
    exact Nat.lt_of_lt_of_le (offset_lt_advanceAll p (h first List.mem_cons_self))
      (offset_le_of_mem_place hq)

theorem token_start {piece : Piece} {p : Position} {t : Token} (h : piece.token? p = some t) :
    t.span.start = p := by
  unfold token? at h
  split at h <;> cases h
  rfl

theorem token_kind {piece : Piece} {p : Position} {t : Token} (h : piece.token? p = some t) :
    piece.sort = .token t.kind := by
  unfold token? at h
  split at h <;> cases h
  assumption

end Piece

namespace Tokens

theorem ofText_ended (source : String) : Token.Ended (ofText source).tokens := by
  refine ⟨_, _, rfl, fun t ht => ?_, rfl⟩
  obtain ⟨⟨p, piece⟩, hp, ht⟩ := List.mem_filterMap.1 ht
  have hsort := Piece.split_sort source.toList piece (Piece.mem_of_mem_place hp)
  rw [Piece.token_kind ht] at hsort
  exact fun hk => hsort (hk ▸ rfl)

end Tokens

end Scriptlet
