import Mathlib.Data.List.Infix
import Mathlib.Data.List.Pairwise
import Mathlib.Data.List.TakeWhile
import Scriptlet.Proofs.TextTokens

/-!
# Every character of a text is accounted for

The tokens of a text stand in it one after the other, each with exactly the text of its span, and the
end of input stands at its end. A character that lies in no token is blank, or lies in a comment or in a
stretch that is reported (`Tokens.ofText_covers`).

The pieces of a text stand side by side (`place_apart`, `place_covers`), so most of the work is to say of
a single piece what it is. What a comment is does not depend on how pieces are found (`Comment`).
-/

namespace Scriptlet

namespace Span

/-- The span cuts `source` into what stands before it, in it and after it. -/
structure Cuts (span : Span) (source before text after : String) : Prop where
  source_eq : source = before ++ text ++ after
  start : before.utf8ByteSize = span.start.offset
  stop : (before ++ text).utf8ByteSize = span.stop

def Covers (span : Span) (offset : Nat) : Prop :=
  span.start.offset ≤ offset ∧ offset < span.stop

def Apart (a b : Span) : Prop :=
  a.stop ≤ b.start.offset ∨ b.stop ≤ a.start.offset

end Span

/-- `Comment text rest`: where `text` stands and `rest` follows it, `text` is a whole comment. A line
comment goes up to the end of its line, a block comment up to the first end mark inside it. -/
inductive Comment : List Char → List Char → Prop
  | line {body rest : List Char} (hbody : '\n' ∉ body) (hrest : rest = [] ∨ ∃ tail, rest = '\n' :: tail) :
      Comment ('/' :: '/' :: body) rest
  | block {body rest : List Char} (hbody : ¬ ['*', '/'] <:+: body ++ ['*']) :
      Comment ('/' :: '*' :: (body ++ ['*', '/'])) rest

namespace Piece

variable {c : Char} {cs : List Char} {p q : Position} {piece : Piece}

/-! ### Comments -/

theorem dropWhile_newline (cs : List Char) :
    cs.dropWhile (· != '\n') = [] ∨ ∃ tail, cs.dropWhile (· != '\n') = '\n' :: tail := by
  rcases h : cs.dropWhile (· != '\n') with _ | ⟨d, tail⟩
  · exact .inl rfl
  · have hd : (d != '\n') = false := by
      have := List.head?_dropWhile_not (p := (· != '\n')) (l := cs)
      simpa [h] using this
    exact .inr ⟨tail, by simpa using hd⟩

/-- A closed block comment ends with the first end mark. -/
theorem blockComment_closed (h : (blockComment cs).2.2 = true) :
    ∃ body, (blockComment cs).1 = body ++ ['*', '/'] ∧ ¬ ['*', '/'] <:+: body ++ ['*'] := by
  fun_induction blockComment cs with
  | case1 => cases h
  | case2 cs => exact ⟨[], rfl, by decide⟩
  | case3 c cs hne inside rest closed hrec ih =>
    rw [hrec] at ih
    obtain ⟨body, hbody, hfree⟩ := ih h
    refine ⟨c :: body, congrArg (c :: ·) hbody, ?_⟩
    rw [List.cons_append, List.infix_cons_iff]
    rintro (hstart | hinside)
    · -- an end mark right here would have ended the comment
      have happ := blockComment_append cs
      rw [hrec] at happ
      simp only at hbody happ
      rcases body with _ | ⟨d, body⟩
      · simp at hstart
      · simp only [List.cons_append, List.cons_prefix_cons, List.nil_prefix, and_true] at hstart
        obtain ⟨rfl, rfl⟩ := hstart
        exact hne _ rfl (by rw [← happ, hbody]; rfl)
    · exact hfree hinside

/-! ### The first piece of a text -/

/-- What has to be shown of the first piece of a text and of what follows it, for each sort of piece. -/
theorem first_elim {motive : Piece → List Char → Prop} (c : Char) (cs : List Char)
    (blank : Text.isBlank c = true → motive ⟨.blank, [c]⟩ cs)
    (string : motive ⟨if (stringRest cs).2.2 then .token .str else .openString, '"' :: (stringRest cs).1⟩
      (stringRest cs).2.1)
    (number : motive (number (c :: cs)).1 (number (c :: cs)).2)
    (word : motive (word (c :: cs)).1 (word (c :: cs)).2)
    (line : ∀ ds : List Char,
      motive ⟨.comment, '/' :: '/' :: ds.takeWhile (· != '\n')⟩ (ds.dropWhile (· != '\n')))
    (block : ∀ ds, motive ⟨if (blockComment ds).2.2 then .comment else .openComment,
      '/' :: '*' :: (blockComment ds).1⟩ (blockComment ds).2.1)
    (pair : ∀ d ds k, motive ⟨.token k, [c, d]⟩ ds)
    (symbol : motive (symbol c) cs) : motive (first c cs).1 (first c cs).2 := by
  unfold first
  split
  · exact blank ‹_›
  split
  · exact string
  split
  · exact number
  split
  · exact word
  unfold commentOrSymbol
  split
  · exact line _
  · exact block _
  · split
    · exact pair _ _ _
    · exact symbol
  · exact symbol

theorem number_isToken (cs : List Char) : ∃ k, (number cs).1.sort = .token k := by
  unfold number
  split
  · split <;> exact ⟨_, rfl⟩
  · exact ⟨_, rfl⟩

theorem symbol_isToken (c : Char) : (symbol c).sort = .stray ∨ ∃ k, (symbol c).sort = .token k := by
  unfold symbol
  split
  · exact .inr ⟨_, rfl⟩
  · exact .inl rfl

theorem first_comment (h : (first c cs).1.sort = .comment) :
    Comment (first c cs).1.text (first c cs).2 := by
  revert h
  refine first_elim (motive := fun piece rest => piece.sort = .comment → Comment piece.text rest) c cs
    (fun _ => nofun) ?_ ?_ nofun ?_ ?_ (fun _ _ _ => nofun) ?_
  · dsimp only
    split <;> nofun
  · obtain ⟨k, hk⟩ := number_isToken (c :: cs)
    rw [hk]
    nofun
  · intro ds _
    exact .line (fun hmem => by simpa using List.mem_takeWhile_imp hmem) (dropWhile_newline ds)
  · intro ds h
    have hclosed : (blockComment ds).2.2 = true := by
      by_contra hopen
      simp [hopen] at h
    obtain ⟨body, hbody, hfree⟩ := blockComment_closed hclosed
    simp only [hbody]
    exact .block hfree
  · rcases symbol_isToken c with h | ⟨k, h⟩ <;> rw [h] <;> nofun

theorem first_blank (h : (first c cs).1.sort = .blank) :
    ∀ d ∈ (first c cs).1.text, Text.isBlank d = true := by
  revert h
  refine first_elim (motive := fun piece _ => piece.sort = .blank → ∀ d ∈ piece.text, Text.isBlank d = true)
    c cs ?_ ?_ ?_ nofun (fun _ => nofun) ?_ (fun _ _ _ => nofun) ?_
  · intro hblank _ d hd
    rw [List.mem_singleton.1 hd]
    exact hblank
  · dsimp only
    split <;> nofun
  · obtain ⟨k, hk⟩ := number_isToken (c :: cs)
    rw [hk]
    nofun
  · intro ds
    dsimp only
    split <;> nofun
  · rcases symbol_isToken c with h | ⟨k, h⟩ <;> rw [h] <;> nofun

/-! ### Stretches that are reported -/

/-- The place of a piece that begins at `p`. -/
def spanAt (p : Position) (piece : Piece) : Span := ⟨p, (p.advanceAll piece.text).offset⟩

/-- The codes of what is wrong with a stretch that is no token. -/
def lostCodes : List Code := [.invalidCharacter, .unterminatedString, .unterminatedComment]

theorem escapeFaults_code (p : Position) (cs : List Char) :
    ∀ d ∈ escapeFaults p cs, d.code = .invalidEscape := by
  fun_induction escapeFaults p cs with
  | case1 => exact List.forall_mem_nil _
  | case2 p c cs rest hescape ih => exact ih
  | case3 p c cs rest hescape ih => exact List.forall_mem_cons.2 ⟨rfl, ih⟩
  | case4 p c cs _ ih => exact ih

/-- What is reported of a stretch that is no token is reported where it stands. -/
theorem lost_span {d : Diagnostic} (hd : d ∈ piece.diagnostics p) (hcode : d.code ∈ lostCodes) :
    d.span = spanAt p piece := by
  have hescape : ∀ q cs, d ∉ escapeFaults q cs := by
    intro q cs hmem
    rw [escapeFaults_code q cs d hmem] at hcode
    revert hcode
    decide
  unfold diagnostics at hd
  split at hd
  · cases hd
  · cases hd
  · obtain rfl := List.mem_singleton.1 hd
    rfl
  · obtain ⟨c, -, rfl⟩ := List.mem_map.1 hd
    rfl
  · rcases List.mem_append.1 hd with hd | hd
    · exact absurd hd (hescape _ _)
    · obtain rfl := List.mem_singleton.1 hd
      rfl
  · exact absurd hd (hescape _ _)
  · split at hd
    · cases hd
    · obtain rfl := List.mem_singleton.1 hd
      simp [lostCodes, Fault.diagnostic, Fault.code] at hcode

theorem comment_unreported (h : piece.sort = .comment) : piece.diagnostics p = [] := by
  unfold diagnostics
  rw [h]

/-- A stretch that is neither blank nor a comment nor a token is reported. -/
theorem lost_reported (htext : piece.text ≠ []) (hblank : piece.sort ≠ .blank)
    (hcomment : piece.sort ≠ .comment) (htoken : ∀ k, piece.sort ≠ .token k) :
    ∃ d ∈ piece.diagnostics p, d.code ∈ lostCodes := by
  unfold diagnostics
  split
  · exact absurd ‹_› hblank
  · exact absurd ‹_› hcomment
  · exact ⟨_, List.mem_singleton_self _, by simp [lostCodes, Fault.diagnostic, Fault.code]⟩
  · obtain ⟨c, hc⟩ := List.exists_mem_of_ne_nil _ htext
    exact ⟨_, List.mem_map_of_mem hc, by simp [lostCodes, Fault.diagnostic, Fault.code]⟩
  · exact ⟨_, List.mem_append_right _ (List.mem_singleton_self _),
      by simp [lostCodes, Fault.diagnostic, Fault.code]⟩
  · exact absurd ‹_› (htoken _)
  · exact absurd ‹_› (htoken _)

/-! ### Where pieces stand -/

theorem offset_advanceAll_eq (p : Position) (cs : List Char) :
    (p.advanceAll cs).offset = p.offset + (String.ofList cs).utf8ByteSize := by
  induction cs generalizing p with
  | nil => rfl
  | cons c cs ih =>
    have hc : (p.advance c).offset = p.offset + c.utf8Size := by
      unfold Position.advance
      split <;> rfl
    rw [Position.advanceAll_cons, ih, hc, String.ofList_cons, String.utf8ByteSize_append,
      String.utf8ByteSize_singleton, Nat.add_assoc]

/-- A piece of a text is the first one of what is left of the text where it stands. -/
theorem place_first (h : (q, piece) ∈ place p (split cs)) :
    ∃ before c rest, cs = before ++ c :: rest ∧ q = p.advanceAll before ∧ piece = (first c rest).1 := by
  fun_induction split cs generalizing p with
  | case1 => cases h
  | case2 c cs ih =>
    rcases List.mem_cons.1 h with h | h
    · cases h
      exact ⟨[], c, cs, rfl, rfl, rfl⟩
    · obtain ⟨before, d, rest, hcs, rfl, rfl⟩ := ih h
      refine ⟨(first c cs).1.text ++ before, d, rest, ?_, by simp, rfl⟩
      rw [List.append_assoc, ← hcs, first_append]

/-- Each piece begins where all those before it have ended. -/
theorem place_apart (p : Position) (pieces : List Piece) :
    (place p pieces).Pairwise fun a b => (spanAt a.1 a.2).stop ≤ b.1.offset := by
  induction pieces generalizing p with
  | nil => exact .nil
  | cons first rest ih =>
    refine .cons ?_ (ih _)
    rintro ⟨q, piece⟩ hq
    exact offset_le_of_mem_place hq

/-- Every character stands in a piece. -/
theorem place_covers {before after : List Char} (h : cs = before ++ c :: after) (p : Position) :
    ∃ q piece, (q, piece) ∈ place p (split cs) ∧ c ∈ piece.text ∧
      (spanAt q piece).Covers (p.advanceAll before).offset := by
  fun_induction split cs generalizing p before with
  | case1 => simp at h
  | case2 d cs ih =>
    rw [← first_append d cs] at h
    rcases List.append_eq_append_iff.1 h with ⟨before', rfl, hrest⟩ | ⟨inside, htext, hafter⟩
    · obtain ⟨q, piece, hmem, hc, hcovers⟩ := ih hrest (p.advanceAll (first d cs).1.text)
      refine ⟨q, piece, List.mem_cons_of_mem _ hmem, hc, ?_⟩
      rwa [Position.advanceAll_append]
    · rcases inside with _ | ⟨e, inside⟩
      · -- the character begins the piece after this one
        rw [List.append_nil] at htext
        have hrest : (first d cs).2 = [] ++ c :: after := hafter.symm
        obtain ⟨q, piece, hmem, hc, hcovers⟩ := ih hrest (p.advanceAll before)
        exact ⟨q, piece, List.mem_cons_of_mem _ (htext ▸ hmem), hc, hcovers⟩
      · cases hafter
        refine ⟨p, (first d cs).1, List.mem_cons_self, by simp [htext], ?_, ?_⟩
        · exact offset_advanceAll p before
        · show _ < (p.advanceAll (first d cs).1.text).offset
          rw [htext, Position.advanceAll_append]
          exact offset_lt_advanceAll _ (List.cons_ne_nil _ _)

theorem mem_place_cuts {source : String} (h : (q, piece) ∈ place .start (split source.toList)) :
    ∃ before c rest, piece = (first c rest).1 ∧
      (spanAt q piece).Cuts source before (String.ofList piece.text) (String.ofList (first c rest).2) := by
  obtain ⟨before, c, rest, hsource, rfl, rfl⟩ := place_first h
  have hbefore : (String.ofList before).utf8ByteSize = (Position.start.advanceAll before).offset := by
    rw [offset_advanceAll_eq]
    exact (Nat.zero_add _).symm
  refine ⟨String.ofList before, c, rest, rfl, ?_, hbefore, ?_⟩
  · rw [← first_append c rest] at hsource
    rw [← String.ofList_append, ← String.ofList_append, List.append_assoc, ← hsource,
      String.ofList_toList]
  · rw [String.utf8ByteSize_append, hbefore]
    exact (offset_advanceAll_eq _ _).symm

theorem stop_le_size {source : String} (h : (q, piece) ∈ place .start (split source.toList)) :
    (spanAt q piece).stop ≤ source.utf8ByteSize := by
  obtain ⟨before, c, rest, -, hcuts⟩ := mem_place_cuts h
  have hsize : source.utf8ByteSize = (spanAt q piece).stop + (String.ofList (first c rest).2).utf8ByteSize := by
    rw [← hcuts.stop, ← String.utf8ByteSize_append, ← hcuts.source_eq]
  omega

/-- Two pieces that are not of the same sort do not overlap. -/
theorem apart_of_sort {a b : Position × Piece} {pieces : List Piece} (ha : a ∈ place p pieces)
    (hb : b ∈ place p pieces) (hsort : a.2.sort ≠ b.2.sort) :
    (spanAt a.1 a.2).Apart (spanAt b.1 b.2) := by
  let R (a b : Position × Piece) : Prop := (spanAt a.1 a.2).Apart (spanAt b.1 b.2)
  have hsymm : Std.Symm R := ⟨fun _ _ => Or.symm⟩
  have hapart : (place p pieces).Pairwise R := (place_apart p pieces).imp .inl
  exact hapart.forall ha hb fun hab => hsort (hab ▸ rfl)

theorem token_span {t : Token} (h : piece.token? p = some t) :
    t.span = spanAt p piece ∧ t.lexeme = String.ofList piece.text := by
  unfold token? at h
  split at h <;> cases h
  exact ⟨rfl, rfl⟩

/-- Where a piece stands, if it is a comment. -/
def commentSpan? (placed : Position × Piece) : Option Span :=
  if placed.2.sort = .comment then some (spanAt placed.1 placed.2) else none

theorem commentSpan?_eq_some {placed : Position × Piece} {span : Span}
    (h : commentSpan? placed = some span) :
    placed.2.sort = .comment ∧ span = spanAt placed.1 placed.2 := by
  unfold commentSpan? at h
  split at h <;> cases h
  exact ⟨‹_›, rfl⟩

end Piece

namespace Tokens

open Piece

variable {source : String}

theorem mem_ofText {t : Token} (h : t ∈ (ofText source).tokens) :
    t = Token.endAt (Position.start.advanceAll source.toList) ∨
      ∃ p piece, (p, piece) ∈ place .start (split source.toList) ∧ piece.token? p = some t := by
  rcases List.mem_append.1 h with h | h
  · obtain ⟨⟨p, piece⟩, hmem, htoken⟩ := List.mem_filterMap.1 h
    exact .inr ⟨p, piece, hmem, htoken⟩
  · exact .inl (List.mem_singleton.1 h)

theorem end_offset (source : String) :
    (Position.start.advanceAll source.toList).offset = source.utf8ByteSize := by
  rw [offset_advanceAll_eq, String.ofList_toList]
  exact Nat.zero_add _

theorem ofText_sorted (source : String) : (ofText source).tokens.Pairwise fun t u =>
    t.span.start.offset < u.span.start.offset ∧ t.span.stop ≤ u.span.start.offset := by
  refine List.pairwise_append.2 ⟨?_, List.pairwise_singleton _ _, ?_⟩
  · have hsorted := place_sorted .start (split_text source.toList)
    refine List.pairwise_filterMap.2 ((hsorted.and (place_apart _ _)).imp ?_)
    rintro ⟨p, piece⟩ ⟨q, other⟩ ⟨hstart, hstop⟩ t ht u hu
    rw [(token_span ht).1, (token_span hu).1]
    exact ⟨hstart, hstop⟩
  · intro t ht eof heof
    obtain rfl := List.mem_singleton.1 heof
    obtain ⟨⟨p, piece⟩, hmem, htoken⟩ := List.mem_filterMap.1 ht
    have hlt := offset_lt_advanceAll p (split_text _ piece (mem_of_mem_place hmem))
    have hle := stop_le_size hmem
    rw [← end_offset] at hle
    rw [(token_span htoken).1]
    exact ⟨Nat.lt_of_lt_of_le hlt hle, hle⟩

theorem ofText_slices {t : Token} (ht : t ∈ (ofText source).tokens) (hkind : t.kind ≠ .eof) :
    t.lexeme ≠ "" ∧ ∃ before after, t.span.Cuts source before t.lexeme after := by
  rcases mem_ofText ht with rfl | ⟨p, piece, hmem, htoken⟩
  · exact absurd rfl hkind
  · obtain ⟨before, c, rest, -, hcuts⟩ := mem_place_cuts hmem
    obtain ⟨hspan, hlexeme⟩ := token_span htoken
    rw [hspan, hlexeme]
    refine ⟨fun hempty => ?_, before, _, hcuts⟩
    have hnil : piece.text = [] := by simpa using congrArg String.toList hempty
    exact split_text _ piece (mem_of_mem_place hmem) hnil

theorem ofText_end (source : String) : ∃ (ts : List Token) (eof : Token),
    (ofText source).tokens = ts ++ [eof] ∧ (∀ t ∈ ts, t.kind ≠ .eof) ∧ eof.kind = .eof ∧
      eof.span.start.offset = source.utf8ByteSize ∧ eof.span.stop = source.utf8ByteSize := by
  obtain ⟨ts, eof, htokens, hts, heof⟩ := ofText_ended source
  have hlast : eof = Token.endAt (Position.start.advanceAll source.toList) := by
    simpa [ofText] using (congrArg List.getLast? htokens).symm
  refine ⟨ts, eof, htokens, hts, heof, ?_, ?_⟩ <;> rw [hlast] <;> exact end_offset source

/-- Where the comments of a text stand. -/
def comments (source : String) : List Span :=
  (place .start (split source.toList)).filterMap commentSpan?

/-- What is reported of stretches that are no tokens. -/
def lost (source : String) : List Diagnostic :=
  (ofText source).diagnostics.filter (·.code ∈ lostCodes)

theorem mem_comments {k : Span} (h : k ∈ comments source) :
    ∃ p piece, (p, piece) ∈ place .start (split source.toList) ∧ piece.sort = .comment ∧
      k = spanAt p piece := by
  obtain ⟨⟨p, piece⟩, hmem, hspan⟩ := List.mem_filterMap.1 h
  exact ⟨p, piece, hmem, commentSpan?_eq_some hspan⟩

theorem mem_lost {d : Diagnostic} (h : d ∈ lost source) :
    ∃ p piece, (p, piece) ∈ place .start (split source.toList) ∧ d ∈ piece.diagnostics p ∧
      d.code ∈ lostCodes := by
  obtain ⟨hmem, hcode⟩ := List.mem_filter.1 h
  obtain ⟨⟨p, piece⟩, hplaced, hd⟩ := List.mem_flatMap.1 hmem
  exact ⟨p, piece, hplaced, hd, of_decide_eq_true hcode⟩

theorem comments_cut {k : Span} (h : k ∈ comments source) : ∃ before text after,
    k.Cuts source before text after ∧ Comment text.toList after.toList := by
  obtain ⟨p, piece, hmem, hsort, rfl⟩ := mem_comments h
  obtain ⟨before, c, rest, rfl, hcuts⟩ := mem_place_cuts hmem
  refine ⟨before, _, _, hcuts, ?_⟩
  rw [String.toList_ofList, String.toList_ofList]
  exact first_comment hsort

theorem comments_pairwise (source : String) : (comments source).Pairwise Span.Apart := by
  refine List.pairwise_filterMap.2 ((place_apart _ _).imp ?_)
  intro a b hab k hk k' hk'
  rw [(commentSpan?_eq_some hk).2, (commentSpan?_eq_some hk').2]
  exact .inl hab

theorem comments_apart {k : Span} (h : k ∈ comments source) :
    (∀ t ∈ (ofText source).tokens, k.Apart t.span) ∧ ∀ d ∈ lost source, k.Apart d.span := by
  obtain ⟨p, piece, hmem, hsort, rfl⟩ := mem_comments h
  refine ⟨fun t ht => ?_, fun d hd => ?_⟩
  · rcases mem_ofText ht with rfl | ⟨q, other, hother, htoken⟩
    · have hle := stop_le_size hmem
      rw [← end_offset] at hle
      exact .inl hle
    · rw [(token_span htoken).1]
      refine apart_of_sort hmem hother ?_
      rw [hsort, token_kind htoken]
      nofun
  · obtain ⟨q, other, hother, hd, hcode⟩ := mem_lost hd
    rw [lost_span hd hcode]
    refine apart_of_sort hmem hother fun hsame => ?_
    rw [comment_unreported (hsame.symm.trans hsort)] at hd
    cases hd

/-- A character lies in a token, or it is blank, or it lies in a comment or in a stretch that is
reported. -/
theorem ofText_accounts {before after : String} {c : Char}
    (h : source = before ++ String.singleton c ++ after) :
    (∃ t ∈ (ofText source).tokens, t.span.Covers before.utf8ByteSize) ∨ Text.isBlank c = true ∨
      (∃ k ∈ comments source, k.Covers before.utf8ByteSize) ∨
      ∃ d ∈ lost source, d.span.Covers before.utf8ByteSize := by
  have hlist : source.toList = before.toList ++ c :: after.toList := by
    simp [h, String.toList_append]
  have hoffset : (Position.start.advanceAll before.toList).offset = before.utf8ByteSize :=
    end_offset before
  obtain ⟨p, piece, hmem, hc, hcovers⟩ := place_covers hlist .start
  rw [hoffset] at hcovers
  by_cases htoken : ∃ k, piece.sort = .token k
  · obtain ⟨k, hk⟩ := htoken
    have hsome : piece.token? p = some ⟨k, String.ofList piece.text, spanAt p piece⟩ := by
      rw [token?, hk]
      rfl
    exact .inl ⟨_, List.mem_append_left _ (List.mem_filterMap.2 ⟨_, hmem, hsome⟩), hcovers⟩
  by_cases hblank : piece.sort = .blank
  · obtain ⟨_, d, rest, -, -, rfl⟩ := place_first hmem
    exact .inr (.inl (first_blank hblank c hc))
  by_cases hcomment : piece.sort = .comment
  · have hspan : commentSpan? (p, piece) = some (spanAt p piece) := if_pos hcomment
    exact .inr (.inr (.inl ⟨_, List.mem_filterMap.2 ⟨_, hmem, hspan⟩, hcovers⟩))
  · have htext := split_text _ piece (mem_of_mem_place hmem)
    obtain ⟨d, hd, hcode⟩ := lost_reported (p := p) htext hblank hcomment (not_exists.1 htoken)
    refine .inr (.inr (.inr ⟨d, List.mem_filter.2 ⟨?_, decide_eq_true hcode⟩, ?_⟩))
    · exact List.mem_flatMap.2 ⟨(p, piece), hmem, hd⟩
    · rwa [lost_span hd hcode]

/-- Every character of a text is accounted for. The tokens stand one after the other and do not overlap;
each but the last has the text of its span, which is not empty; the last, and no other, is the end of
input, at the end of the text. There are comments, which overlap neither the tokens nor each other nor
the stretches that are reported because they are no tokens; and a character outside of all tokens is
blank, or lies in one of these comments, or in such a stretch. -/
theorem ofText_covers (source : String) :
    let tokens := (ofText source).tokens
    let lost := (ofText source).diagnostics.filter
      (·.code ∈ [.invalidCharacter, .unterminatedString, .unterminatedComment])
    (tokens.Pairwise fun t u =>
      t.span.start.offset < u.span.start.offset ∧ t.span.stop ≤ u.span.start.offset) ∧
    (∀ t ∈ tokens, t.kind ≠ .eof →
      t.lexeme ≠ "" ∧ ∃ before after, t.span.Cuts source before t.lexeme after) ∧
    (∃ ts eof, tokens = ts ++ [eof] ∧ (∀ t ∈ ts, t.kind ≠ .eof) ∧ eof.kind = .eof ∧
      eof.span.start.offset = source.utf8ByteSize ∧ eof.span.stop = source.utf8ByteSize) ∧
    ∃ comments : List Span,
      (∀ k ∈ comments, ∃ before text after,
        k.Cuts source before text after ∧ Comment text.toList after.toList) ∧
      comments.Pairwise Span.Apart ∧
      (∀ k ∈ comments, (∀ t ∈ tokens, k.Apart t.span) ∧ ∀ d ∈ lost, k.Apart d.span) ∧
      ∀ before c after, source = before ++ String.singleton c ++ after →
        (∃ t ∈ tokens, t.span.Covers before.utf8ByteSize) ∨ Text.isBlank c = true ∨
          (∃ k ∈ comments, k.Covers before.utf8ByteSize) ∨
          ∃ d ∈ lost, d.span.Covers before.utf8ByteSize :=
  ⟨ofText_sorted source, fun _ => ofText_slices, ofText_end source, comments source,
    fun _ => comments_cut, comments_pairwise source, fun _ => comments_apart,
    fun _ _ _ => ofText_accounts⟩

end Tokens

end Scriptlet
