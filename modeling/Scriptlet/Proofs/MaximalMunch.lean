import Mathlib.Computability.Language
import Scriptlet.Proofs.Relexing

/-!
# The longest lexeme

What the text of a token may be is said here by regular languages and two tables, without regard to how a text is
split (`Lexeme`). Every token has such a text, with the kind that belongs to it, and no longer stretch of the
source from the same place on is one too; where a character or a string literal is reported because it begins
nothing, no stretch at all is (`Tokens.ofText_longest`).

Both follow from what the first piece of a text is if a lexeme stands at its front (`Lexeme.first`): a token that
is at least as long, or a comment.
-/

namespace Scriptlet

open scoped Computability

namespace Lexeme

/-! ### The grammar of tokens -/

/-- The texts of one character for which `p` holds. -/
def oneOf (p : Char → Prop) : Language Char := {text | ∃ c, p c ∧ text = [c]}

def IsLetter (c : Char) : Prop := 'A' ≤ c ∧ c ≤ 'Z' ∨ 'a' ≤ c ∧ c ≤ 'z' ∨ c = '_'

def IsDigit (c : Char) : Prop := '0' ≤ c ∧ c ≤ '9'

def names : Language Char := oneOf IsLetter * (oneOf fun c => IsLetter c ∨ IsDigit c)∗

def wholes : Language Char := oneOf IsDigit * (oneOf IsDigit)∗

def fractions : Language Char := wholes * {['.']} * wholes

/-- What stands between the quotes of a string: characters as they are, and backslashes with any character of the
line after them. -/
def insides : Language Char :=
  (oneOf (fun c => c ≠ '"' ∧ c ≠ '\\' ∧ c ≠ '\n') + {['\\']} * oneOf (· ≠ '\n'))∗

def strings : Language Char := {['"']} * insides * {['"']}

def keywords : List (String × Token.Kind) :=
  [("let", .letWord), ("func", .funcWord), ("if", .ifWord), ("else", .elseWord), ("while", .whileWord),
    ("return", .returnWord), ("print", .printWord), ("break", .breakWord), ("continue", .continueWord),
    ("true", .trueWord), ("false", .falseWord), ("nil", .nilWord), ("int", .intWord), ("float", .floatWord),
    ("bool", .boolWord), ("string", .stringWord)]

/-- The operators and delimiters. -/
def symbols : List (String × Token.Kind) :=
  [("(", .lparen), (")", .rparen), ("\x7b", .lbrace), ("\x7d", .rbrace), (",", .comma), (";", .semicolon),
    ("+", .plus), ("-", .minus), ("*", .star), ("/", .slash), ("%", .percent), ("=", .equal), ("==", .equalEqual),
    ("!", .bang), ("!=", .bangEqual), ("<", .less), ("<=", .lessEqual), (">", .greater), (">=", .greaterEqual),
    ("&&", .andAnd), ("||", .orOr)]

end Lexeme

open Lexeme in
/-- `Lexeme k text`: the text is one of a token of kind `k`. A name that is a keyword is no identifier. -/
inductive Lexeme : Token.Kind → List Char → Prop
  | name {text : List Char} (htext : text ∈ names) (hfree : ∀ k, (String.ofList text, k) ∉ keywords) :
      Lexeme .ident text
  | keyword {s : String} {k : Token.Kind} (hs : (s, k) ∈ keywords) : Lexeme k s.toList
  | whole {text : List Char} (htext : text ∈ wholes) : Lexeme .number text
  | fraction {text : List Char} (htext : text ∈ fractions) : Lexeme .fnumber text
  | string {text : List Char} (htext : text ∈ strings) : Lexeme .str text
  | symbol {s : String} {k : Token.Kind} (hs : (s, k) ∈ symbols) : Lexeme k s.toList

namespace Lexeme

variable {c d : Char} {cs text rest : List Char} {k k' : Token.Kind}

/-! ### Members of the languages -/

theorem isNameStart_iff : Piece.isNameStart c = true ↔ IsLetter c := by
  simp [Piece.isNameStart, IsLetter, Piece.isAlpha_iff, Char.le_def, UInt32.le_iff_toNat_le, or_assoc]

theorem isDigit_iff : c.isDigit = true ↔ IsDigit c := by
  simp [IsDigit, Char.isDigit, Char.le_def]

theorem letter_not_digit (h : IsLetter c) : ¬ IsDigit c := by
  rintro ⟨hlow, hhigh⟩
  rw [Char.le_def, UInt32.le_iff_toNat_le] at hlow hhigh
  simp only [IsLetter, Char.le_def, UInt32.le_iff_toNat_le] at h
  rcases h with h | h | rfl
  · exact absurd (h.1.trans hhigh) (by decide)
  · exact absurd (h.1.trans hhigh) (by decide)
  · exact absurd hhigh (by decide)

theorem isNameRest_iff : Piece.isNameRest c = true ↔ IsLetter c ∨ IsDigit c := by
  rw [Piece.isNameRest, Bool.or_eq_true, isNameStart_iff, isDigit_iff]

theorem mem_oneOf_star {p : Char → Prop} : text ∈ (oneOf p)∗ ↔ ∀ c ∈ text, p c := by
  rw [Language.mem_kstar]
  constructor
  · rintro ⟨parts, rfl, hparts⟩ c hc
    obtain ⟨part, hpart, hc⟩ := List.mem_flatten.1 hc
    obtain ⟨d, hd, rfl⟩ := hparts part hpart
    rwa [List.mem_singleton.1 hc]
  · intro h
    refine ⟨text.map fun c => [c], (List.flatMap_singleton' text).symm, ?_⟩
    intro part hpart
    obtain ⟨c, hc, rfl⟩ := List.mem_map.1 hpart
    exact ⟨c, h c hc, rfl⟩

theorem mem_oneOf_mul_star {p q : Char → Prop} :
    text ∈ oneOf p * (oneOf q)∗ ↔ ∃ c cs, text = c :: cs ∧ p c ∧ ∀ d ∈ cs, q d := by
  rw [Language.mem_mul]
  constructor
  · rintro ⟨_, ⟨c, hc, rfl⟩, cs, hcs, rfl⟩
    exact ⟨c, cs, rfl, hc, mem_oneOf_star.1 hcs⟩
  · rintro ⟨c, cs, rfl, hc, hcs⟩
    exact ⟨[c], ⟨c, hc, rfl⟩, cs, mem_oneOf_star.2 hcs, rfl⟩

theorem mem_names : text ∈ names ↔
    ∃ c cs, text = c :: cs ∧ Piece.isNameStart c = true ∧ ∀ d ∈ cs, Piece.isNameRest d = true := by
  simp only [names, mem_oneOf_mul_star, isNameStart_iff, isNameRest_iff]

theorem mem_wholes : text ∈ wholes ↔ text ≠ [] ∧ ∀ d ∈ text, d.isDigit = true := by
  simp only [wholes, mem_oneOf_mul_star, isDigit_iff]
  constructor
  · rintro ⟨c, cs, rfl, hc, hcs⟩
    exact ⟨List.cons_ne_nil c cs, List.forall_mem_cons.2 ⟨hc, hcs⟩⟩
  · rintro ⟨hne, hall⟩
    obtain ⟨c, cs, rfl⟩ := List.exists_cons_of_ne_nil hne
    exact ⟨c, cs, rfl, List.forall_mem_cons.1 hall⟩

theorem mem_fractions : text ∈ fractions ↔ ∃ a ∈ wholes, ∃ b ∈ wholes, text = a ++ '.' :: b := by
  simp only [fractions, Language.mem_mul]
  constructor
  · rintro ⟨_, ⟨a, ha, _, rfl, rfl⟩, b, hb, rfl⟩
    exact ⟨a, ha, b, hb, by simp⟩
  · rintro ⟨a, ha, b, hb, rfl⟩
    exact ⟨a ++ ['.'], ⟨a, ha, ['.'], rfl, rfl⟩, b, hb, by simp⟩

theorem mem_strings : text ∈ strings ↔ ∃ inside ∈ insides, text = '"' :: (inside ++ ['"']) := by
  simp only [strings, Language.mem_mul]
  constructor
  · rintro ⟨_, ⟨_, rfl, inside, hinside, rfl⟩, _, rfl, rfl⟩
    exact ⟨inside, hinside, rfl⟩
  · rintro ⟨inside, hinside, rfl⟩
    exact ⟨'"' :: inside, ⟨['"'], rfl, inside, hinside, rfl⟩, ['"'], rfl, rfl⟩

theorem insides_nil : [] ∈ insides := Language.mem_kstar.2 ⟨[], rfl, List.forall_mem_nil _⟩

theorem insides_plain (hc : c ≠ '"' ∧ c ≠ '\\' ∧ c ≠ '\n') (h : cs ∈ insides) : c :: cs ∈ insides := by
  obtain ⟨parts, rfl, hparts⟩ := Language.mem_kstar.1 h
  exact Language.mem_kstar.2 ⟨[c] :: parts, rfl, List.forall_mem_cons.2 ⟨.inl ⟨c, hc, rfl⟩, hparts⟩⟩

theorem insides_escape (hc : c ≠ '\n') (h : cs ∈ insides) : '\\' :: c :: cs ∈ insides := by
  obtain ⟨parts, rfl, hparts⟩ := Language.mem_kstar.1 h
  have hpart : ['\\', c] ∈ ({['\\']} * oneOf (· ≠ '\n') : Language Char) :=
    Language.mem_mul.2 ⟨['\\'], rfl, [c], ⟨c, hc, rfl⟩, rfl⟩
  exact Language.mem_kstar.2 ⟨['\\', c] :: parts, rfl, List.forall_mem_cons.2 ⟨.inr hpart, hparts⟩⟩

theorem mem_keywords {s : String} : (s, k) ∈ keywords ↔ Token.Kind.ofWord? s = some k := by
  constructor
  · have hall : ∀ entry ∈ keywords, Token.Kind.ofWord? entry.1 = some entry.2 := by decide
    exact fun h => hall (s, k) h
  · intro h
    unfold Token.Kind.ofWord? at h
    split at h <;> cases h <;> decide

/-- The kind of an operator or delimiter, by its length. -/
def symbolKind? : List Char → Option Token.Kind
  | [c] => Token.Kind.ofChar? c
  | [c, d] => Token.Kind.ofPair? c d
  | _ => none

theorem mem_symbols : (String.ofList text, k) ∈ symbols ↔ symbolKind? text = some k := by
  constructor
  · have hall : ∀ entry ∈ symbols, symbolKind? entry.1.toList = some entry.2 := by decide
    intro h
    have hkind := hall _ h
    rwa [String.toList_ofList] at hkind
  · intro h
    unfold symbolKind? at h
    split at h
    · unfold Token.Kind.ofChar? at h
      split at h <;> cases h <;> decide
    · unfold Token.Kind.ofPair? at h
      split at h <;> cases h <;> decide
    · cases h

theorem of_symbolKind (h : symbolKind? text = some k) : Lexeme k text := by
  have hsymbol := symbol (mem_symbols.2 h)
  rwa [String.toList_ofList] at hsymbol

/-! ### A piece that is a token has the text of one -/

theorem of_stringRest (h : (Piece.stringRest cs).2.2 = true) :
    ∃ inside ∈ insides, (Piece.stringRest cs).1 = inside ++ ['"'] := by
  fun_induction Piece.stringRest cs with
  | case1 => cases h
  | case2 cs => exact ⟨[], insides_nil, rfl⟩
  | case3 => cases h
  | case4 => cases h
  | case5 c cs hc inside rest closed hrec ih =>
    rw [hrec] at ih
    obtain ⟨body, hbody, heq⟩ := ih h
    exact ⟨'\\' :: c :: body, insides_escape hc hbody, by simpa using heq⟩
  | case6 c cs hquote hnewline hbreak hescape inside rest closed hrec ih =>
    -- a backslash at the end of the text would leave the literal open
    have hbackslash : c ≠ '\\' := by
      rintro rfl
      cases cs with
      | nil =>
        cases hrec
        cases h
      | cons d cs => exact hescape d cs rfl rfl
    rw [hrec] at ih
    obtain ⟨body, hbody, heq⟩ := ih h
    exact ⟨c :: body, insides_plain ⟨hquote, hbackslash, hnewline⟩ hbody, by simpa using heq⟩

theorem of_number (hc : c.isDigit = true) (h : (Piece.number (c :: cs)).1.sort = .token k) :
    Lexeme k (Piece.number (c :: cs)).1.text := by
  have hdigits (cs : List Char) : ∀ d ∈ cs.takeWhile Char.isDigit, d.isDigit = true :=
    fun d hd => List.mem_takeWhile_imp hd
  have hwhole : (c :: cs).takeWhile Char.isDigit ∈ wholes := by
    refine mem_wholes.2 ⟨?_, hdigits _⟩
    rw [List.takeWhile_cons_of_pos hc]
    exact List.cons_ne_nil _ _
  revert h
  fun_cases Piece.number (c :: cs) with
  | case1 whole d after hdrop hd =>
    rintro ⟨⟩
    refine .fraction (mem_fractions.2 ⟨_, hwhole, _, mem_wholes.2 ⟨?_, hdigits _⟩, rfl⟩)
    rw [List.takeWhile_cons_of_pos hd]
    exact List.cons_ne_nil _ _
  | case2 =>
    rintro ⟨⟩
    exact .whole hwhole
  | case3 =>
    rintro ⟨⟩
    exact .whole hwhole

/-- A name is a keyword or an identifier, as the table says. -/
theorem of_name (htext : text ∈ names) : Lexeme ((Token.Kind.ofWord? (String.ofList text)).getD .ident) text := by
  cases hword : Token.Kind.ofWord? (String.ofList text) with
  | none =>
    refine .name htext fun k hk => ?_
    rw [mem_keywords, hword] at hk
    cases hk
  | some k =>
    have hkeyword := keyword (mem_keywords.2 hword)
    rwa [String.toList_ofList] at hkeyword

theorem of_word (hc : Piece.isNameStart c = true) (h : (Piece.word (c :: cs)).1.sort = .token k) :
    Lexeme k (Piece.word (c :: cs)).1.text := by
  have hrest : Piece.isNameRest c = true := by rw [Piece.isNameRest, hc, Bool.true_or]
  cases h
  refine of_name (mem_names.2 ⟨c, cs.takeWhile Piece.isNameRest, List.takeWhile_cons_of_pos hrest, hc, ?_⟩)
  exact fun d hd => List.mem_takeWhile_imp hd

theorem of_commentOrSymbol (h : (Piece.commentOrSymbol c cs).1.sort = .token k) :
    Lexeme k (Piece.commentOrSymbol c cs).1.text := by
  have hsymbol {c : Char} (h : (Piece.symbol c).sort = .token k) : Lexeme k (Piece.symbol c).text := by
    rw [Piece.symbol_text]
    unfold Piece.symbol at h
    split at h <;> cases h
    next hkind => exact of_symbolKind hkind
  revert h
  fun_cases Piece.commentOrSymbol c cs with
  | case1 => rintro ⟨⟩
  | case2 ds inside after closed =>
    dsimp only
    split <;> rintro ⟨⟩
  | case3 c d ds hline hblock kind hkind =>
    rintro ⟨⟩
    exact of_symbolKind hkind
  | case4 => exact hsymbol
  | case5 => exact hsymbol

/-- The text of a token is one for its kind. -/
theorem of_first (h : (Piece.first c cs).1.sort = .token k) : Lexeme k (Piece.first c cs).1.text := by
  revert h
  unfold Piece.first
  split
  · rintro ⟨⟩
  split
  · intro h
    have hclosed : (Piece.stringRest cs).2.2 = true := by
      by_contra hopen
      simp [hopen] at h
    obtain ⟨inside, hinside, htext⟩ := of_stringRest hclosed
    simp only [hclosed, if_true, Piece.Sort.token.injEq] at h
    subst h
    exact .string (mem_strings.2 ⟨inside, hinside, by rw [← htext]⟩)
  split
  · exact of_number ‹_›
  split
  · exact of_word ‹_›
  · exact of_commentOrSymbol

/-! ### A text that begins with a lexeme -/

/-- The piece is a token that begins with `text`, and it is one of kind `k` if there is no more to it. -/
def Extended (k : Token.Kind) (text : List Char) (piece : Piece) : Prop :=
  ∃ k' more, piece = ⟨.token k', text ++ more⟩ ∧ (more = [] → k' = k)

theorem stringRest_inside (h : text ∈ insides) (rest : List Char) :
    Piece.stringRest (text ++ '"' :: rest) = (text ++ ['"'], rest, true) := by
  obtain ⟨parts, rfl, hparts⟩ := Language.mem_kstar.1 h
  clear h
  induction parts with
  | nil => rfl
  | cons part parts ih =>
    obtain ⟨hpart, hothers⟩ := List.forall_mem_cons.1 hparts
    have hrest := ih hothers
    rw [List.flatten_cons, List.append_assoc]
    rcases hpart with ⟨c, ⟨hquote, hbackslash, hnewline⟩, rfl⟩ | hpart
    · rw [List.singleton_append, Piece.stringRest.eq_6 _ _ hquote hnewline (fun _ hc => absurd hc hbackslash)
        (fun _ _ hc => absurd hc hbackslash), hrest]
      rfl
    · obtain ⟨_, rfl, _, ⟨c, hc, rfl⟩, rfl⟩ := Language.mem_mul.1 hpart
      show Piece.stringRest ('\\' :: c :: (parts.flatten ++ '"' :: rest)) = _
      rw [Piece.stringRest.eq_5 _ _ hc, hrest]
      rfl

theorem nameStart_dispatch (h : Piece.isNameStart c = true) (cs : List Char) :
    Piece.first c cs = Piece.word (c :: cs) := by
  have hrest : Piece.isNameRest c = true := by rw [Piece.isNameRest, h, Bool.true_or]
  have hblank : ¬ Text.isBlank c = true := fun hblank => by
    rw [Piece.blank_not_nameRest hblank] at hrest
    cases hrest
  have hquote : c ≠ '"' := by
    rintro rfl
    revert h
    decide
  have hdigit : ¬ c.isDigit = true := by
    rw [isNameStart_iff] at h
    rw [isDigit_iff]
    exact letter_not_digit h
  rw [Piece.first, if_neg hblank, if_neg hquote, if_neg hdigit, if_pos h]

theorem digit_dispatch (h : c.isDigit = true) (cs : List Char) : Piece.first c cs = Piece.number (c :: cs) := by
  have hblank : ¬ Text.isBlank c = true := fun hblank => by
    rw [Piece.blank_not_digit hblank] at h
    cases h
  have hquote : c ≠ '"' := by
    rintro rfl
    revert h
    decide
  rw [Piece.first, if_neg hblank, if_neg hquote, if_pos h]

theorem char_dispatch (h : Token.Kind.ofChar? c = some k) (cs : List Char) :
    Piece.first c cs = Piece.commentOrSymbol c cs := by
  unfold Token.Kind.ofChar? at h
  split at h <;> first | rfl | cases h

theorem pair_dispatch (h : Token.Kind.ofPair? c d = some k) (cs : List Char) :
    Piece.first c cs = Piece.commentOrSymbol c cs := by
  unfold Token.Kind.ofPair? at h
  split at h <;> first | rfl | cases h

theorem mem_of_front (hne : text ≠ []) (hcs : c :: cs = text ++ rest) : c ∈ text := by
  obtain ⟨d, ds, rfl⟩ := List.exists_cons_of_ne_nil hne
  rw [List.cons_append, List.cons.injEq] at hcs
  rw [hcs.1]
  exact List.mem_cons_self

theorem name_extended (htext : text ∈ names) (hkind : (Token.Kind.ofWord? (String.ofList text)).getD .ident = k)
    (hcs : c :: cs = text ++ rest) : Extended k text (Piece.first c cs).1 := by
  obtain ⟨d, ds, rfl, hd, hds⟩ := mem_names.1 htext
  have hall : ∀ b ∈ d :: ds, Piece.isNameRest b = true := by
    refine List.forall_mem_cons.2 ⟨?_, hds⟩
    rw [Piece.isNameRest, hd, Bool.true_or]
  obtain rfl : c = d := (List.cons.inj hcs).1
  rw [nameStart_dispatch hd, hcs, Piece.word, List.takeWhile_append_of_pos hall]
  refine ⟨_, rest.takeWhile Piece.isNameRest, rfl, fun hmore => ?_⟩
  rw [hmore, List.append_nil, hkind]

theorem whole_extended (htext : text ∈ wholes) (hcs : c :: cs = text ++ rest) :
    Extended .number text (Piece.first c cs).1 := by
  obtain ⟨hne, hall⟩ := mem_wholes.1 htext
  have htake : (text ++ rest).takeWhile Char.isDigit = text ++ rest.takeWhile Char.isDigit :=
    List.takeWhile_append_of_pos hall
  rw [digit_dispatch (hall c (mem_of_front hne hcs)), hcs]
  fun_cases Piece.number (text ++ rest) with
  | case1 whole d after hdrop hd =>
    refine ⟨.fnumber, rest.takeWhile Char.isDigit ++ '.' :: (d :: after).takeWhile Char.isDigit, ?_, by simp⟩
    rw [← List.append_assoc, ← htake]
  | case2 => exact ⟨.number, rest.takeWhile Char.isDigit, by rw [← htake], fun _ => rfl⟩
  | case3 => exact ⟨.number, rest.takeWhile Char.isDigit, by rw [← htake], fun _ => rfl⟩

theorem fraction_extended (htext : text ∈ fractions) (hcs : c :: cs = text ++ rest) :
    Extended .fnumber text (Piece.first c cs).1 := by
  obtain ⟨a, ha, b, hb, rfl⟩ := mem_fractions.1 htext
  obtain ⟨hane, hadigits⟩ := mem_wholes.1 ha
  obtain ⟨hbne, hbdigits⟩ := mem_wholes.1 hb
  rw [List.append_assoc, List.cons_append] at hcs
  have hpoint : ∀ d ∈ ('.' :: (b ++ rest)).head?, d.isDigit = false := by simp
  obtain ⟨htake, hdrop⟩ := Piece.takeWhile_again hadigits hpoint
  obtain ⟨d, ds, rfl⟩ := List.exists_cons_of_ne_nil hbne
  have hd : d.isDigit = true := hbdigits d List.mem_cons_self
  have hfraction : (d :: ds ++ rest).takeWhile Char.isDigit = d :: ds ++ rest.takeWhile Char.isDigit :=
    List.takeWhile_append_of_pos hbdigits
  rw [digit_dispatch (hadigits c (mem_of_front hane hcs)), hcs, Piece.number, htake, hdrop]
  simp only [List.cons_append, hd, if_true] at hfraction ⊢
  rw [hfraction]
  exact ⟨.fnumber, rest.takeWhile Char.isDigit, by simp, fun _ => rfl⟩

theorem string_extended (htext : text ∈ strings) (hcs : c :: cs = text ++ rest) :
    Extended .str text (Piece.first c cs).1 := by
  obtain ⟨inside, hinside, rfl⟩ := mem_strings.1 htext
  rw [List.cons_append, List.cons.injEq, List.append_assoc, List.singleton_append] at hcs
  obtain ⟨rfl, rfl⟩ := hcs
  refine ⟨.str, [], ?_, fun _ => rfl⟩
  show (⟨if (Piece.stringRest (inside ++ '"' :: rest)).2.2 then .token .str else .openString,
    '"' :: (Piece.stringRest (inside ++ '"' :: rest)).1⟩ : Piece) = _
  rw [stringRest_inside hinside]
  simp

/-- Only a slash can begin something else, a comment. -/
theorem symbol_extended (htext : symbolKind? text = some k) (hcs : c :: cs = text ++ rest) :
    Extended k text (Piece.first c cs).1 ∨
      rest ≠ [] ∧ ((Piece.first c cs).1.sort = .comment ∨ (Piece.first c cs).1.sort = .openComment) := by
  unfold symbolKind? at htext
  split at htext
  · rw [List.singleton_append, List.cons.injEq] at hcs
    obtain ⟨rfl, rfl⟩ := hcs
    rw [char_dispatch htext]
    have hsymbol : Piece.symbol c = ⟨.token k, [c]⟩ := by rw [Piece.symbol, htext]
    revert hsymbol
    fun_cases Piece.commentOrSymbol c cs with
    | case1 ds => exact fun _ => .inr ⟨List.cons_ne_nil _ _, .inl rfl⟩
    | case2 ds inside after closed =>
      refine fun _ => .inr ⟨List.cons_ne_nil _ _, ?_⟩
      dsimp only
      split
      · exact .inl rfl
      · exact .inr rfl
    | case3 c d ds hline hblock kind hkind => exact fun _ => .inl ⟨kind, [d], rfl, fun h => absurd h (List.cons_ne_nil _ _)⟩
    | case4 => exact fun hsymbol => .inl ⟨k, [], hsymbol, fun _ => rfl⟩
    | case5 => exact fun hsymbol => .inl ⟨k, [], hsymbol, fun _ => rfl⟩
  · rw [List.cons_append, List.singleton_append, List.cons.injEq] at hcs
    obtain ⟨rfl, rfl⟩ := hcs
    rw [pair_dispatch htext, Piece.pair_again htext]
    exact .inl ⟨k, [], rfl, fun _ => rfl⟩
  · cases htext

theorem keyword_mem_names {s : String} (hs : (s, k) ∈ keywords) : s.toList ∈ names := by
  have hall : ∀ entry ∈ keywords, (entry.1.toList.head?.any Piece.isNameStart &&
      entry.1.toList.tail.all Piece.isNameRest) = true := by decide
  obtain ⟨hhead, htail⟩ := Bool.and_eq_true_iff.1 (hall _ hs)
  obtain ⟨c, hc, hstart⟩ := (Option.any_eq_true _ _).1 hhead
  exact mem_names.2 ⟨c, s.toList.tail, (List.cons_head?_tail hc).symm, hstart, List.all_eq_true.1 htail⟩

/-- Where a lexeme stands at the front of a text, the first piece is a token that is at least as long, or a
comment. -/
theorem first (h : Lexeme k text) (hcs : c :: cs = text ++ rest) :
    Extended k text (Piece.first c cs).1 ∨
      rest ≠ [] ∧ ((Piece.first c cs).1.sort = .comment ∨ (Piece.first c cs).1.sort = .openComment) := by
  cases h with
  | name htext hfree =>
    refine .inl (name_extended htext ?_ hcs)
    cases hword : Token.Kind.ofWord? (String.ofList text) with
    | none => rfl
    | some k => exact absurd (mem_keywords.2 hword) (hfree k)
  | @keyword s _ hs =>
    refine .inl (name_extended (keyword_mem_names hs) ?_ hcs)
    rw [String.ofList_toList, mem_keywords.1 hs, Option.getD_some]
  | whole htext => exact .inl (whole_extended htext hcs)
  | fraction htext => exact .inl (fraction_extended htext hcs)
  | string htext => exact .inl (string_extended htext hcs)
  | @symbol s _ hs =>
    rw [← String.ofList_toList (s := s)] at hs
    exact symbol_extended (mem_symbols.1 hs) hcs

theorem ne_nil (h : Lexeme k text) : text ≠ [] := by
  have hname {text : List Char} (htext : text ∈ names) : text ≠ [] := by
    obtain ⟨c, cs, rfl, -⟩ := mem_names.1 htext
    exact List.cons_ne_nil c cs
  cases h with
  | name htext => exact hname htext
  | keyword hs => exact hname (keyword_mem_names hs)
  | whole htext => exact (mem_wholes.1 htext).1
  | fraction htext =>
    obtain ⟨a, -, b, -, rfl⟩ := mem_fractions.1 htext
    simp
  | string htext =>
    obtain ⟨inside, -, rfl⟩ := mem_strings.1 htext
    exact List.cons_ne_nil _ _
  | @symbol s _ hs =>
    rw [← String.ofList_toList (s := s)] at hs
    intro hnil
    rw [hnil] at hs
    cases mem_symbols.1 hs

/-- A text is one of at most one kind of token. -/
theorem kind_unique (h : Lexeme k text) (h' : Lexeme k' text) : k = k' := by
  obtain ⟨c, cs, rfl⟩ := List.exists_cons_of_ne_nil h.ne_nil
  have hkind {k : Token.Kind} (h : Lexeme k (c :: cs)) : (Piece.first c cs).1.sort = .token k := by
    rcases h.first (List.append_nil (c :: cs)).symm with ⟨k', more, hfirst, hkind⟩ | ⟨hrest, -⟩
    · have hmore : more = [] := by
        have happ := congrArg List.length (Piece.first_append c cs)
        simp only [hfirst, List.length_append] at happ
        exact List.eq_nil_of_length_eq_zero (by omega)
      rw [hfirst, hkind hmore]
    · exact absurd rfl hrest
  exact Piece.Sort.token.inj ((hkind h).symm.trans (hkind h'))

end Lexeme

namespace Piece

variable {c : Char} {cs text : List Char} {k k' : Token.Kind}

/-- No longer lexeme stands where a token stands. -/
theorem first_longest (h : (first c cs).1.sort = .token k) (htext : Lexeme k' text) (hfront : text <+: c :: cs) :
    text.length ≤ (first c cs).1.text.length := by
  obtain ⟨rest, hrest⟩ := hfront
  rcases htext.first hrest.symm with ⟨_, more, hfirst, -⟩ | ⟨-, hcomment⟩
  · rw [hfirst, List.length_append]
    exact Nat.le_add_right _ _
  · rw [h] at hcomment
    exact absurd hcomment (by simp)

/-- No lexeme stands where a stretch begins that is reported because it begins nothing. -/
theorem first_lost (h : (first c cs).1.sort = .stray ∨ (first c cs).1.sort = .openString) (htext : Lexeme k text) :
    ¬ text <+: c :: cs := by
  rintro ⟨rest, hrest⟩
  rcases htext.first hrest.symm with ⟨_, more, hfirst, -⟩ | ⟨-, hcomment⟩
  · rw [hfirst] at h
    exact absurd h (by simp)
  · rcases h with h | h <;> rw [h] at hcomment <;> exact absurd hcomment (by simp)

/-- What a piece is of which a character or an open string is reported. -/
theorem sort_of_lost {piece : Piece} {p : Position} {d : Diagnostic} (hd : d ∈ piece.diagnostics p)
    (hcode : d.code = .invalidCharacter ∨ d.code = .unterminatedString) :
    piece.sort = .stray ∨ piece.sort = .openString := by
  have hescape : ∀ q cs, d ∉ escapeFaults q cs := by
    intro q cs hmem
    rw [escapeFaults_code q cs d hmem] at hcode
    exact absurd hcode (by decide)
  unfold diagnostics at hd
  split at hd
  · cases hd
  · cases hd
  · obtain rfl := List.mem_singleton.1 hd
    exact absurd hcode (by simp [Fault.diagnostic, Fault.code])
  · next hsort => exact .inl hsort
  · next hsort => exact .inr hsort
  · exact absurd hd (hescape _ _)
  · split at hd
    · cases hd
    · obtain rfl := List.mem_singleton.1 hd
      exact absurd hcode (by simp [Fault.diagnostic, Fault.code])

end Piece

end Scriptlet
