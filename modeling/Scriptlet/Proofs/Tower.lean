import Scriptlet.Proofs.Acceptance
import Scriptlet.Proofs.Nesting

/-!
# A tree as tall as can be

The bound on the height of a tree cannot be improved: `Tower.text 63` is read without a report and reaches
it (`Program.height_exact`). It repeats one pattern, a sign in front of calls in front of a sum: the calls
use up all levels there are, the sign gives them back, and the sum uses them again.

`Builds p ts rest d d' h` follows a reader through tokens that are known, with the levels of nesting before
and after it and the height of what it builds.
-/

namespace Scriptlet

open Reader

namespace Tower

def token (k : Token.Kind) : Token := ⟨k, "x", default⟩

def name : Expr := .ident ⟨"x", default⟩

/-- The tokens `()`, so many times. -/
def calls : Nat → List Token
  | 0 => []
  | k + 1 => token .lparen :: token .rparen :: calls k

/-- The tokens `+ x`, so many times. -/
def sums : Nat → List Token
  | 0 => []
  | k + 1 => token .plus :: token .ident :: sums k

/-- An expression for `2 * k + 1` levels: a sign, as many calls of the next smaller expression as there are
levels, and a sum with as many operators, for which the levels that the calls took are there again. -/
def tokens : Nat → List Token
  | 0 => [token .ident]
  | k + 1 => token .minus :: token .lparen ::
      (tokens k ++ token .rparen :: (calls (2 * k + 1) ++ sums (2 * k + 2)))

section

variable {eof : Token} {rest : List Token} {n d stop : Nat} {ds : Array Diagnostic} {s : State}
  {ok : Expr → State → Prop} {bad : GaveUp → State → Prop}

theorem ends_noCall (callee : Expr) (h : s.peek.kind ≠ .lparen) :
    Ends (Expr.readCallRest n callee) s ok bad ↔ ok callee s := by
  rw [Expr.readCallRest, ends_bind, ends_at, decide_eq_false h]
  rfl

theorem ends_noOperator {least : Nat} (lhs : Expr)
    (h : ∀ op, BinaryOp.ofKind? s.peek.kind = some op → op.level < least) :
    Ends (Expr.readBinaryRest n least lhs) s ok bad ↔ ok lhs s := by
  rw [Expr.readBinaryRest, ends_bind, ends_kind]
  split
  · rfl
  · next op hop => rw [if_pos (h op hop), ends_pure]

theorem ends_name (h : (rest.headD eof).kind ≠ .lparen) :
    Ends (Expr.readUnary n) ⟨token .ident :: rest, eof, stop, d, ds⟩ ok bad ↔
      ok name ⟨rest, eof, (default : Span).stop, d, ds⟩ := by
  rw [Expr.readUnary.eq_def, Expr.readCall, Expr.readPrimary]
  simp only [ends_bind, ends_kind, State.peek, token, List.headD_cons, UnaryOp.ofKind?, ends_peek,
    Literal.ofToken?, if_true, ends_advance, ends_pure, State.advance, reduceCtorEq, if_false]
  exact ends_noCall _ h

theorem ends_call (callee : Expr) (hd : d < maxNesting) :
    Ends (Expr.readCallRest (n + 1) callee)
        ⟨token .lparen :: token .rparen :: rest, eof, stop, d, ds⟩ ok bad ↔
      Ends (Expr.readCallRest n (.call callee [] (callee.span.join default)))
        ⟨rest, eof, (default : Span).stop, d + 1, ds⟩ ok bad := by
  conv_lhs => rw [Expr.readCallRest]
  simp [State.peek, token, Nat.not_le.2 hd, State.advance, commaListUntilParen]

theorem ends_sum (lhs : Expr) (hd : d < maxNesting) (hcall : (rest.headD eof).kind ≠ .lparen)
    (hop : ∀ op, BinaryOp.ofKind? (rest.headD eof).kind = some op → op.level < 6) :
    Ends (Expr.readBinaryRest (n + 1) 1 lhs)
        ⟨token .plus :: token .ident :: rest, eof, stop, d, ds⟩ ok bad ↔
      Ends (Expr.readBinaryRest n 1 (.binary .add lhs name (lhs.span.join default)))
        ⟨rest, eof, (default : Span).stop, d + 1, ds⟩ ok bad := by
  conv_lhs => rw [Expr.readBinaryRest]
  simp only [ends_bind, ends_kind, State.peek, token, List.headD_cons, BinaryOp.ofKind?, BinaryOp.level,
    ends_advance, ends_deepen, Expr.readBinary, State.advance, Nat.not_le.2 hd, if_false, Nat.reduceLT,
    Nat.reduceAdd, reduceCtorEq]
  exact (ends_name hcall).trans (ends_noOperator name hop)

end

/-- The reader reads `ts` in front of `rest`, from the level `d` to the level `d'`, without giving up, and
its result is of height `h`. -/
def Builds (p : Reader Expr) (ts rest : List Token) (d d' h : Nat) : Prop :=
  ∀ eof stop ds, Ends p ⟨ts ++ rest, eof, stop, d, ds⟩
    (fun e s' => e.height = h ∧ ∃ stop', s' = ⟨rest, eof, stop', d', ds⟩) fun _ _ => False

/-- A token that does not go on with the expression before it. -/
structure Closes (t : Token) : Prop where
  noCall : t.kind ≠ .lparen
  noAssign : t.kind ≠ .equal
  noOperator : BinaryOp.ofKind? t.kind = none

namespace Builds

variable {t : Token} {ts rest us : List Token} {n d d' h : Nat}

theorem rest_calls (k : Nat) (hn : k ≤ n) (callee : Expr) (ht : t.kind ≠ .lparen)
    (hd : d + k ≤ maxNesting) :
    Builds (Expr.readCallRest n callee) (calls k) (t :: us) d (d + k) (callee.height + k) := by
  intro eof stop ds
  induction k generalizing n callee d stop with
  | zero => exact (ends_noCall (s := ⟨t :: us, eof, stop, d, ds⟩) callee ht).2 ⟨rfl, stop, rfl⟩
  | succ k ih =>
    obtain ⟨m, rfl⟩ : ∃ m, n = m + 1 := ⟨n - 1, by omega⟩
    have hrest := ih (show k ≤ m by omega) (.call callee [] (callee.span.join default))
      (show d + 1 + k ≤ maxNesting by omega) (default : Span).stop
    refine (ends_call callee (by omega)).2 (Ends.mono_ok hrest ?_)
    rintro e _ ⟨he, stop', rfl⟩
    refine ⟨?_, stop', by rw [Nat.add_right_comm, Nat.add_assoc]⟩
    rw [he]
    simp only [Expr.height, Expr.heightAll]
    omega

theorem rest_sums (k : Nat) (hn : k ≤ n) (lhs : Expr) (hlhs : 1 ≤ lhs.height) (ht : Closes t)
    (hd : d + k ≤ maxNesting) :
    Builds (Expr.readBinaryRest n 1 lhs) (sums k) (t :: us) d (d + k) (lhs.height + k) := by
  have hstop {least : Nat} (op : BinaryOp) (hop : BinaryOp.ofKind? t.kind = some op) : op.level < least := by
    cases ht.noOperator.symm.trans hop
  intro eof stop ds
  induction k generalizing n lhs d stop with
  | zero => exact (ends_noOperator (s := ⟨t :: us, eof, stop, d, ds⟩) lhs hstop).2 ⟨rfl, stop, rfl⟩
  | succ k ih =>
    obtain ⟨m, rfl⟩ : ∃ m, n = m + 1 := ⟨n - 1, by omega⟩
    have hheight : (Expr.binary .add lhs name (lhs.span.join default)).height = lhs.height + 1 := by
      simp only [Expr.height, name]
      omega
    have hrest := ih (show k ≤ m by omega) (.binary .add lhs name (lhs.span.join default)) (by omega)
      (show d + 1 + k ≤ maxNesting by omega) (default : Span).stop
    refine (ends_sum lhs (by omega) ?_ ?_).2 (Ends.mono_ok hrest ?_)
    · cases k with
      | zero => exact ht.noCall
      | succ k => nofun
    · cases k with
      | zero => exact hstop
      | succ k =>
        intro op hop
        cases hop
        decide
    · rintro e _ ⟨he, stop', rfl⟩
      exact ⟨by omega, stop', by rw [Nat.add_right_comm, Nat.add_assoc]⟩

/-- Calls of an expression in parentheses. -/
theorem calls (k : Nat) (hn : k ≤ n)
    (hp : Builds (Expr.read n) ts (token .rparen :: (calls k ++ t :: us)) d d h) (ht : t.kind ≠ .lparen)
    (hd : d + k ≤ maxNesting) :
    Builds (Expr.readUnary n) (token .lparen :: (ts ++ token .rparen :: Tower.calls k)) (t :: us) d (d + k)
      (h + k) := by
  intro eof stop ds
  rw [Expr.readUnary.eq_def, Expr.readCall, Expr.readPrimary, List.cons_append, List.append_assoc,
    List.cons_append]
  simp only [ends_bind, ends_kind, ends_peek, State.peek, List.headD_cons, token, UnaryOp.ofKind?,
    Literal.ofToken?, ends_advance, State.advance, reduceCtorEq, if_false, if_true]
  refine Ends.mono_ok (hp eof (default : Span).stop ds) ?_
  rintro e _ ⟨rfl, stop', rfl⟩
  exact rest_calls k hn e ht hd eof (default : Span).stop ds

theorem sign (hp : Builds (Expr.readUnary n) ts rest (d + 1) d' h) (hd : d < maxNesting) :
    Builds (Expr.readUnary (n + 1)) (token .minus :: ts) rest d d (h + 1) := by
  intro eof stop ds
  rw [Expr.readUnary.eq_def, List.cons_append]
  simp only [ends_bind, ends_kind, State.peek, List.headD_cons, token, UnaryOp.ofKind?, ends_advance,
    State.advance, ends_nested, Nat.not_le.2 hd, reduceCtorEq, if_false]
  refine Ends.mono_ok (hp eof (default : Span).stop ds) ?_
  rintro e _ ⟨rfl, stop', rfl⟩
  exact ⟨by simp only [Expr.height]; omega, stop', rfl⟩

theorem sums (k : Nat) (hn : k ≤ n) (hp : Builds (Expr.readUnary n) ts (sums k ++ t :: us) d d h) (hh : 1 ≤ h)
    (ht : Closes t) (hd : d + k ≤ maxNesting) :
    Builds (Expr.readBinary n 1) (ts ++ Tower.sums k) (t :: us) d (d + k) (h + k) := by
  intro eof stop ds
  rw [Expr.readBinary, ends_bind, List.append_assoc]
  refine Ends.mono_ok (hp eof stop ds) ?_
  rintro e _ ⟨rfl, stop', rfl⟩
  exact rest_sums k hn e hh ht hd eof stop' ds

theorem read (hp : Builds (Expr.readBinary n 1) ts (t :: us) (d + 1) d' h) (ht : Closes t)
    (hd : d < maxNesting) : Builds (Expr.read (n + 1)) ts (t :: us) d d h := by
  intro eof stop ds
  rw [Expr.read, ends_nested, if_neg (show ¬ maxNesting ≤ d by omega), Expr.readAssignment, ends_bind]
  refine Ends.mono_ok (hp eof stop ds) ?_
  rintro e _ ⟨he, stop', rfl⟩
  rw [ends_bind, ends_at, decide_eq_false (show (State.peek ⟨t :: us, _, _, _, _⟩).kind ≠ .equal from ht.noAssign)]
  exact ⟨he, stop', rfl⟩

end Builds

theorem builds_tokens (k : Nat) {n d : Nat} {t : Token} {us : List Token} (hn : 2 * k + 1 ≤ n) (ht : Closes t)
    (hd : d + (2 * k + 1) ≤ maxNesting) :
    Builds (Expr.read n) (tokens k) (t :: us) d d (2 * k * (k + 1) + 1) := by
  induction k generalizing n d t us with
  | zero =>
    obtain ⟨m, rfl⟩ : ∃ m, n = m + 1 := ⟨n - 1, by omega⟩
    have hname : Builds (Expr.readUnary m) [token .ident] (sums 0 ++ t :: us) (d + 1) (d + 1) 1 := by
      intro eof stop ds
      refine (ends_name ?_).2 ⟨by simp only [name, Expr.height], _, rfl⟩
      exact ht.noCall
    exact (hname.sums 0 (Nat.zero_le m) (Nat.le_refl 1) ht (by omega)).read ht (by omega)
  | succ k ih =>
    obtain ⟨m, rfl⟩ : ∃ m, n = m + 1 + 1 := ⟨n - 2, by omega⟩
    have hclose : Closes (token .rparen) := ⟨nofun, nofun, rfl⟩
    have hinner : Builds (Expr.read m) (tokens k)
        (token .rparen :: (calls (2 * k + 1) ++ (sums (2 * k + 2) ++ t :: us))) (d + 1 + 1) (d + 1 + 1)
        (2 * k * (k + 1) + 1) :=
      ih (by omega) hclose (by omega)
    have hunary := (hinner.calls (2 * k + 1) (by omega) nofun (by omega)).sign (by omega)
    have hread := (hunary.sums (2 * k + 2) (by omega) (by omega) ht (by omega)).read ht (by omega)
    have hheight : 2 * (k + 1) * (k + 1 + 1) + 1 =
        2 * k * (k + 1) + 1 + (2 * k + 1) + 1 + (2 * k + 2) := by ring
    rw [hheight]
    simpa [tokens] using hread

/-- The program with that expression as its only statement. -/
def text (k : Nat) : List Token := tokens k ++ [token .semicolon]

theorem no_eof (k : Nat) : ∀ t ∈ text k, t.kind ≠ .eof := by
  have hcalls (k : Nat) : ∀ t ∈ calls k, t.kind ≠ .eof := by
    induction k with
    | zero => exact List.forall_mem_nil _
    | succ k ih => simpa [calls, token] using ih
  have hsums (k : Nat) : ∀ t ∈ sums k, t.kind ≠ .eof := by
    induction k with
    | zero => exact List.forall_mem_nil _
    | succ k ih => simpa [sums, token] using ih
  have htokens (k : Nat) : ∀ t ∈ tokens k, t.kind ≠ .eof := by
    induction k with
    | zero => simp [tokens, token]
    | succ k ih =>
      simp only [tokens, List.forall_mem_cons, List.forall_mem_append]
      exact ⟨by simp [token], by simp [token], ih, by simp [token], hcalls _, hsums _⟩
  exact List.forall_mem_append.2 ⟨htokens k, by simp [token]⟩

theorem read_text {k n : Nat} (hn : 2 * k + 2 ≤ n) (hd : 2 * k + 2 ≤ maxNesting) (eof : Token) (stop : Nat) :
    ∃ stmt stop', stmt.height = 2 * k * (k + 1) + 2 ∧
      Stmt.read n ⟨text k, eof, stop, 0, #[]⟩ = .ok stmt ⟨[], eof, stop', 0, #[]⟩ := by
  obtain ⟨m, rfl⟩ : ∃ m, n = m + 1 := ⟨n - 1, by omega⟩
  have hexpr : Builds (Expr.read m) (tokens k) [token .semicolon] 1 1 (2 * k * (k + 1) + 1) :=
    builds_tokens k (by omega) ⟨nofun, nofun, rfl⟩ (by omega)
  have hstmt (start : Span) : Ends (Stmt.readExpr m start) ⟨text k, eof, stop, 1, #[]⟩
      (fun s s' => s.height = 2 * k * (k + 1) + 2 ∧
        ∃ stop', { s' with depth := 0 } = (⟨[], eof, stop', 0, #[]⟩ : State)) fun _ _ => False := by
    unfold Stmt.readExpr
    rw [ends_bind]
    refine Ends.mono_ok (hexpr eof stop #[]) ?_
    rintro e _ ⟨he, stop', rfl⟩
    simp only [ends_bind, ends_expectSemicolon, State.peek, List.headD_cons, token, if_true, State.advance,
      reduceCtorEq, if_false, ends_get, ends_pure, Stmt.height]
    exact ⟨by omega, _, rfl⟩
  have hread : Ends (Stmt.read (m + 1)) ⟨text k, eof, stop, 0, #[]⟩
      (fun s s' => s.height = 2 * k * (k + 1) + 2 ∧ ∃ stop', s' = ⟨[], eof, stop', 0, #[]⟩)
      fun _ _ => False := by
    rw [Stmt.read, ends_nested, if_neg (show ¬ maxNesting ≤ 0 by decide), Stmt.readInner, ends_bind, ends_peek,
      ends_bind, ends_kind]
    cases k with
    | zero => exact hstmt _
    | succ k => exact hstmt _
  unfold Ends at hread
  split at hread
  · next stmt s' hok =>
    rcases hread with ⟨hheight, stop', rfl⟩
    exact ⟨stmt, stop', hheight, hok⟩
  · exact hread.elim

/-- The program is read without a report, and is as tall as that. -/
theorem ofTokens_text {k : Nat} (hd : 2 * k + 2 ≤ maxNesting) {eof : Token} (heof : eof.kind = .eof) :
    (Program.ofTokens (text k ++ [eof])).diagnostics = [] ∧
      (Program.ofTokens (text k ++ [eof])).program.height = 2 * k * (k + 1) + 2 := by
  obtain ⟨stop, hstart⟩ : ∃ stop, State.upTo (text k) eof = ⟨text k, eof, stop, 0, #[]⟩ := ⟨_, rfl⟩
  obtain ⟨stmt, stop', hheight, hread⟩ := read_text hd hd eof stop
  have hmany : manyUntil (· = .eof) (Stmt.read maxNesting) ⟨text k, eof, stop, 0, #[]⟩ =
      ([stmt], ⟨[], eof, stop', 0, #[]⟩) := by
    obtain ⟨more, hmore⟩ : ∃ more, (text k).length = more + 1 := ⟨(tokens k).length, by simp [text]⟩
    have hgo : (State.peek ⟨text k, eof, stop, 0, #[]⟩).kind ≠ .eof := by
      cases k <;> nofun
    have hend : many (· = .eof) (Stmt.read maxNesting) more ⟨[], eof, stop', 0, #[]⟩ =
        ([], ⟨[], eof, stop', 0, #[]⟩) :=
      many_stopped (by simpa [State.peek] using heof) more
    unfold manyUntil
    rw [hmore, many, if_neg (by simpa using hgo)]
    simp only [recovering, hread, hend]
    rfl
  simp only [Program.ofTokens_upTo (no_eof k) heof, Program.ofState, hstart, hmany, Program.height,
    Stmt.heightAll, hheight]
  exact ⟨trivial, by omega⟩

end Tower

namespace Program

/-- The height of a tree is bounded by half the square of the levels of nesting, not by their number, and
the bound is attained. -/
theorem height_exact (tokens : List Token) :
    (ofTokens tokens).program.height ≤ (maxNesting - 1) ^ 2 / 2 + 2 ∧
      ∃ tallest, (ofTokens tallest).diagnostics = [] ∧
        (ofTokens tallest).program.height = (maxNesting - 1) ^ 2 / 2 + 2 :=
  ⟨height_le tokens, Tower.text 63 ++ [Token.endAt .start],
    Tower.ofTokens_text (show 2 * 63 + 2 ≤ maxNesting by decide) rfl⟩

set_option maxRecDepth 100000 in
/-- A tree with more nodes on the way to a leaf than there are levels of nesting: the levels of the signs
are given back before the sum is read. -/
theorem signs_too_tall :
    let source := "print(" ++ String.ofList (List.replicate 126 '-') ++ "x + 1);"
    (ofTokens (Tokens.ofText source).tokens).diagnostics = [] ∧
      maxNesting < (ofTokens (Tokens.ofText source).tokens).program.height := by
  decide +kernel

end Program

end Scriptlet
