import Scriptlet.Piece
import Scriptlet.Proofs.Lookahead

/-!
# Reading one program after another

What has been read without a report does not depend on what comes after it, and what comes after it is read as if it
stood alone (`Program.ofTokens_append`). All that a reader keeps of the tokens behind it is where the last of them
ended, and a statement uses this only after it has taken a token of its own (`Rebased`).
-/

namespace Scriptlet

namespace Reader

variable {α β : Type} {s : State} {p : Reader α}

/-- The same state after a token that ended elsewhere. -/
def State.endedAt (last : Nat) (s : State) : State := { s with lastStop := last }

/-- To the reader it does not matter where the token before `s` ended: it comes to the same result in the same state,
or it gives up all the same. -/
def Rebased (s : State) (p : Reader α) : Prop :=
  ∀ last, Ends p s (fun a s' => p (s.endedAt last) = .ok a s')
    fun e s' => ∃ last', p (s.endedAt last) = .error e (s'.endedAt last')

namespace Rebased

/-- After a first step that has taken a token, nothing differs. -/
theorem bind (hp : Rebased s p) (f : α → Reader β) : Rebased s (p >>= f) := by
  intro last
  rw [ends_bind]
  refine (hp last).mono ?_ ?_
  · intro a s₁ hsame
    rw [bind_of_ok hsame]
    cases hthen : f a s₁ with
    | ok b s' => exact (ends_of_ok hthen).2 rfl
    | error e s' => exact (ends_of_error hthen).2 ⟨s'.lastStop, rfl⟩
  · rintro e s₁ ⟨last', hsame⟩
    exact ⟨last', bind_of_error hsame⟩

theorem peek_bind {f : Token → Reader β} (h : Rebased s (f s.peek)) : Rebased s (peek >>= f) := h

theorem kind_bind {f : Token.Kind → Reader β} (h : Rebased s (f s.peek.kind)) : Rebased s (kind >>= f) := h

theorem giveUpHere (f : Token → Fault) : Rebased s (giveUpHere f : Reader α) := fun last => ⟨last, rfl⟩

theorem advance (heof : s.eof.kind = .eof) (h : s.peek.kind ≠ .eof) : Rebased s advance := by
  intro last
  cases hrest : s.rest with
  | nil =>
    rw [State.peek, hrest] at h
    exact absurd heof h
  | cons t ts =>
    rw [peek_cons hrest] at h
    show EStateM.Result.ok _ _ = _
    rw [advance_cons hrest h, advance_cons (s := s.endedAt last) hrest h]
    rfl

theorem expect {k : Token.Kind} (f : Token → Fault) (heof : s.eof.kind = .eof) (hk : k ≠ .eof) :
    Rebased s (expect k f) := by
  intro last
  rw [ends_expect]
  split
  · next hpeek =>
    rw [expect_next (s := s.endedAt last) hpeek]
    exact advance heof (hpeek ▸ hk) last
  · next hpeek =>
    exact ⟨last, expect_missing (s := s.endedAt last) hpeek⟩

theorem nested (h : Rebased { s with depth := s.depth + 1 } p) : Rebased s (nested p) := by
  intro last
  rw [ends_nested]
  split
  · next hdeep => exact ⟨last, nested_refused (s := s.endedAt last) hdeep p⟩
  · next hdeep =>
    refine (h last).mono ?_ ?_
    · exact fun a s₁ hsame => nested_of_ok (s := s.endedAt last) hdeep hsame
    · rintro e s₁ ⟨last', hsame⟩
      exact ⟨last', nested_of_error (s := s.endedAt last) hdeep hsame⟩

end Rebased

/-! ### Recovery and repetition -/

theorem advance_endedAt (last : Nat) (s : State) : ∃ last', (s.endedAt last).advance = s.advance.endedAt last' := by
  cases hrest : s.rest with
  | nil => exact ⟨last, by rw [advance_nil hrest, advance_nil (s := s.endedAt last) hrest]⟩
  | cons t ts =>
    by_cases ht : t.kind = .eof
    · exact ⟨last, by rw [advance_at_end hrest ht, advance_at_end (s := s.endedAt last) hrest ht]⟩
    · exact ⟨t.span.stop, by rw [advance_cons hrest ht, advance_cons (s := s.endedAt last) hrest ht]; rfl⟩

theorem skipTo_rest (last last' : Nat) (ts : List Token) : (State.skipTo last ts).1 = (State.skipTo last' ts).1 := by
  cases ts with
  | nil => rfl
  | cons t ts =>
    unfold State.skipTo
    split
    · rfl
    · rfl

theorem synchronize_endedAt (last : Nat) (s : State) :
    ∃ last', (s.endedAt last).synchronize = s.synchronize.endedAt last' := by
  refine ⟨(State.skipTo last s.rest).2, ?_⟩
  show State.mk (State.skipTo last s.rest).1 _ _ _ _ = State.mk (State.skipTo s.lastStop s.rest).1 _ _ _ _
  rw [skipTo_rest last s.lastStop]
  rfl

theorem recovering_endedAt (hp : Rebased s p) (last : Nat) :
    ∃ last', recovering p (s.endedAt last) = ((recovering p s).1, (recovering p s).2.endedAt last') := by
  cases hend : p s with
  | ok a s₁ =>
    have hsame := (ends_of_ok hend).1 (hp last)
    rw [recovering_ok hend, recovering_ok hsame]
    exact ⟨s₁.lastStop, rfl⟩
  | error e s₁ =>
    obtain ⟨last₁, hsame⟩ := (ends_of_error hend).1 (hp last)
    obtain ⟨last₂, hskip⟩ := synchronize_endedAt last₁ s₁
    obtain ⟨last₃, hnext⟩ := advance_endedAt last₂ s₁.synchronize
    rw [recovering_error hend, recovering_error hsame, hskip, hnext]
    show ∃ last', (none, if s₁.synchronize.rest.length = s.rest.length then _ else _) = _
    split
    · exact ⟨last₃, rfl⟩
    · exact ⟨last₂, rfl⟩

/-- Statements are read alike, wherever the token before them ended. -/
theorem many_endedAt (hp : ∀ s : State, s.eof.kind = .eof → Rebased s p) (hstep : Stepwise p)
    (stop : Token.Kind → Bool) (most last : Nat) (heof : s.eof.kind = .eof) :
    ∃ last', many stop p most (s.endedAt last) = ((many stop p most s).1, (many stop p most s).2.endedAt last') := by
  induction most generalizing s last with
  | zero => exact ⟨last, rfl⟩
  | succ most ih =>
    by_cases hend : stop s.peek.kind
    · rw [many_stopped hend, many_stopped (s := s.endedAt last) hend]
      exact ⟨last, rfl⟩
    · obtain ⟨last₁, hfirst⟩ := recovering_endedAt (hp s heof) last
      have hmoves := Maintains.recovering (stable_moves s) (hstep _ (stable_moves s)) ⟨[], .refl s⟩
      obtain ⟨ts, hts⟩ := hmoves
      obtain ⟨last₂, hothers⟩ := ih last₁ (hts.eof ▸ heof)
      refine ⟨last₂, ?_⟩
      rw [many, many, if_neg hend, if_neg (show ¬ stop (s.endedAt last).peek.kind from hend), hfirst]
      dsimp only
      rw [hothers]

end Reader

open Reader

variable {s : Reader.State}

/-! ### The first token of a statement -/

namespace Expr

theorem readPrimary_rebased (n : Nat) (heof : s.eof.kind = .eof) : Rebased s (readPrimary n) := by
  rw [readPrimary]
  refine .peek_bind ?_
  split
  · next value hvalue => exact (Rebased.advance heof (Literal.kind_ne_eof hvalue)).bind _
  · split
    · next hpeek => exact (Rebased.advance heof (by simp [hpeek])).bind _
    · split
      · next hpeek => exact (Rebased.advance heof (by simp [hpeek])).bind _
      · exact .giveUpHere _

theorem readUnary_rebased (n : Nat) (heof : s.eof.kind = .eof) : Rebased s (readUnary n) := by
  rw [readUnary.eq_def]
  refine .kind_bind ?_
  split
  · rw [readCall]
    exact (readPrimary_rebased n heof).bind _
  · next op hop => exact (Rebased.advance heof (UnaryOp.kind_ne_eof hop)).bind _

theorem readAssignment_rebased (n : Nat) (heof : s.eof.kind = .eof) : Rebased s (readAssignment n) := by
  rw [readAssignment, readBinary]
  exact ((readUnary_rebased n heof).bind _).bind _

theorem read_rebased (n : Nat) (heof : s.eof.kind = .eof) : Rebased s (read n) := by
  cases n with
  | zero =>
    rw [read]
    exact .giveUpHere _
  | succ n =>
    rw [read]
    exact .nested (readAssignment_rebased n heof)

end Expr

namespace Stmt

theorem readInner_rebased (n : Nat) (heof : s.eof.kind = .eof) : Rebased s (readInner n) := by
  rw [readInner]
  refine .peek_bind (.kind_bind ?_)
  split <;> rename_i hkind
  case h_14 => exact .giveUpHere _
  case h_15 => exact (Expr.read_rebased n heof).bind _
  case h_9 => exact ((Rebased.expect _ heof (by decide)).bind _).bind _
  -- every other statement has a token of its own in front
  all_goals have hfirst : Rebased s advance := .advance heof (by simp [hkind])
  case h_7 =>
    rw [readBranch]
    exact hfirst.bind _
  all_goals exact hfirst.bind _

theorem read_rebased (n : Nat) (heof : s.eof.kind = .eof) : Rebased s (read n) := by
  cases n with
  | zero =>
    rw [read]
    exact .giveUpHere _
  | succ n =>
    rw [read]
    exact .nested (readInner_rebased n heof)

end Stmt

namespace Reader.State

theorem missingEnd_append (front : List Token) {back : List Token} (h : back ≠ []) :
    missingEnd (front ++ back) = missingEnd back := by
  rw [missingEnd, missingEnd, List.getLast?_append_of_ne_nil front h]

theorem ofTokens_ahead (front : List Token) {back : List Token} (h : back ≠ []) :
    ofTokens (front ++ back) =
      ((ofTokens front).ahead back (missingEnd back)).endedAt (ofTokens (front ++ back)).lastStop := by
  simp only [ofTokens, ahead, endedAt, missingEnd_append front h]

end Reader.State

namespace Program

/-- A program is the same, wherever the token before it ended. -/
theorem ofState_endedAt (heof : s.eof.kind = .eof) (last : Nat) : ofState (s.endedAt last) = ofState s := by
  obtain ⟨last', hrun⟩ := many_endedAt (fun _ => Stmt.read_rebased maxNesting)
    (Stmt.read_progressive maxNesting).stepwise (· = .eof) s.rest.length last heof
  change manyUntil _ _ (s.endedAt last) = ((manyUntil _ _ s).1, (manyUntil _ _ s).2.endedAt last') at hrun
  unfold ofState
  rw [hrun]
  rfl

/-- Where reading stops, if nothing has been reported: at the end, and at the top level. -/
theorem stop_of_quiet {tokens : List Token} (htokens : ∀ t ∈ tokens, t.kind ≠ .eof)
    (hquiet : (ofTokens tokens).diagnostics = []) {items : List Stmt} {stop : Reader.State}
    (hrun : manyUntil (· = .eof) (Stmt.read maxNesting) (.ofTokens tokens) = (items, stop)) :
    stop.rest = [] ∧ stop.depth = 0 ∧ stop.diagnostics = #[] := by
  have hprogress := Stmt.read_progressive maxNesting
  have hstart : Plain (.ofTokens tokens) := ⟨htokens, State.missingEnd_kind tokens⟩
  have hlast : Plain stop := hprogress.stepwise.manyUntil stable_plain hrun hstart
  have hend := hprogress.manyUntil_stops (· = .eof) rfl hstart.eof
  have hdepth := many_depth (· = .eof) (Stmt.level_read maxNesting) tokens.length (.ofTokens tokens)
  have hreports : (manyUntil (· = .eof) (Stmt.read maxNesting) (.ofTokens tokens)).2.diagnostics.toList = [] := hquiet
  change (manyUntil (· = .eof) (Stmt.read maxNesting) (.ofTokens tokens)).2.depth = 0 at hdepth
  rw [hrun] at hend hdepth hreports
  exact ⟨hlast.rest_eq_nil (of_decide_eq_true hend), hdepth, Array.toList_inj.1 hreports⟩

/-- Tokens that are read without a report, and then others that do not begin with `else`: the statements are those of
the first and then those of the others, with their spans, and the faults are those of the others. -/
theorem ofTokens_append {front back : List Token} (hfront : ∀ t ∈ front, t.kind ≠ .eof)
    (hquiet : (ofTokens front).diagnostics = []) (helse : ∀ t ∈ back.head?, t.kind ≠ .elseWord) :
    (ofTokens (front ++ back)).program.items = (ofTokens front).program.items ++ (ofTokens back).program.items ∧
      (ofTokens (front ++ back)).diagnostics = (ofTokens back).diagnostics := by
  by_cases hback : back = []
  · rw [hback, List.append_nil]
    exact ⟨(List.append_nil _).symm, hquiet⟩
  have heof := State.missingEnd_kind back
  have hhead : (back.headD (State.missingEnd back)).kind ≠ .elseWord := by
    cases back with
    | nil => exact absurd rfl hback
    | cons t ts => exact helse t rfl
  have hplain : Plain (.ofTokens front) := ⟨hfront, State.missingEnd_kind front⟩
  cases hrun : manyUntil (· = .eof) (Stmt.read maxNesting) (.ofTokens front) with
  | mk items stop =>
    obtain ⟨hrest, hdepth, hreports⟩ := stop_of_quiet hfront hquiet hrun
    have hitems : (ofTokens front).program.items = items := congrArg Prod.fst hrun
    -- the others are read from where the first stop, and only where the last token ended tells that they are not alone
    have hstop : stop.ahead back (State.missingEnd back) = (State.ofTokens back).endedAt stop.lastStop := by
      rw [State.ahead, hrest, hdepth, hreports]
      rfl
    have hgoesOn := many_ahead (Stmt.read_ending heof hhead maxNesting) (Stmt.read_progressive maxNesting)
      (Stmt.read_loud maxNesting) heof (by decide) hplain hrun hreports le_rfl le_rfl le_rfl
    rw [hstop] at hgoesOn
    have hothers : ofState ((State.ofTokens back).endedAt stop.lastStop) = ofTokens back :=
      ofState_endedAt heof stop.lastStop
    have hall : ofTokens (front ++ back) = ofState ((State.ofTokens front).ahead back (State.missingEnd back)) := by
      rw [ofTokens, State.ofTokens_ahead front hback, ofState_endedAt heof]
    rw [hall, ← hothers, hitems]
    exact ⟨congrArg Prod.fst hgoesOn, congrArg (·.2.diagnostics.toList) hgoesOn⟩

/-- The tokens of a text, without the end of input. -/
def tokensOf (source : String) : List Token := (Tokens.ofText source).tokens.dropLast

/-- A branch that could still be followed by `else`, and behind it a brace that nothing opened and a declaration that
breaks off. -/
theorem ofTokens_append_brokenOff :
    (ofTokens (tokensOf "if (a) b;" ++ tokensOf "\x7d c; let d = ")).program.items =
        (ofTokens (tokensOf "if (a) b;")).program.items ++ (ofTokens (tokensOf "\x7d c; let d = ")).program.items ∧
      (ofTokens (tokensOf "if (a) b;" ++ tokensOf "\x7d c; let d = ")).diagnostics.map (·.code) =
        [.unmatchedDelimiter, .expectedExpression] := by
  have hfront : ∀ t ∈ tokensOf "if (a) b;", t.kind ≠ .eof := by decide +kernel
  have hhead : ∀ t ∈ (tokensOf "\x7d c; let d = ").head?, t.kind ≠ .elseWord := by decide +kernel
  have hquiet : (ofTokens (tokensOf "if (a) b;")).diagnostics = [] := by decide +kernel
  have hcodes : (ofTokens (tokensOf "\x7d c; let d = ")).diagnostics.map (·.code) =
      [.unmatchedDelimiter, .expectedExpression] := by decide +kernel
  obtain ⟨hitems, hreports⟩ := ofTokens_append hfront hquiet hhead
  exact ⟨hitems, by rw [hreports, hcodes]⟩

-- an `else` becomes a part of the branch before it, and what follows it is no statement of its own
example : (ofTokens (tokensOf "if (a) b;" ++ tokensOf "else c;")).program.items.length = 1 := by decide +kernel

end Program

end Scriptlet
