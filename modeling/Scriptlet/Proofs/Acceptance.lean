import Scriptlet.Proofs.Acceptance.Stmt
import Scriptlet.Proofs.BareTargets
import Scriptlet.Proofs.EndOfInput
import Scriptlet.Proofs.TextTokens

/-!
# Programs that are read are programs of the grammar

A text that is read without a report is derived by the grammar, with the tree that reading gave: nothing
is skipped, and functions stand at the top only (`Program.accepted_derives`). The grammar in question lets
the name on the left of `=` stand in parentheses. The written one does not, and among the texts that are
read it derives exactly those in which no closing parenthesis comes right before `=`.
-/

namespace Scriptlet

open Grammar Reader

/-- What stops at the end of input has read everything. -/
theorem Reader.Read.all {s s' : State} {ts : List Token} (h : Read s ts s')
    (hrest : ∀ t ∈ s.rest, t.kind ≠ .eof) (hend : s'.peek.kind = .eof ∨ s.rest.length ≤ ts.length) :
    s.rest = ts := by
  have hsplit := h.rest
  match hs' : s'.rest with
  | [] => rw [hsplit, hs', List.append_nil]
  | t :: us =>
    obtain hstop | hall := hend
    · have hpeek : s'.peek = t := by rw [State.peek, hs']; rfl
      exact absurd (hpeek ▸ hstop) (hrest t (by simp [hsplit, hs']))
    · have := congrArg List.length hsplit
      simp only [hs', List.length_append, List.length_cons] at this
      omega

theorem Grammar.Derives.ended {wide : Bool} {tokens : List Token} {p : Program}
    (h : Derives wide .program tokens p) : Token.Ended tokens := by
  cases h with
  | program hitems heof => exact ⟨_, _, rfl, hitems.no_eof nofun, heof⟩

namespace Program

/-- The items read up to the end of input without a report are all the tokens. -/
theorem items_sound {s : State} (heof : s.eof.kind = .eof) (hrest : ∀ t ∈ s.rest, t.kind ≠ .eof)
    (hquiet : (manyUntil (· = .eof) (Stmt.read maxNesting) s).2.diagnostics = s.diagnostics) :
    Derives true .items s.rest (manyUntil (· = .eof) (Stmt.read maxNesting) s).1 := by
  have hrow := many_reads (· = .eof) (Derives true .items)
    (fun s' heof' _ => (Stmt.sound maxNesting s' heof').mono fun _ _ _ _ h => h.1)
    (Stmt.level_read maxNesting) .noItems .moreItems (fun h => h.ne_nil rfl) s.rest.length s heof rfl
  unfold manyUntil at hquiet ⊢
  obtain hn | ⟨ts, hr, hrow, hend⟩ := hrow
  · exact absurd hn (not_noisy_of_eq hquiet)
  · have hall : s.rest = ts := hr.all hrest (hend.imp_left of_decide_eq_true)
    rw [hall] at hrow ⊢
    exact hrow

/-- What is read without a report is a program of the grammar. -/
theorem ofTokens_sound {tokens : List Token} (h : Token.Ended tokens)
    (hquiet : (ofTokens tokens).diagnostics = []) :
    Derives true .program tokens (ofTokens tokens).program := by
  obtain ⟨ts, eof, rfl, hts, heof⟩ := h
  rw [ofTokens_upTo hts heof] at hquiet ⊢
  exact .program (items_sound (s := .upTo ts eof) heof hts (Array.toList_inj.1 hquiet)) heof

/-- A text that is read without a report is a program of the grammar in which the name on the left of `=`
may stand in parentheses, and the tree read is its tree. It is a program of the written grammar if and
only if no closing parenthesis comes right before `=`. -/
theorem accepted_derives (source : String)
    (hquiet : (ofTokens (Tokens.ofText source).tokens).diagnostics = []) :
    Derives true .program (Tokens.ofText source).tokens (ofTokens (Tokens.ofText source).tokens).program ∧
      (BareTargets (Tokens.ofText source).tokens →
        Derives false .program (Tokens.ofText source).tokens
          (ofTokens (Tokens.ofText source).tokens).program) ∧
      ((∃ p, Derives false .program (Tokens.ofText source).tokens p) →
        BareTargets (Tokens.ofText source).tokens) := by
  have h := ofTokens_sound (Tokens.ofText_ended source) hquiet
  exact ⟨h, h.narrow, fun ⟨_, hp⟩ => hp.separate.1⟩

theorem accepted_derives_call :
    let tokens := (Tokens.ofText "func f(a) \x7b return -a; \x7d int b = f(1) * (2);").tokens
    (ofTokens tokens).diagnostics = [] ∧ BareTargets tokens ∧
      Derives false .program tokens (ofTokens tokens).program := by
  have hquiet : (ofTokens
      (Tokens.ofText "func f(a) \x7b return -a; \x7d int b = f(1) * (2);").tokens).diagnostics = [] := by
    decide +kernel
  have hbare : BareTargets
      (Tokens.ofText "func f(a) \x7b return -a; \x7d int b = f(1) * (2);").tokens := by
    decide +kernel
  exact ⟨hquiet, hbare, (accepted_derives _ hquiet).2.1 hbare⟩

/-- Reading accepts a name in parentheses on the left of `=`, which the written grammar does not derive. -/
theorem paren_target_accepted :
    (ofTokens (Tokens.ofText "(a) = 1;").tokens).diagnostics = [] ∧
      ¬ ∃ p, Derives false .program (Tokens.ofText "(a) = 1;").tokens p := by
  have hparen : ¬ BareTargets (Tokens.ofText "(a) = 1;").tokens := by decide +kernel
  refine ⟨by decide +kernel, ?_⟩
  rintro ⟨_, hp⟩
  exact hparen hp.separate.1

end Program

end Scriptlet
