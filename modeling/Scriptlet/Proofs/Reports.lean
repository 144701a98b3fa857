import Mathlib.Data.List.Forall2
import Scriptlet.Piece
import Scriptlet.Proofs.Acceptance.Stmt
import Scriptlet.Proofs.EndOfInput
import Scriptlet.Proofs.StepClosed

/-!
# Each fault is reported once

Three things that happen while tokens are read call for a report: a statement is discarded, a block is left open at
the end of input, a function is declared inside a statement. `Program.events` lists them in the order in which they
happen, and the diagnostics are, one by one, the reports of these events (`Program.reports_accounted`).

An event is found by following the readers from state to state. A reader that gives up has reported what happened
while it ran and then one fault of its own, as if the statement had been discarded there (`Accounts`); readers of
expressions report nothing else (`Calm`).
-/

namespace Scriptlet

namespace Reader

/-! ### Events -/

/-- What happens while statements are read that calls for a report. -/
inductive Event where
  /-- a statement was given up, and tokens were passed over up to the next boundary -/
  | discarded
  /-- the end of input came before the end of the block that `brace` opens -/
  | leftOpen (brace : Span)
  /-- a function named at `name` was read inside another statement -/
  | nestedFunction (name : Span)
deriving DecidableEq, Repr

/-- The diagnostic reports the event. -/
def Event.Reported : Event → Diagnostic → Prop
  | .discarded, d => ∃ (f : Fault) (span : Span), f.fatal ∧ d = f.diagnostic span
  | .leftOpen brace, d => d = Fault.unclosedBrace.diagnostic brace
  | .nestedFunction name, d => d = Fault.nestedFunction.diagnostic name

/-- The brace of a block that was left open. -/
def Event.brace? : Event → Option Span
  | .leftOpen brace => some brace
  | _ => none

/-- The name of a function inside another statement. -/
def Event.functionName? : Event → Option Span
  | .nestedFunction name => some name
  | _ => none

variable {α : Type}

/-- What happens after `p`, if it succeeds. -/
def after (p : Reader α) (events : α → State → List Event) (s : State) : List Event :=
  match p s with
  | .ok a s' => events a s'
  | .error _ _ => []

/-- What happens while `p`, during which `events` happen, is run with recovery until a token of a kind in `stop`
comes. -/
def manyEvents (stop : Token.Kind → Bool) (p : Reader α) (events : State → List Event) : Nat → State → List Event
  | 0, _ => []
  | most + 1, s =>
    if stop s.peek.kind then []
    else
      let (found, after) := recovering p s
      events s ++ (if found.isNone then [.discarded] else []) ++ manyEvents stop p events most after

end Reader

namespace Stmt

open Reader

/-- What happens while a block of statements is read. -/
def blockEvents (stmt : Reader Stmt) (events : State → List Event) : State → List Event :=
  after (expect .lbrace (.unexpected "'\x7b'")) fun opening s =>
    manyEvents endsBlock stmt events s.rest.length s ++
      if (manyUntil endsBlock stmt s).2.peek.kind = .eof then [.leftOpen opening.span] else []

/-- What happens while a function is read, at the top level of the program or not. -/
def functionEvents (top : Bool) (stmt : Reader Stmt) (events : State → List Event) : State → List Event :=
  after advance fun _ =>
  after (Ident.read "a function name") fun name =>
  after (expect .lparen (.unexpected "'(' after function name")) fun opening =>
  after (commaListUntilParen Param.read) fun _ =>
  after (expectClosing opening) fun _ s =>
    blockEvents stmt events s ++
      after (readBlock stmt) (fun _ _ => if top then [] else [.nestedFunction name.span]) s

/-- What happens while a statement is read that begins with the next token; `below` happens while the statements
in it are read. -/
def innerEvents (top : Bool) (n : Nat) (below : State → List Event) (s : State) : List Event :=
  match s.peek.kind with
  | .funcWord => functionEvents top (read n) below s
  | .ifWord =>
    after advance (fun _ =>
    after (readCondition n "if") fun _ s =>
      below s ++ after (read n) (fun _ => after (eat .elseWord) fun yes => if yes then below else fun _ => []) s) s
  | .whileWord => after advance (fun _ => after (readCondition n "while") fun _ => below) s
  | .lbrace => blockEvents (read n) below s
  | _ => []

/-- What happens while a statement is read. -/
def events (top : Bool) : Nat → State → List Event
  | 0, _ => []
  | n + 1, s =>
    if maxNesting ≤ s.depth then [] else innerEvents top n (events false n) { s with depth := s.depth + 1 }

end Stmt

/-- What happens while a row of tokens is read as a program. -/
def Program.events (tokens : List Token) : List Reader.Event :=
  Reader.manyEvents (· = .eof) (Stmt.read maxNesting) (Stmt.events true maxNesting) tokens.length (.ofTokens tokens)

namespace Reader

/-! ### Reports -/

variable {α β : Type} {s s₁ s₂ : State} {p : Reader α} {es es' : List Event}

theorem Event.length_eq_counts (es : List Event) :
    es.length = es.count .discarded + (es.filterMap brace?).length + (es.filterMap functionName?).length := by
  induction es with
  | nil => rfl
  | cons e es ih =>
    rw [List.length_cons, ih]
    cases e <;> simp [List.filterMap_cons, brace?, functionName?] <;> omega

/-- What has been reported between `s` and `s'` are the events `es`. -/
structure Reports (s : State) (es : List Event) (s' : State) : Prop where
  eof : s'.eof = s.eof
  reported : ∃ ds, s'.diagnostics.toList = s.diagnostics.toList ++ ds ∧ List.Forall₂ Event.Reported es ds

/-- The same, and `s'` is at the level of `s`. -/
structure Logged (s : State) (es : List Event) (s' : State) : Prop extends Reports s es s' where
  depth : s'.depth = s.depth

namespace Reports

theorem of_eq (heof : s₁.eof = s.eof) (h : s₁.diagnostics = s.diagnostics) : Reports s [] s₁ :=
  ⟨heof, [], by rw [h, List.append_nil], .nil⟩

theorem refl (s : State) : Reports s [] s := of_eq rfl rfl

theorem trans (h : Reports s es s₁) (h' : Reports s₁ es' s₂) : Reports s (es ++ es') s₂ := by
  obtain ⟨ds, hds, hes⟩ := h.reported
  obtain ⟨ds', hds', hes'⟩ := h'.reported
  exact ⟨h'.eof.trans h.eof, ds ++ ds', by rw [hds', hds, List.append_assoc], List.rel_append hes hes'⟩

theorem advance (s : State) : Reports s [] s.advance := of_eq (advance_eof s) (advance_diagnostics s)

theorem report {e : Event} {f : Fault} {span : Span} (h : e.Reported (f.diagnostic span)) :
    Reports s [e] (s.report f span) :=
  ⟨rfl, [f.diagnostic span], by simp [State.report], .cons h .nil⟩

theorem giveUp {f : Fault} (hf : f.fatal) (span : Span) : Reports s [.discarded] (s.report f span) :=
  report ⟨f, span, hf, rfl⟩

theorem diagnostics_eq (h : Reports s [] s₁) : s₁.diagnostics = s.diagnostics := by
  obtain ⟨ds, hds, hnone⟩ := h.reported
  cases hnone
  rw [List.append_nil] at hds
  exact Array.toList_inj.1 hds

end Reports

namespace Logged

theorem refl (s : State) : Logged s [] s := ⟨.refl s, rfl⟩

theorem trans (h : Logged s es s₁) (h' : Logged s₁ es' s₂) : Logged s (es ++ es') s₂ :=
  ⟨h.toReports.trans h'.toReports, h'.depth.trans h.depth⟩

theorem advance (s : State) : Logged s [] s.advance := ⟨.advance s, advance_depth s⟩

end Logged

/-! ### Readers that report only why they give up -/

/-- The reader reports nothing, or it gives up and reports one fault. -/
def Blames (p : Reader α) : Prop :=
  ∀ s, Ends p s (fun _ s' => Reports s [] s') fun _ s' => Reports s [.discarded] s'

namespace Blames

theorem bind {f : α → Reader β} (hp : Blames p) (hf : ∀ a, Blames (f a)) : Blames (p >>= f) := by
  intro s
  rw [ends_bind]
  exact (hp s).mono_ok fun a s₁ h => (hf a s₁).mono (fun _ _ h' => h.trans h') fun _ _ h' => h.trans h'

theorem nested (hp : Blames p) : Blames (nested p) := by
  intro s
  rw [ends_nested]
  split
  · exact .giveUp rfl _
  · exact (hp _).mono (fun _ _ h => ⟨h.eof, h.reported⟩) fun _ _ h => ⟨h.eof, h.reported⟩

theorem tokens : TokenClosed fun _ p => Blames p where
  pure _ s := .refl s
  bind := .bind
  peek s := .refl s
  advance s := .advance s

end Blames

theorem blames_closed : DeepClosed fun _ p => Blames p where
  toTokenClosed := Blames.tokens
  giveUp hf span _ := .giveUp hf span
  nested := .nested
  commaListUntilParen {α p} hp _ := by
    intro s
    rw [commaListUntilParen, ends_bind, ends_at]
    split
    · exact .refl s
    · exact Blames.tokens.commaList hp s.rest.length s
  finish _ _ s := .refl s
  deepen s := by
    rw [ends_deepen]
    split
    · exact .giveUp rfl _
    · exact .of_eq rfl rfl

theorem level_closed : StepClosed fun _ p => ∀ s, Level s p where
  pure _ _ := rfl
  bind hp hf s := (hp s).bind fun a s' _ => hf a s'
  peek _ := rfl
  advance s := advance_depth s
  giveUp _ _ _ := rfl
  nested _ _ := level_nested
  commaListUntilParen hp _ := level_commaListUntilParen hp
  finish _ _ _ := rfl

/-- The reader reports nothing, or it gives up and reports one fault, and in both cases returns to its level. -/
def Calm (p : Reader α) : Prop := Blames p ∧ ∀ s, Level s p

theorem calm_closed : StepClosed fun _ p => Calm p := blames_closed.and level_closed

theorem Calm.ends (hp : Calm p) (s : State) :
    Ends p s (fun _ s' => Logged s [] s') fun _ s' => Logged s [.discarded] s' :=
  ((hp.1 s).and (hp.2 s)).mono (fun _ _ h => ⟨h.1, h.2⟩) fun _ _ h => ⟨h.1, h.2⟩

/-! ### Accounts of what is reported -/

/-- From a level that is `inside`, the reader reports `events`, and after them one fault if it gives up. -/
def Accounts (inside : Nat → Prop) (events : State → List Event) (p : Reader α) : Prop :=
  ∀ s, s.eof.kind = .eof → inside s.depth →
    Ends p s (fun _ s' => Logged s (events s) s') fun _ s' => Logged s (events s ++ [.discarded]) s'

theorem Calm.accounts (hp : Calm p) (inside : Nat → Prop) : Accounts inside (fun _ => []) p :=
  fun s _ _ => hp.ends s

theorem after_nil (p : Reader α) (s : State) : after p (fun _ _ => []) s = [] := by
  unfold after
  split <;> rfl

namespace Accounts

variable {inside inside' : Nat → Prop} {events : State → List Event}

theorem mono (hp : Accounts inside events p) (h : ∀ d, inside' d → inside d) : Accounts inside' events p :=
  fun s heof hd => hp s heof (h _ hd)

theorem bind {f : α → Reader β} {events' : α → State → List Event} (hp : Accounts inside events p)
    (hf : ∀ a, Accounts inside (events' a) (f a)) :
    Accounts inside (fun s => events s ++ after p events' s) (p >>= f) := by
  intro s heof hd
  have hs := hp s heof hd
  rw [ends_bind]
  dsimp only
  cases hend : p s with
  | ok a s₁ =>
    have hs₁ := (ends_of_ok hend).1 hs
    have hafter : after p events' s = events' a s₁ := by rw [after, hend]
    rw [ends_of_ok hend, hafter, List.append_assoc]
    exact (hf a s₁ (hs₁.eof ▸ heof) (hs₁.depth ▸ hd)).mono (fun _ _ h => hs₁.trans h) fun _ _ h => hs₁.trans h
  | error e s₁ =>
    have hafter : after p events' s = [] := by rw [after, hend]
    rw [ends_of_error hend, hafter, List.append_nil]
    exact (ends_of_error hend).1 hs

/-- What a calm reader does first only leads to the state in which the rest happens. -/
theorem calm_bind {f : α → Reader β} {events' : α → State → List Event} (hp : Calm p)
    (hf : ∀ a, Accounts inside (events' a) (f a)) : Accounts inside (after p events') (p >>= f) :=
  (hp.accounts inside).bind hf

theorem bind_calm {f : α → Reader β} (hp : Accounts inside events p) (hf : ∀ a, Calm (f a)) :
    Accounts inside events (p >>= f) := by
  have h := hp.bind fun a => (hf a).accounts inside
  simpa only [after_nil, List.append_nil] using h

theorem nested (hp : Accounts inside' events p) (h : ∀ d, inside d → inside' (d + 1)) :
    Accounts inside
      (fun s => if maxNesting ≤ s.depth then [] else events { s with depth := s.depth + 1 }) (nested p) := by
  intro s heof hd
  rw [ends_nested]
  dsimp only
  split
  · exact ⟨.giveUp rfl _, rfl⟩
  · refine (hp { s with depth := s.depth + 1 } heof (h _ hd)).mono ?_ ?_
    · exact fun _ _ h => ⟨⟨h.eof, h.reported⟩, rfl⟩
    · exact fun _ _ h => ⟨⟨h.eof, h.reported⟩, rfl⟩

theorem recovering (hp : Accounts inside events p) (heof : s.eof.kind = .eof) (hd : inside s.depth) :
    Logged s (events s ++ if (recovering p s).1.isNone then [.discarded] else []) (recovering p s).2 := by
  have hs := hp s heof hd
  cases hend : p s with
  | ok a s₁ =>
    rw [recovering_ok hend]
    simpa using (ends_of_ok hend).1 hs
  | error e s₁ =>
    have hs₁ := (ends_of_error hend).1 hs
    have hskip : Logged s₁ [] (if s₁.synchronize.rest.length = s.rest.length then s₁.synchronize.advance
        else s₁.synchronize) := by
      have hbound : Logged s₁ [] s₁.synchronize := ⟨.of_eq rfl rfl, rfl⟩
      split
      · exact hbound.trans (.advance _)
      · exact hbound
    rw [recovering_error hend]
    simpa using hs₁.trans hskip

theorem many (hp : Accounts inside events p) (stop : Token.Kind → Bool) (most : Nat)
    (heof : s.eof.kind = .eof) (hd : inside s.depth) :
    Logged s (manyEvents stop p events most s) (many stop p most s).2 := by
  induction most generalizing s with
  | zero => exact .refl s
  | succ most ih =>
    rw [manyEvents, Reader.many]
    split
    · exact .refl s
    · have hone := hp.recovering heof hd
      exact hone.trans (ih (hone.eof ▸ heof) (hone.depth ▸ hd))

end Accounts

end Reader

open Reader

/-! ### The readers of statements -/

theorem Expr.read_calm (n : Nat) : Calm (read n) := ⟨read_closed blames_closed n, level_read n⟩

namespace Stmt

variable {inside : Nat → Prop} {stmt : Reader Stmt} {below : State → List Event}

theorem readBlock_accounts (hstmt : Accounts inside below stmt) (hprogress : Progressive stmt) :
    Accounts inside (blockEvents stmt below) (readBlock stmt) := by
  refine .calm_bind (calm_closed.expect _ fun _ => rfl) fun opening s heof hd => ?_
  have hbody := hstmt.many endsBlock s.rest.length heof hd
  have hlast := hprogress.manyUntil_stops endsBlock rfl heof
  change Logged s _ (manyUntil endsBlock stmt s).2 at hbody
  rw [ends_bind, ends_modifyGet, ends_bind, ends_at, ends_ite]
  generalize manyUntil endsBlock stmt s = body at *
  by_cases hclosed : body.2.peek.kind = .rbrace
  · have hinput : body.2.peek.kind ≠ .eof := by simp [hclosed]
    rw [if_pos (decide_eq_true hclosed), if_neg hinput]
    exact hbody.trans (.advance _)
  · have hinput : body.2.peek.kind = .eof := by simpa [endsBlock, hclosed] using hlast
    rw [if_neg (by simpa using hclosed), if_pos hinput]
    exact hbody.trans ⟨.report rfl, rfl⟩

/-- A function that is read below the top level is reported after its body. -/
theorem readFunction_accounts {top : Bool} (hinside : ∀ d, inside d → (1 < d ↔ top = false))
    (hstmt : Accounts inside below stmt) (hprogress : Progressive stmt) :
    Accounts inside (functionEvents top stmt below) (readFunction stmt) := by
  refine .calm_bind calm_closed.advance fun start => ?_
  refine .calm_bind (Ident.read_closed calm_closed _) fun name => ?_
  refine .calm_bind (calm_closed.expect _ fun _ => rfl) fun opening => ?_
  refine .calm_bind (calm_closed.commaListUntilParen (Param.read_closed calm_closed) Param.read_progressive)
    fun params => ?_
  refine .calm_bind (calm_closed.expectClosing opening) fun _ => ?_
  refine (readBlock_accounts hstmt hprogress).bind fun block s heof hd => ?_
  dsimp only
  rw [ends_bind, ends_get]
  cases top with
  | true =>
    rw [if_neg (by simp [hinside _ hd])]
    exact .refl s
  | false =>
    rw [if_pos ((hinside _ hd).2 rfl)]
    exact ⟨.report rfl, rfl⟩

theorem readBranch_accounts (n : Nat) (start : Span) (hread : Accounts inside below (read n)) :
    Accounts inside (after advance fun _ => after (readCondition n "if") fun _ s =>
      below s ++ after (read n) (fun _ => after (eat .elseWord) fun yes => if yes then below else fun _ => []) s)
      (readBranch n start) := by
  rw [readBranch]
  refine .calm_bind calm_closed.advance fun _ => ?_
  refine .calm_bind (readCondition_closed calm_closed (Expr.read_calm n) _) fun cond => ?_
  refine hread.bind fun thenStmt => .calm_bind (calm_closed.eat _) fun yes => ?_
  cases yes with
  | false => exact (calm_closed.finish start _).accounts inside
  | true =>
    have helse : Accounts inside below (some <$> read n) := by
      rw [← bind_pure_comp]
      exact hread.bind_calm fun _ => calm_closed.pure _
    exact helse.bind_calm fun _ => calm_closed.finish start _

theorem readInner_accounts (n : Nat) {top : Bool} (hinside : ∀ d, inside d → (1 < d ↔ top = false))
    (hread : Accounts inside below (read n)) : Accounts inside (innerEvents top n below) (readInner n) := by
  intro s heof hd
  rw [readInner, ends_bind, ends_peek, ends_bind, ends_kind]
  have hcalm {p : Reader Stmt} (hp : Calm p) := hp.accounts inside s heof hd
  have hexpr := Expr.read_calm n
  unfold innerEvents
  split <;> rename_i hkind <;> simp only [hkind]
  case h_6 => exact readFunction_accounts hinside hread (read_progressive n) s heof hd
  case h_7 => exact readBranch_accounts n _ hread s heof hd
  case h_8 =>
    refine Accounts.calm_bind calm_closed.advance (fun _ => ?_) s heof hd
    refine .calm_bind (readCondition_closed calm_closed hexpr _) fun cond => ?_
    exact hread.bind_calm fun body => calm_closed.finish _ _
  case h_9 => exact (readBlock_accounts hread (read_progressive n)).bind_calm (fun _ => calm_closed.pure _) s heof hd
  case h_10 => exact hcalm (readReturn_closed calm_closed hexpr _)
  case h_11 => exact hcalm (readPrint_closed calm_closed hexpr _)
  case h_12 | h_13 =>
    refine hcalm (calm_closed.bind calm_closed.advance fun _ => ?_)
    exact calm_closed.bind (calm_closed.expectSemicolon _) fun _ => calm_closed.finish _ _
  case h_14 => exact hcalm (calm_closed.giveUpHere fun _ => rfl)
  case h_15 => exact hcalm (readExpr_closed calm_closed hexpr _)
  all_goals exact hcalm (calm_closed.bind calm_closed.advance fun _ => readVarDecl_closed calm_closed hexpr _ _)

/-- A statement at the top level is read where no other encloses it. -/
theorem read_accounts (top : Bool) (n : Nat) :
    Accounts (fun d => d = 0 ↔ top = true) (events top n) (read n) := by
  induction n generalizing top with
  | zero =>
    rw [read]
    exact calm_closed.tooDeep.accounts _
  | succ n ih =>
    rw [read]
    have hbelow : Accounts (fun d => 0 < d ∧ (d = 1 ↔ top = true)) (events false n) (read n) :=
      (ih false).mono fun d hd => by simp [Nat.ne_of_gt hd.1]
    have hdeeper (d : Nat) (hd : 0 < d ∧ (d = 1 ↔ top = true)) : 1 < d ↔ top = false := by
      rw [← Bool.not_eq_true, ← hd.2]
      omega
    have hinner := readInner_accounts n hdeeper hbelow
    exact hinner.nested fun d hd => ⟨d.succ_pos, by simpa using hd⟩

end Stmt

namespace Program

/-- One diagnostic for each event, in their order: as many as there are statements given up, blocks left open and
functions read inside other statements. A statement that is given up is preceded by one report of its own, after what
was reported inside it; one that is read adds no report to these. An expression is read without a report, or it is
given up with one. -/
theorem reports_accounted :
    (∀ tokens : List Token,
      List.Forall₂ Event.Reported (events tokens) (ofTokens tokens).diagnostics ∧
      (ofTokens tokens).diagnostics.length =
        (events tokens).count .discarded + ((events tokens).filterMap Event.brace?).length +
          ((events tokens).filterMap Event.functionName?).length) ∧
    (∀ n (s : State), s.eof.kind = .eof →
      Ends (Stmt.read n) s (fun _ s' => Logged s (Stmt.events (s.depth = 0) n s) s')
        fun _ s' => Logged s (Stmt.events (s.depth = 0) n s ++ [.discarded]) s') ∧
    ∀ n (s : State),
      Ends (Expr.read n) s (fun _ s' => s'.diagnostics = s.diagnostics) fun _ s' =>
        ∃ (f : Fault) (span : Span), f.fatal ∧ s'.diagnostics = s.diagnostics.push (f.diagnostic span) := by
  refine ⟨fun tokens => ?_, fun n s heof => ?_, fun n s => ?_⟩
  · have heof : (State.ofTokens tokens).eof.kind = .eof := State.missingEnd_kind tokens
    have hrun := (Stmt.read_accounts true maxNesting).many (· = .eof) tokens.length heof (by simp [State.ofTokens])
    obtain ⟨ds, hds, hreported⟩ := hrun.reported
    have hall : (ofTokens tokens).diagnostics = ds := hds
    rw [hall, ← hreported.length_eq]
    exact ⟨hreported, Event.length_eq_counts _⟩
  · exact Stmt.read_accounts (s.depth = 0) n s heof (by simp)
  · refine ((Expr.read_calm n).1 s).mono (fun _ _ h => h.diagnostics_eq) fun _ s' h => ?_
    obtain ⟨ds, hds, hreported⟩ := h.reported
    cases hreported with
    | cons hone hnone =>
      cases hnone
      obtain ⟨f, span, hf, rfl⟩ := hone
      exact ⟨f, span, hf, Array.toList_inj.1 (by simpa using hds)⟩

/-- A block that is never closed, and in it a function whose body has a statement without its semicolon. -/
def openBlock : List Token := (Tokens.ofText "\x7b func f() \x7b a \x7d").tokens

/-- The statement, the function and the block are reported, in this order; the block itself is read. -/
theorem reports_accounted_openBlock :
    events openBlock = [.discarded, .nestedFunction ⟨⟨1, 8, 7⟩, 8⟩, .leftOpen ⟨⟨1, 1, 0⟩, 1⟩] ∧
      List.Forall₂ Event.Reported (events openBlock) (ofTokens openBlock).diagnostics ∧
      (ofTokens openBlock).diagnostics.length = 3 ∧
      Ends (Stmt.read 5) (.ofTokens openBlock) (fun _ s' => s'.diagnostics.size = 3) fun _ _ => True := by
  have hevents : events openBlock =
      [.discarded, .nestedFunction ⟨⟨1, 8, 7⟩, 8⟩, .leftOpen ⟨⟨1, 1, 0⟩, 1⟩] := by decide +kernel
  have hblock : Stmt.events true 5 (.ofTokens openBlock) =
      [.discarded, .nestedFunction ⟨⟨1, 8, 7⟩, 8⟩, .leftOpen ⟨⟨1, 1, 0⟩, 1⟩] := by decide +kernel
  obtain ⟨hprogram, hstmt, -⟩ := reports_accounted
  obtain ⟨hreported, hlength⟩ := hprogram openBlock
  refine ⟨hevents, hreported, by rw [hlength, hevents]; rfl, ?_⟩
  refine (hstmt 5 (.ofTokens openBlock) (State.missingEnd_kind _)).mono (fun _ s' h => ?_) fun _ _ _ => trivial
  obtain ⟨ds, hds, hcount⟩ := h.reported
  rw [show (decide ((State.ofTokens openBlock).depth = 0)) = true from rfl, hblock] at hcount
  rw [← Array.length_toList, hds, List.length_append, ← hcount.length_eq]
  rfl

end Program

end Scriptlet
