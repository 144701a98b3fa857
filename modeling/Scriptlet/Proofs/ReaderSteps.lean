import Scriptlet.Proofs.Ends
import Scriptlet.Tree.Reader

/-!
# What the steps of a reader do

Each step of `Reader` in terms of `Ends`, and the two ways in which a state can follow another: by
reading tokens without a report (`Read`), or with a fault of a certain kind reported in between
(`Noisy`). A reader that gives up has always reported why.
-/

namespace Scriptlet.Reader

variable {α β : Type} {s s₁ s₂ : State} {ts us : List Token} {bad : Code → Prop}

/-! ### States -/

/-- `s'` comes from `s` by reading `ts`, and nothing has been reported. -/
structure Read (s : State) (ts : List Token) (s' : State) : Prop where
  rest : s.rest = ts ++ s'.rest
  eof : s'.eof = s.eof
  diagnostics : s'.diagnostics = s.diagnostics

/-- What has been reported in `s` is reported in `s'` too. -/
structure Extends (s s' : State) : Prop where
  eof : s'.eof = s.eof
  diagnostics : s.diagnostics.toList <+: s'.diagnostics.toList

/-- `s'` comes after `s`, and a fault with a `bad` code has been reported in between. -/
structure Noisy (bad : Code → Prop) (s s' : State) : Prop extends Extends s s' where
  reported : ∃ d ∈ s'.diagnostics.toList.drop s.diagnostics.size, bad d.code

/-- Every fault counts. -/
abbrev AnyFault : Code → Prop := fun _ => True

theorem Read.refl (s : State) : Read s [] s := ⟨rfl, rfl, rfl⟩

theorem Read.trans (h : Read s ts s₁) (h' : Read s₁ us s₂) : Read s (ts ++ us) s₂ :=
  ⟨by rw [h.rest, h'.rest, List.append_assoc], h'.eof.trans h.eof, h'.diagnostics.trans h.diagnostics⟩

theorem Read.extends (h : Read s ts s₁) : Extends s s₁ :=
  ⟨h.eof, h.diagnostics ▸ List.prefix_rfl⟩

theorem Extends.refl (s : State) : Extends s s := ⟨rfl, List.prefix_rfl⟩

theorem Extends.trans (h : Extends s s₁) (h' : Extends s₁ s₂) : Extends s s₂ :=
  ⟨h'.eof.trans h.eof, h.diagnostics.trans h'.diagnostics⟩

theorem Extends.size_le (h : Extends s s₁) : s.diagnostics.size ≤ s₁.diagnostics.size := by
  simpa using h.diagnostics.length_le

theorem Noisy.trans_extends (h : Noisy bad s s₁) (h' : Extends s₁ s₂) : Noisy bad s s₂ := by
  obtain ⟨d, hd, hbad⟩ := h.reported
  refine ⟨h.toExtends.trans h', d, ?_, hbad⟩
  obtain ⟨later, hlater⟩ := h'.diagnostics
  rw [← hlater, List.drop_append]
  exact List.mem_append_left _ hd

theorem Extends.trans_noisy (h : Extends s s₁) (h' : Noisy bad s₁ s₂) : Noisy bad s s₂ := by
  obtain ⟨d, hd, hbad⟩ := h'.reported
  exact ⟨h.trans h'.toExtends, d, List.drop_subset_drop_left _ h.size_le hd, hbad⟩

theorem not_noisy_of_eq (h : s₁.diagnostics = s.diagnostics) : ¬ Noisy bad s s₁ := by
  rintro ⟨-, d, hd, -⟩
  rw [h, ← Array.length_toList, List.drop_length] at hd
  exact nomatch hd

theorem report_extends (s : State) (f : Fault) (span : Span) : Extends s (s.report f span) :=
  ⟨rfl, by simp [State.report]⟩

theorem noisy_report {f : Fault} (h : bad f.code) (s : State) (span : Span) :
    Noisy bad s (s.report f span) :=
  ⟨report_extends s f span, f.diagnostic span, by simp [State.report], h⟩

@[simp] theorem peek_depth (s : State) (d : Nat) : ({ s with depth := d } : State).peek = s.peek := rfl

theorem Read.set_depth {d d' : Nat} (h : Read { s with depth := d } ts s₁) :
    Read s ts { s₁ with depth := d' } :=
  ⟨h.rest, h.eof, h.diagnostics⟩

theorem Noisy.set_depth {d d' : Nat} (h : Noisy bad { s with depth := d } s₁) :
    Noisy bad s { s₁ with depth := d' } :=
  ⟨⟨h.eof, h.diagnostics⟩, h.reported⟩

theorem advance_nil (h : s.rest = []) : s.advance = s := by
  rw [State.advance, h]

theorem advance_cons {t : Token} (h : s.rest = t :: ts) (ht : t.kind ≠ .eof) :
    s.advance = { s with rest := ts, lastStop := t.span.stop } := by
  rw [State.advance, h]
  exact if_neg ht

theorem advance_at_end {t : Token} (h : s.rest = t :: ts) (ht : t.kind = .eof) : s.advance = s := by
  rw [State.advance, h]
  exact if_pos ht

theorem peek_cons {t : Token} {rest : List Token} (h : s.rest = t :: rest) : s.peek = t := by
  rw [State.peek, h]; rfl

/-- A reader that goes on either stays, at an end of input, or passes over one token. -/
theorem advance_cases (s : State) : s.advance = s ∨ ∃ t ts, s.rest = t :: ts ∧ t.kind ≠ .eof ∧
    s.advance = { s with rest := ts, lastStop := t.span.stop } := by
  cases hrest : s.rest with
  | nil => exact .inl (advance_nil hrest)
  | cons t ts =>
    by_cases ht : t.kind = .eof
    · exact .inl (advance_at_end hrest ht)
    · exact .inr ⟨t, ts, rfl, ht, advance_cons hrest ht⟩

/-- To resume at the next boundary is to go on, token by token. -/
theorem synchronize_of_advance {I : State → Prop} (hI : ∀ s, I s → I s.advance) (hs : I s) :
    I s.synchronize := by
  obtain ⟨rest, eof, lastStop, depth, diagnostics⟩ := s
  induction rest generalizing lastStop with
  | nil => exact hs
  | cons t ts ih =>
    unfold State.synchronize State.skipTo
    by_cases hbound : t.kind = .eof ∨ t.kind = .rbrace ∨ t.kind.startsStatement
    · rw [if_pos hbound]
      exact hs
    · have hstep := hI _ hs
      rw [advance_cons rfl fun ht => hbound (.inl ht)] at hstep
      rw [if_neg hbound]
      by_cases hsemicolon : t.kind = .semicolon
      · rw [if_pos hsemicolon]
        exact hstep
      · rw [if_neg hsemicolon]
        exact ih _ hstep

/-- A token that is not the end of input can be read. -/
theorem read_advance (heof : s.eof.kind = .eof) (h : s.peek.kind ≠ .eof) :
    Read s [s.peek] s.advance := by
  cases hrest : s.rest with
  | nil =>
    rw [State.peek, hrest] at h
    exact absurd heof h
  | cons t ts =>
    have hpeek : s.peek = t := peek_cons hrest
    rw [hpeek] at h ⊢
    rw [advance_cons hrest h]
    exact ⟨hrest, rfl, rfl⟩

@[simp] theorem advance_eof (s : State) : s.advance.eof = s.eof := by
  rcases advance_cases s with h | ⟨t, ts, -, -, h⟩ <;> rw [h]

@[simp] theorem advance_depth (s : State) : s.advance.depth = s.depth := by
  rcases advance_cases s with h | ⟨t, ts, -, -, h⟩ <;> rw [h]

/-! ### Steps -/

variable {ok : α → State → Prop} {err : GaveUp → State → Prop}

@[simp] theorem ends_peek {ok : Token → State → Prop} : Ends peek s ok err ↔ ok s.peek s := Iff.rfl

@[simp] theorem ends_kind {ok : Token.Kind → State → Prop} :
    Ends kind s ok err ↔ ok s.peek.kind s := Iff.rfl

@[simp] theorem ends_at {k : Token.Kind} {ok : Bool → State → Prop} :
    Ends (at? k) s ok err ↔ ok (decide (s.peek.kind = k)) s := Iff.rfl

@[simp] theorem ends_advance {ok : Token → State → Prop} :
    Ends advance s ok err ↔ ok s.peek s.advance := Iff.rfl

@[simp] theorem ends_eat {k : Token.Kind} {ok : Bool → State → Prop} :
    Ends (eat k) s ok err ↔
      if s.peek.kind = k then ok true s.advance else ok false s := by
  simp [eat]

@[simp] theorem ends_report {f : Fault} {span : Span} {ok : Unit → State → Prop} :
    Ends (report f span) s ok err ↔ ok () (s.report f span) := Iff.rfl

@[simp] theorem ends_giveUp {f : Fault} {span : Span} :
    Ends (giveUp f span : Reader α) s ok err ↔ err ⟨⟩ (s.report f span) := Iff.rfl

@[simp] theorem ends_giveUpHere {f : Token → Fault} :
    Ends (giveUpHere f : Reader α) s ok err ↔ err ⟨⟩ (s.report (f s.peek) s.peek.span) := Iff.rfl

@[simp] theorem ends_tooDeep :
    Ends (tooDeep : Reader α) s ok err ↔ err ⟨⟩ (s.report .nestingTooDeep s.peek.span) := Iff.rfl

@[simp] theorem ends_expect {k : Token.Kind} {f : Token → Fault} {ok : Token → State → Prop} :
    Ends (expect k f) s ok err ↔
      if s.peek.kind = k then ok s.peek s.advance
      else err ⟨⟩ (s.report (f s.peek) s.peek.span) := by
  simp [expect]

@[simp] theorem ends_expectSemicolon {context : String} {ok : Token → State → Prop} :
    Ends (expectSemicolon context) s ok err ↔
      if s.peek.kind = .semicolon then ok s.peek s.advance
      else err ⟨⟩ (s.report (.missingTerminator context s.peek) s.peek.span) :=
  ends_expect

@[simp] theorem ends_expectClosing {opening : Token} {ok : Token → State → Prop} :
    Ends (expectClosing opening) s ok err ↔
      if s.peek.kind = .rparen then ok s.peek s.advance
      else err ⟨⟩ (s.report (.unclosedParen opening s.peek) s.peek.span) :=
  ends_expect

@[simp] theorem ends_deepen {ok : Unit → State → Prop} :
    Ends deepen s ok err ↔
      if maxNesting ≤ s.depth then err ⟨⟩ (s.report .nestingTooDeep s.peek.span)
      else ok () { s with depth := s.depth + 1 } := by
  simp only [deepen, ends_bind, ends_get, ends_ite, ends_tooDeep, ends_modify]

@[simp] theorem ends_returningTo {depth : Nat} {p : Reader α} :
    Ends (returningTo depth p) s ok err ↔
      Ends p s (fun a s' => ok a { s' with depth }) (fun e s' => err e { s' with depth }) := by
  simp only [Ends, returningTo]
  cases p s <;> rfl

@[simp] theorem ends_nested {p : Reader α} :
    Ends (nested p) s ok err ↔
      if maxNesting ≤ s.depth then err ⟨⟩ (s.report .nestingTooDeep s.peek.span)
      else Ends p { s with depth := s.depth + 1 } (fun a s' => ok a { s' with depth := s.depth })
        (fun e s' => err e { s' with depth := s.depth }) := by
  simp only [nested, ends_bind, ends_get, ends_deepen, ends_returningTo]

/-! ### Recovery -/

theorem recovering_ok {p : Reader α} {a : α} (h : p s = .ok a s₁) : recovering p s = (some a, s₁) := by
  rw [recovering, h]

theorem recovering_error {p : Reader α} {e : GaveUp} (h : p s = .error e s₁) :
    recovering p s = (none, if s₁.synchronize.rest.length = s.rest.length then s₁.synchronize.advance
      else s₁.synchronize) := by
  rw [recovering, h]

theorem many_stopped {p : Reader α} {stop : Token.Kind → Bool} (h : stop s.peek.kind) (most : Nat) :
    many stop p most s = ([], s) := by
  cases most with
  | zero => rfl
  | succ most => rw [many, if_pos h]

end Scriptlet.Reader
