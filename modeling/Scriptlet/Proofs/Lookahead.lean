import Scriptlet.Proofs.Reports

/-!
# Tokens that a statement does not look at

A statement that has been read without a report is read the same way if more tokens stand behind it, whatever they
are, with one exception: an `else` would be taken as a part of it (`Stmt.read_ending`).

A reader of an expression may look at the token behind it, and so it only goes the same way if there was one before
(`Firm`). Every statement ends with a token of its own, so that no expression in it is the last thing to be read
(`Ending`).
-/

namespace Scriptlet

namespace Reader

variable {α β : Type} {s s' s₁ s₂ : State}

/-- The same state with the tokens `ts` behind those that are left. -/
def State.ahead (ts : List Token) (eof : Token) (s : State) : State :=
  { s with rest := s.rest ++ ts, eof }

theorem State.peek_ahead (ts : List Token) (eof : Token) (h : s.rest ≠ []) : (s.ahead ts eof).peek = s.peek := by
  cases hrest : s.rest with
  | nil => exact absurd hrest h
  | cons t us => simp [peek, ahead, hrest]

/-- There is one end of input, behind all tokens. -/
structure Plain (s : State) : Prop where
  rest : ∀ t ∈ s.rest, t.kind ≠ .eof
  eof : s.eof.kind = .eof

theorem stable_plain : Stable Plain := by
  have hadvance (s : State) (h : Plain s) : Plain s.advance := by
    rcases advance_cases s with hsame | ⟨t, ts, hrest, -, hnext⟩
    · rwa [hsame]
    · rw [hnext]
      exact ⟨fun u hu => h.rest u (hrest ▸ List.mem_cons_of_mem t hu), h.eof⟩
  exact ⟨hadvance _, fun _ _ h => ⟨h.rest, h.eof⟩, fun _ h => ⟨h.rest, h.eof⟩, synchronize_of_advance hadvance⟩

namespace Plain

theorem peek_of_nil (hs : Plain s) (h : s.rest = []) : s.peek.kind = .eof := by
  rw [State.peek, h]
  exact hs.eof

theorem rest_ne_nil (hs : Plain s) (h : s.peek.kind ≠ .eof) : s.rest ≠ [] := fun hnil => h (hs.peek_of_nil hnil)

theorem rest_eq_nil (hs : Plain s) (h : s.peek.kind = .eof) : s.rest = [] := by
  cases hrest : s.rest with
  | nil => rfl
  | cons t ts =>
    rw [peek_cons hrest] at h
    exact absurd h (hs.rest t (hrest ▸ List.mem_cons_self))

theorem advance_ahead (ts : List Token) (eof : Token) (hs : Plain s) (h : s.rest ≠ []) :
    (s.ahead ts eof).advance = s.advance.ahead ts eof := by
  cases hrest : s.rest with
  | nil => exact absurd hrest h
  | cons t us =>
    have ht : t.kind ≠ .eof := hs.rest t (hrest ▸ List.mem_cons_self)
    have hrest' : (s.ahead ts eof).rest = t :: (us ++ ts) := by rw [State.ahead, hrest]; rfl
    rw [advance_cons hrest ht, advance_cons hrest' ht]
    rfl

end Plain

/-! ### What has been reported does not change -/

theorem stable_extends (s₀ : State) : Stable (Extends s₀) :=
  ⟨fun h => h.trans (advance_extends _), fun f span h => h.trans (report_extends _ f span),
    fun _ h => ⟨h.eof, h.diagnostics⟩, fun h => h.trans (synchronize_extends _)⟩

theorem Extends.quiet (h : Extends s s₁) (h' : Extends s₁ s₂) (hquiet : s₂.diagnostics = s.diagnostics) :
    s₁.diagnostics = s.diagnostics ∧ s₂.diagnostics = s₁.diagnostics := by
  have hfirst : s₁.diagnostics = s.diagnostics := by
    have hback : s₁.diagnostics.toList.length ≤ s.diagnostics.toList.length := hquiet ▸ h'.diagnostics.length_le
    exact Array.toList_inj.1 (h.diagnostics.eq_of_length (le_antisymm h.diagnostics.length_le hback)).symm
  exact ⟨hfirst, hquiet.trans hfirst.symm⟩

theorem Extends.report_ne (h : Extends s s₁) (f : Fault) (span : Span) :
    (s₁.report f span).diagnostics ≠ s.diagnostics := by
  intro hquiet
  have hsize := h.size_le
  rw [← hquiet, State.report, Array.size_push] at hsize
  omega

/-! ### Levels -/

variable {p : Reader α} {a : α}

theorem nested_granted (h : ¬ maxNesting ≤ s.depth) :
    nested p s = returningTo s.depth p { s with depth := s.depth + 1 } := by
  show (deepen >>= fun _ => returningTo s.depth p) s = _
  rw [bind_of_ok (deepen_granted h)]

theorem nested_of_ok (hdepth : ¬ maxNesting ≤ s.depth) (h : p { s with depth := s.depth + 1 } = .ok a s₁) :
    nested p s = .ok a { s₁ with depth := s.depth } := by
  rw [nested_granted hdepth, returningTo, h]

theorem nested_of_error {e : GaveUp} (hdepth : ¬ maxNesting ≤ s.depth)
    (h : p { s with depth := s.depth + 1 } = .error e s₁) : nested p s = .error e { s₁ with depth := s.depth } := by
  rw [nested_granted hdepth, returningTo, h]

theorem of_nested_ok (h : nested p s = .ok a s') :
    ¬ maxNesting ≤ s.depth ∧ ∃ s₁, p { s with depth := s.depth + 1 } = .ok a s₁ ∧
      s' = { s₁ with depth := s.depth } := by
  by_cases hdepth : maxNesting ≤ s.depth
  · rw [nested_refused hdepth] at h
    exact nomatch h
  · rw [nested_granted hdepth, returningTo] at h
    split at h <;> cases h
    exact ⟨hdepth, _, ‹_›, rfl⟩

/-! ### Tokens of one kind -/

variable {k : Token.Kind} {f : Token → Fault}

theorem eat_next (h : s.peek.kind = k) : eat k s = .ok true s.advance := by
  show (if decide (s.peek.kind = k) = true then _ else _ : Reader Bool) s = _
  rw [if_pos (decide_eq_true h)]
  rfl

theorem eat_missing (h : s.peek.kind ≠ k) : eat k s = .ok false s := by
  show (if decide (s.peek.kind = k) = true then _ else _ : Reader Bool) s = _
  rw [if_neg (by simpa using h)]
  rfl

theorem expect_next (h : s.peek.kind = k) : expect k f s = .ok s.peek s.advance := by
  show (if decide (s.peek.kind = k) = true then _ else _ : Reader Token) s = _
  rw [if_pos (decide_eq_true h)]
  rfl

theorem expect_missing (h : s.peek.kind ≠ k) : expect k f s = giveUpHere f s := by
  show (if decide (s.peek.kind = k) = true then _ else _ : Reader Token) s = _
  rw [if_neg (by simpa using h)]

namespace Stepwise

theorem bind {f : α → Reader β} (hp : Stepwise p) (hf : ∀ a, Stepwise (f a)) : Stepwise (p >>= f) :=
  fun I hI => (hp I hI).bind fun a => hf a I hI

theorem plain (hp : Stepwise p) (hs : Plain s) (h : p s = .ok a s') : Plain s' :=
  (ends_of_ok h).1 (hp _ stable_plain s hs)

theorem grows (hp : Stepwise p) (h : p s = .ok a s') : Extends s s' :=
  (ends_of_ok h).1 (hp _ (stable_extends s) s (.refl s))

/-- Tokens that are left were there before. -/
theorem rest_ne_nil (hp : Stepwise p) (h : p s = .ok a s') (hrest : s'.rest ≠ []) : s.rest ≠ [] := by
  obtain ⟨ts, hts⟩ := (ends_of_ok h).1 (hp.moves s)
  rw [hts.rest]
  exact List.append_ne_nil_of_right_ne_nil ts hrest

theorem manyUntil (hp : Stepwise p) {I : State → Prop} (hI : Stable I) {stop : Token.Kind → Bool} {items : List α}
    (h : manyUntil stop p s = (items, s')) (hs : I s) : I s' := by
  have hlast : I (many stop p s.rest.length s).2 := Maintains.many hI stop (hp I hI) s.rest.length hs
  rw [Reader.manyUntil] at h
  rwa [h] at hlast

end Stepwise

/-! ### Readers with more tokens behind -/

section

variable (ts : List Token) (eof : Token)

/-- If the reader stops before the last token, it goes the same way with `ts` behind. -/
structure Firm (p : Reader α) : Prop where
  stepwise : Stepwise p
  ahead {s s' : State} {a : α} (hs : Plain s) (h : p s = .ok a s') (hrest : s'.rest ≠ []) :
    p (s.ahead ts eof) = .ok a (s'.ahead ts eof)

/-- If the reader reports nothing, it goes the same way with `ts` behind. -/
structure Settled (p : Reader α) : Prop where
  stepwise : Stepwise p
  ahead {s s' : State} {a : α} (hs : Plain s) (h : p s = .ok a s') (hquiet : s'.diagnostics = s.diagnostics) :
    p (s.ahead ts eof) = .ok a (s'.ahead ts eof)

/-- The same of a reader that does not succeed at the end of input. -/
structure Ending (p : Reader α) : Prop extends Settled ts eof p where
  needs {s s' : State} {a : α} (hs : Plain s) (h : p s = .ok a s') : s.rest ≠ []

end

variable {ts : List Token} {eof : Token}

namespace Firm

theorem bind {f : α → Reader β} (hp : Firm ts eof p) (hf : ∀ a, Firm ts eof (f a)) : Firm ts eof (p >>= f) where
  stepwise := hp.stepwise.bind fun a => (hf a).stepwise
  ahead hs h hrest := by
    obtain ⟨a, s₁, hfirst, hthen⟩ := of_bind_ok h
    have hrest₁ := (hf a).stepwise.rest_ne_nil hthen hrest
    rw [bind_of_ok (hp.ahead hs hfirst hrest₁)]
    exact (hf a).ahead (hp.stepwise.plain hs hfirst) hthen hrest

theorem pure (a : α) : Firm ts eof (pure a) where
  stepwise _ _ := .pure a
  ahead _ h _ := by
    cases h
    rfl

theorem peek : Firm ts eof peek where
  stepwise _ _ := .peek_bind fun _ => .pure _
  ahead _ h hrest := by
    cases h
    exact congrArg (EStateM.Result.ok · _) (State.peek_ahead ts eof hrest)

theorem advance : Firm ts eof advance where
  stepwise _ hI := .advance hI
  ahead {s s' a} hs h hrest := by
    have hrest' := Stepwise.rest_ne_nil (fun _ hI => .advance hI) h hrest
    cases h
    show EStateM.Result.ok _ _ = _
    rw [State.peek_ahead ts eof hrest', hs.advance_ahead ts eof hrest']

theorem giveUp (f : Fault) (span : Span) : Firm ts eof (giveUp f span : Reader α) where
  stepwise _ hI := .giveUp hI f span
  ahead _ h _ := nomatch h

theorem deepen : Firm ts eof deepen where
  stepwise _ hI := .deepen hI
  ahead {s s' a} _ h _ := by
    by_cases hdeep : maxNesting ≤ s.depth
    · rw [deepen_refused hdeep] at h
      exact nomatch h
    · rw [deepen_granted hdeep] at h
      cases h
      exact deepen_granted hdeep

theorem nested (hp : Firm ts eof p) : Firm ts eof (nested p) where
  stepwise _ hI := .nested hI (hp.stepwise _ hI)
  ahead {s _ _} hs h hrest := by
    obtain ⟨hdepth, s₁, hinner, rfl⟩ := of_nested_ok h
    exact nested_of_ok (s := s.ahead ts eof) hdepth (hp.ahead (stable_plain.depth _ hs) hinner hrest)

theorem tokens : TokenClosed fun _ p => Firm ts eof p where
  pure := .pure
  bind := .bind
  peek := .peek
  advance := .advance

theorem commaListUntilParen (hp : Firm ts eof p) (hprogress : Progressive p) :
    Firm ts eof (commaListUntilParen p) := by
  refine (tokens.at? _).bind fun yes => ?_
  split
  · exact .pure _
  refine ⟨fun _ hI => .get_bind fun _ => .commaList hI (hp.stepwise _ hI) _, fun {s s' as} hs h hrest => ?_⟩
  -- the bound that leaves room for all tokens will do for those of the shorter row too
  have hample : Reader.commaList p s.rest.length s = Reader.commaList p (s.ahead ts eof).rest.length s := by
    have hlength : s.rest.length ≤ (s.ahead ts eof).rest.length := by simp [State.ahead]
    exact hprogress.commaList_ample hs.eof (left_le s) ((left_le s).trans hlength)
  exact (tokens.commaList hp _).ahead hs (hample ▸ h) hrest

end Firm

theorem firm_closed (ts : List Token) (eof : Token) : DeepClosed fun _ p => Firm ts eof p where
  toTokenClosed := Firm.tokens
  giveUp _ := .giveUp _
  nested := .nested
  commaListUntilParen := .commaListUntilParen
  finish _ _ := ⟨fun _ _ => .get_bind fun _ => .pure _, fun _ h _ => by cases h; rfl⟩
  deepen := .deepen

/-! ### Statements with more tokens behind -/

namespace Settled

theorem pure (a : α) : Settled ts eof (pure a) where
  stepwise _ _ := .pure a
  ahead _ h _ := by
    cases h
    rfl

theorem finish (start : Span) (stmt : Span → Stmt) :
    Settled ts eof (do return stmt ((← get).spanFrom start)) where
  stepwise _ _ := .get_bind fun _ => .pure _
  ahead _ h _ := by
    cases h
    rfl

theorem bind {f : α → Reader β} (hp : Settled ts eof p) (hf : ∀ a, Settled ts eof (f a)) :
    Settled ts eof (p >>= f) where
  stepwise := hp.stepwise.bind fun a => (hf a).stepwise
  ahead hs h hquiet := by
    obtain ⟨a, s₁, hfirst, hthen⟩ := of_bind_ok h
    obtain ⟨hquiet₁, hquiet₂⟩ := (hp.stepwise.grows hfirst).quiet ((hf a).stepwise.grows hthen) hquiet
    rw [bind_of_ok (hp.ahead hs hfirst hquiet₁)]
    exact (hf a).ahead (hp.stepwise.plain hs hfirst) hthen hquiet₂

theorem map (f : α → β) (hp : Settled ts eof p) : Settled ts eof (f <$> p) := by
  rw [← bind_pure_comp]
  exact hp.bind fun a => .pure (f a)

/-- An optional token that is missing at the end is not the first of those behind. -/
theorem eat {k : Token.Kind} (hk : k ≠ .eof) (hhead : (ts.headD eof).kind ≠ k) : Settled ts eof (eat k) where
  stepwise _ hI := .eat hI k
  ahead {s s' yes} hs h _ := by
    by_cases hrest : s.rest = []
    · have hmissing : s.peek.kind ≠ k := hs.peek_of_nil hrest ▸ hk.symm
      have hbehind : (s.ahead ts eof).peek.kind ≠ k := by rwa [State.peek, State.ahead, hrest]
      rw [eat_missing hmissing] at h
      cases h
      exact eat_missing hbehind
    · by_cases hpeek : s.peek.kind = k
      · rw [eat_next hpeek] at h
        cases h
        rw [eat_next (by rwa [State.peek_ahead ts eof hrest]), hs.advance_ahead ts eof hrest]
      · rw [eat_missing hpeek] at h
        cases h
        exact eat_missing (by rwa [State.peek_ahead ts eof hrest])

end Settled

namespace Ending

/-- A reader of an expression, and then a token of the statement. -/
theorem firm_bind {f : α → Reader β} (hp : Firm ts eof p) (hf : ∀ a, Ending ts eof (f a)) :
    Ending ts eof (p >>= f) where
  stepwise := hp.stepwise.bind fun a => (hf a).stepwise
  ahead hs h hquiet := by
    obtain ⟨a, s₁, hfirst, hthen⟩ := of_bind_ok h
    have hs₁ := hp.stepwise.plain hs hfirst
    have hquiet₂ := ((hp.stepwise.grows hfirst).quiet ((hf a).stepwise.grows hthen) hquiet).2
    rw [bind_of_ok (hp.ahead hs hfirst ((hf a).needs hs₁ hthen))]
    exact (hf a).ahead hs₁ hthen hquiet₂
  needs hs h := by
    obtain ⟨a, s₁, hfirst, hthen⟩ := of_bind_ok h
    exact hp.stepwise.rest_ne_nil hfirst ((hf a).needs (hp.stepwise.plain hs hfirst) hthen)

theorem bind {f : α → Reader β} (hp : Ending ts eof p) (hf : ∀ a, Settled ts eof (f a)) :
    Ending ts eof (p >>= f) where
  toSettled := hp.toSettled.bind hf
  needs hs h := by
    obtain ⟨a, s₁, hfirst, -⟩ := of_bind_ok h
    exact hp.needs hs hfirst

theorem nested (hp : Ending ts eof p) : Ending ts eof (nested p) where
  stepwise _ hI := .nested hI (hp.stepwise _ hI)
  ahead {s _ _} hs h hquiet := by
    obtain ⟨hdepth, s₁, hinner, rfl⟩ := of_nested_ok h
    exact nested_of_ok (s := s.ahead ts eof) hdepth (hp.ahead (stable_plain.depth _ hs) hinner hquiet)
  needs {s _ _} hs h := by
    obtain ⟨-, s₁, hinner, -⟩ := of_nested_ok h
    have hrest := hp.needs (stable_plain.depth (s.depth + 1) hs) hinner
    exact hrest

theorem giveUpHere (f : Token → Fault) : Ending ts eof (giveUpHere f : Reader α) where
  stepwise _ hI := .giveUpHere hI f
  ahead _ h _ := nomatch h
  needs _ h := nomatch h

theorem expect {k : Token.Kind} (hk : k ≠ .eof) (f : Token → Fault) : Ending ts eof (expect k f) := by
  have htaken {s s' : State} {t : Token} (h : Reader.expect k f s = .ok t s') :
      s.peek.kind = k ∧ t = s.peek ∧ s' = s.advance := by
    by_cases hpeek : s.peek.kind = k
    · rw [expect_next hpeek] at h
      cases h
      exact ⟨hpeek, rfl, rfl⟩
    · rw [expect_missing hpeek] at h
      exact nomatch h
  refine ⟨⟨fun _ hI => .expect hI k f, fun {s s' t} hs h _ => ?_⟩, fun hs h => ?_⟩
  · obtain ⟨hpeek, rfl, rfl⟩ := htaken h
    have hrest : s.rest ≠ [] := hs.rest_ne_nil (hpeek ▸ hk)
    rw [expect_next (by rwa [State.peek_ahead ts eof hrest]), State.peek_ahead ts eof hrest,
      hs.advance_ahead ts eof hrest]
  · obtain ⟨hpeek, -, -⟩ := htaken h
    exact hs.rest_ne_nil (hpeek ▸ hk)

end Ending

/-! ### Repetitions with more tokens behind -/

/-- A reader that does not give up without a report. -/
def Loud (p : Reader α) : Prop :=
  ∀ s, s.eof.kind = .eof → Ends p s (fun _ _ => True) fun _ s' => s.diagnostics.size < s'.diagnostics.size

/-- Where nothing has been reported, there was nothing to recover from. -/
theorem Loud.ok_of_quiet (hp : Loud p) (heof : s.eof.kind = .eof)
    (hquiet : (recovering p s).2.diagnostics = s.diagnostics) :
    ∃ a, p s = .ok a (recovering p s).2 ∧ (recovering p s).1 = some a := by
  cases hend : p s with
  | ok a s₁ => exact ⟨a, by rw [recovering_ok hend], by rw [recovering_ok hend]⟩
  | error e s₁ =>
    have hloud := (ends_of_error hend).1 (hp s heof)
    have hlater : Extends s₁ (recovering p s).2 := by
      have hbound := synchronize_extends s₁
      rw [recovering_error hend]
      dsimp only
      split
      · exact hbound.trans (advance_extends _)
      · exact hbound
    have hsize := hlater.size_le
    rw [hquiet] at hsize
    omega

/-- If nothing is reported, a repetition first does the same with `ts` behind, and goes on from where it stopped. -/
theorem many_ahead (hp : Ending ts eof p) (hprogress : Progressive p) (hloud : Loud p) (heof : eof.kind = .eof)
    {stop : Token.Kind → Bool} (hstop : stop .eof) {most : Nat} {items : List α} (hs : Plain s)
    (h : many stop p most s = (items, s')) (hquiet : s'.diagnostics = s.diagnostics)
    (hmost : s.rest.length ≤ most) {a b : Nat} (ha : (s.ahead ts eof).rest.length ≤ a)
    (hb : (s'.ahead ts eof).rest.length ≤ b) :
    many stop p a (s.ahead ts eof) =
      (items ++ (many stop p b (s'.ahead ts eof)).1, (many stop p b (s'.ahead ts eof)).2) := by
  have hbounds {s : State} {a : Nat} (ha : (s.ahead ts eof).rest.length ≤ a)
      (hb : (s.ahead ts eof).rest.length ≤ b) :
      many stop p a (s.ahead ts eof) = many stop p b (s.ahead ts eof) :=
    (hprogress.many_ample hstop heof ((left_le _).trans ha) ((left_le _).trans hb)).1
  induction most generalizing s items a with
  | zero =>
    cases h
    exact hbounds ha hb
  | succ most ih =>
    rw [many] at h
    split at h
    · cases h
      exact hbounds ha hb
    next hend =>
    have hpeek : s.peek.kind ≠ .eof := fun heof => hend (heof ▸ hstop)
    have hrest : s.rest ≠ [] := hs.rest_ne_nil hpeek
    obtain ⟨t, us, hgained⟩ := hprogress.recovering hs.eof hpeek
    have hs₁ := Maintains.recovering stable_plain (hp.stepwise _ stable_plain) hs
    have hfirst := Maintains.recovering (stable_extends s) (hp.stepwise _ (stable_extends s)) (.refl s)
    have hread := hloud.ok_of_quiet hs.eof (s := s)
    generalize recovering p s = r at *
    obtain ⟨found, s₁⟩ := r
    dsimp only at *
    have hlater := Maintains.many (stable_extends s₁) stop (hp.stepwise _ (stable_extends s₁)) most (.refl s₁)
    cases hothers : many stop p most s₁ with
    | mk others last =>
      rw [hothers] at h hlater
      obtain ⟨rfl, rfl⟩ := Prod.mk.inj h
      obtain ⟨hquiet₁, hquiet₂⟩ := hfirst.quiet hlater hquiet
      obtain ⟨x, hx, rfl⟩ := hread hquiet₁
      have hlength := hgained.length
      rw [List.length_cons] at hlength
      have hnext : (s.ahead ts eof).rest.length = us.length + 1 + (s₁.ahead ts eof).rest.length := by
        simp only [State.ahead, List.length_append]
        omega
      obtain ⟨a, rfl⟩ : ∃ a', a = a' + 1 := ⟨a - 1, by omega⟩
      have hgoesOn := ih hs₁ hothers hquiet₂ (by omega) (a := a) (by omega)
      rw [many, if_neg (by rwa [State.peek_ahead ts eof hrest]), recovering_ok (hp.ahead hs hx hquiet₁)]
      dsimp only
      rw [hgoesOn]
      rfl

/-- The same of a repetition that stops before the last token. -/
theorem manyUntil_ahead (hp : Ending ts eof p) (hprogress : Progressive p) (hloud : Loud p) (heof : eof.kind = .eof)
    {stop : Token.Kind → Bool} (hstop : stop .eof) {items : List α} (hs : Plain s)
    (h : manyUntil stop p s = (items, s')) (hquiet : s'.diagnostics = s.diagnostics) (hrest : s'.rest ≠ [])
    (hlast : stop s'.peek.kind) : manyUntil stop p (s.ahead ts eof) = (items, s'.ahead ts eof) := by
  have hgoesOn := many_ahead hp hprogress hloud heof hstop hs h hquiet le_rfl le_rfl le_rfl
  have hstopped (most : Nat) : many stop p most (s'.ahead ts eof) = ([], s'.ahead ts eof) :=
    many_stopped (by rwa [State.peek_ahead ts eof hrest]) most
  rwa [hstopped, List.append_nil] at hgoesOn

end Reader

open Reader

namespace Stmt

variable {ts : List Token} {eof : Token} {n : Nat} {stmt : Reader Stmt}

theorem read_loud (n : Nat) : Loud (read n) := by
  intro s heof
  refine (read_accounts (s.depth = 0) n s heof (by simp)).mono (fun _ _ _ => trivial) fun _ s' h => ?_
  obtain ⟨ds, hds, hreported⟩ := h.reported
  have hsize := congrArg List.length hds
  have hcount := hreported.length_eq
  rw [List.length_append] at hsize hcount
  rw [List.length_singleton] at hcount
  simp only [Array.length_toList] at hsize
  omega

/-! ### Blocks and functions -/

theorem readBlock_run {s s₁ s₂ : Reader.State} {opening : Token} {body : List Stmt}
    (hopening : expect .lbrace (.unexpected "'\x7b'") s = .ok opening s₁)
    (hbody : manyUntil endsBlock stmt s₁ = (body, s₂)) :
    readBlock stmt s = .ok (body, opening.span.join s₂.peek.span)
      (if s₂.peek.kind = .rbrace then s₂.advance else s₂.report .unclosedBrace opening.span) := by
  have hmany : (modifyGet (manyUntil endsBlock stmt) : Reader (List Stmt)) s₁ = .ok body s₂ := by
    show EStateM.Result.ok (manyUntil endsBlock stmt s₁).1 (manyUntil endsBlock stmt s₁).2 = _
    rw [hbody]
  rw [readBlock, bind_of_ok hopening, bind_of_ok hmany]
  by_cases hclosed : s₂.peek.kind = .rbrace
  · have hat : at? .rbrace s₂ = .ok true s₂ := congrArg (EStateM.Result.ok · s₂) (decide_eq_true hclosed)
    rw [bind_of_ok hat, if_pos hclosed]
    rfl
  · have hat : at? .rbrace s₂ = .ok false s₂ := congrArg (EStateM.Result.ok · s₂) (decide_eq_false hclosed)
    rw [bind_of_ok hat, if_neg hclosed]
    rfl

theorem readBlock_ending (hstmt : Ending ts eof stmt) (hprogress : Progressive stmt) (hloud : Loud stmt)
    (heof : eof.kind = .eof) : Ending ts eof (readBlock stmt) := by
  have hbrace : Ending ts eof (expect .lbrace (.unexpected "'\x7b'")) := .expect (by decide) _
  refine ⟨⟨fun _ hI => readBlock_maintains hI (hstmt.stepwise _ hI), fun {s s' block} hs h hquiet => ?_⟩,
    fun hs h => ?_⟩
  · obtain ⟨opening, s₁, hopening, -⟩ := of_bind_ok h
    cases hbody : manyUntil endsBlock stmt s₁ with
    | mk body s₂ =>
      have hs₁ := hbrace.stepwise.plain hs hopening
      have hs₂ := hstmt.stepwise.manyUntil stable_plain hbody hs₁
      have hfirst := hbrace.stepwise.grows hopening
      have hlater := hstmt.stepwise.manyUntil (stable_extends s₁) hbody (.refl s₁)
      rw [readBlock_run hopening hbody] at h
      cases h
      split at hquiet
      · next hclosed =>
        rw [advance_diagnostics] at hquiet
        obtain ⟨hquiet₁, hquiet₂⟩ := hfirst.quiet hlater hquiet
        have hrest : s₂.rest ≠ [] := hs₂.rest_ne_nil (by simp [hclosed])
        have hpeek := State.peek_ahead ts eof hrest
        have hbehind := manyUntil_ahead hstmt hprogress hloud heof rfl hs₁ hbody hquiet₂ hrest (by rw [hclosed]; rfl)
        rw [readBlock_run (hbrace.ahead hs hopening hquiet₁) hbehind, hpeek, if_pos hclosed, if_pos hclosed,
          hs₂.advance_ahead ts eof hrest]
      · -- a block that is left open is reported
        exact absurd hquiet ((hfirst.trans hlater).report_ne _ _)
  · obtain ⟨opening, s₁, hopening, -⟩ := of_bind_ok h
    exact hbrace.needs hs hopening

theorem readFunction_ending (hstmt : Ending ts eof stmt) (hprogress : Progressive stmt) (hloud : Loud stmt)
    (heof : eof.kind = .eof) : Ending ts eof (readFunction stmt) := by
  have hfirm := (firm_closed ts eof).toStepClosed
  refine .firm_bind hfirm.advance fun start => .firm_bind (Ident.read_closed hfirm _) fun name => ?_
  refine .firm_bind (hfirm.expect _ fun _ => rfl) fun opening => ?_
  refine .firm_bind (hfirm.commaListUntilParen (Param.read_closed hfirm) Param.read_progressive) fun params => ?_
  refine .firm_bind (hfirm.expectClosing opening) fun _ => ?_
  refine (readBlock_ending hstmt hprogress hloud heof).bind fun block => ⟨fun _ hI => ?_, fun {s s' st} _ h hquiet => ?_⟩
  · refine .get_bind fun s => ?_
    dsimp only
    split
    · exact .bind (.report hI _ _) fun _ => .pure _
    · exact .pure _
  · have hget (s : Reader.State) : (get : Reader _) s = .ok s s := rfl
    dsimp only at h ⊢
    rw [bind_of_ok (hget _)] at h ⊢
    by_cases hdeep : 1 < s.depth
    · rw [if_pos hdeep] at h
      cases h
      exact absurd hquiet ((Extends.refl s).report_ne _ _)
    · rw [if_neg hdeep] at h
      cases h
      rw [if_neg (show ¬ 1 < (s.ahead ts eof).depth from hdeep)]
      rfl

/-! ### Statements -/

theorem readVarDecl_ending (n : Nat) (start : Span) (type : Option TypeName) :
    Ending ts eof (readVarDecl n start type) := by
  have hfirm := (firm_closed ts eof).toStepClosed
  have hexpr := Expr.read_closed (firm_closed ts eof) n
  have hrest (name : Ident) (init : Option Expr) : Ending ts eof (do
      let _ ← expectSemicolon "after variable declaration"
      return Stmt.varDecl name type init ((← get).spanFrom start)) :=
    (Ending.expect (by decide) _).bind fun _ => .finish start _
  refine .firm_bind (Ident.read_closed hfirm _) fun name => .firm_bind (hfirm.eat _) fun yes => ?_
  split
  · exact .firm_bind (hfirm.map _ hexpr) (hrest name)
  · exact .firm_bind (hfirm.pure _) (hrest name)

theorem readReturn_ending (n : Nat) (start : Span) : Ending ts eof (readReturn n start) := by
  have hfirm := (firm_closed ts eof).toStepClosed
  have hexpr := Expr.read_closed (firm_closed ts eof) n
  have hrest (value : Option Expr) : Ending ts eof (do
      let _ ← expectSemicolon "after return value"
      return Stmt.returnWith value ((← get).spanFrom start)) :=
    (Ending.expect (by decide) _).bind fun _ => .finish start _
  refine .firm_bind hfirm.advance fun _ => .firm_bind (hfirm.at? _) fun yes => ?_
  split
  · exact .firm_bind (hfirm.pure _) hrest
  · exact .firm_bind (hfirm.map _ hexpr) hrest

theorem readBranch_ending {start : Span} (hread : Ending ts eof (read n)) (helse : (ts.headD eof).kind ≠ .elseWord) :
    Ending ts eof (readBranch n start) := by
  have hfirm := (firm_closed ts eof).toStepClosed
  have hexpr := Expr.read_closed (firm_closed ts eof) n
  rw [readBranch]
  refine .firm_bind hfirm.advance fun _ => .firm_bind (readCondition_closed hfirm hexpr _) fun cond => ?_
  refine hread.bind fun thenStmt => (Settled.eat (by decide) helse).bind fun yes => ?_
  split
  · exact (hread.toSettled.map _).bind fun _ => .finish start _
  · exact (Settled.pure _).bind fun _ => .finish start _

theorem readInner_ending (hread : Ending ts eof (read n)) (heof : eof.kind = .eof)
    (helse : (ts.headD eof).kind ≠ .elseWord) : Ending ts eof (readInner n) := by
  have hfirm := (firm_closed ts eof).toStepClosed
  have hexpr := Expr.read_closed (firm_closed ts eof) n
  have hsemicolon (context : String) (stmt : Span → Stmt) (start : Span) : Ending ts eof (do
      let _ ← expectSemicolon context
      return stmt ((← get).spanFrom start)) :=
    (Ending.expect (by decide) _).bind fun _ => .finish start stmt
  rw [readInner]
  refine .firm_bind hfirm.peek fun token => .firm_bind hfirm.kind fun k => ?_
  dsimp only
  split
  case h_6 => exact readFunction_ending hread (read_progressive n) (read_loud n) heof
  case h_7 => exact readBranch_ending hread helse
  case h_8 =>
    refine .firm_bind hfirm.advance fun _ => .firm_bind (readCondition_closed hfirm hexpr _) fun cond => ?_
    exact hread.bind fun body => .finish _ _
  case h_9 => exact (readBlock_ending hread (read_progressive n) (read_loud n) heof).bind fun _ => .pure _
  case h_10 => exact readReturn_ending n _
  case h_11 =>
    refine .firm_bind hfirm.advance fun _ => .firm_bind (readCondition_closed hfirm hexpr _) fun e => ?_
    exact hsemicolon _ _ _
  case h_12 | h_13 => exact .firm_bind hfirm.advance fun _ => hsemicolon _ _ _
  case h_14 => exact .giveUpHere _
  case h_15 => exact .firm_bind hexpr fun e => hsemicolon _ _ _
  all_goals exact .firm_bind hfirm.advance fun _ => readVarDecl_ending n _ _

/-- A statement that has been read is read the same way with more tokens behind, unless they begin with `else`. -/
theorem read_ending (heof : eof.kind = .eof) (helse : (ts.headD eof).kind ≠ .elseWord) (n : Nat) :
    Ending ts eof (read n) := by
  induction n with
  | zero =>
    rw [read]
    exact .giveUpHere _
  | succ n ih =>
    rw [read]
    exact .nested (readInner_ending ih heof helse)

end Stmt

end Scriptlet
