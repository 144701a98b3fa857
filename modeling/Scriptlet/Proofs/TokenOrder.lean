import Scriptlet.Proofs.ReaderSteps

/-!
# Reading from left to right

The tokens of a text stand one after the other, and a reader passes over them in that order. `InOrder s`
says that the tokens left in the state `s` begin where the last one read has ended, or later; `After s s'`
that `s'` is reached from `s` by reading on; `StepsOver s t s'` that the token `t` has been read in between.
`Tracks s p Q` follows a reader step by step, whether it succeeds or gives up, and also through recovery,
where tokens are passed over.
-/

namespace Scriptlet.Reader

namespace State

/-- Where the next token begins. -/
def front (s : State) : Nat := s.peek.span.start.offset

/-- Where the last token of all ends. -/
def textEnd (s : State) : Nat := (s.rest.getLast?.map (·.span.stop)).getD s.lastStop

structure InOrder (s : State) : Prop where
  sorted : (s.rest ++ [s.eof]).Pairwise fun t u => t.span.stop ≤ u.span.start.offset
  proper : ∀ t ∈ s.rest, t.span.start.offset < t.span.stop
  kind : ∀ t ∈ s.rest, t.kind ≠ .eof
  eof : s.eof.kind = .eof
  point : s.eof.span.stop = s.eof.span.start.offset
  behind : s.lastStop ≤ s.front

end State

variable {α β : Type} {s s₁ s₂ : State} {t : Token} {p : Reader α} {Q : α → State → Prop}

/-- `s'` is reached from `s` by reading on. -/
structure After (s s' : State) : Prop extends Extends s s' where
  order : s'.InOrder
  moved : s'.rest = s.rest ∨ s'.rest.length < s.rest.length ∧ s.peek.span.stop ≤ s'.lastStop
  front : s.front ≤ s'.front
  stop : s.lastStop ≤ s'.lastStop
  textEnd : s'.textEnd = s.textEnd

/-- `s'` is reached from `s` by reading the token `t`. -/
structure StepsOver (s : State) (t : Token) (s' : State) : Prop extends After s s' where
  start : t.span.start.offset = s.front
  ended : s'.lastStop = t.span.stop
  proper : t.span.start.offset < t.span.stop
  shorter : s'.rest.length < s.rest.length

namespace After

theorem refl (h : s.InOrder) : After s s :=
  ⟨.refl s, h, .inl rfl, Nat.le_refl _, Nat.le_refl _, rfl⟩

theorem length (h : After s s₁) : s₁.rest.length ≤ s.rest.length := by
  rcases h.moved with hsame | ⟨hless, _⟩
  · exact Nat.le_of_eq (congrArg List.length hsame)
  · exact Nat.le_of_lt hless

theorem trans (h : After s s₁) (h' : After s₁ s₂) : After s s₂ := by
  refine ⟨h.toExtends.trans h'.toExtends, h'.order, ?_, Nat.le_trans h.front h'.front,
    Nat.le_trans h.stop h'.stop, h'.textEnd.trans h.textEnd⟩
  rcases h.moved with hsame | ⟨hless, hstop⟩
  · have hpeek : s₁.peek = s.peek := by rw [State.peek, State.peek, hsame, h.eof]
    rw [← hsame, ← hpeek]
    exact h'.moved
  · exact .inr ⟨Nat.lt_of_le_of_lt h'.length hless, Nat.le_trans hstop h'.stop⟩

theorem set_depth (h : After s s₁) (d : Nat) : After s { s₁ with depth := d } :=
  ⟨⟨h.eof, h.diagnostics⟩, ⟨h.order.sorted, h.order.proper, h.order.kind, h.order.eof, h.order.point,
    h.order.behind⟩, h.moved, h.front, h.stop, h.textEnd⟩

theorem of_depth {d : Nat} (h : After { s with depth := d } s₁) : After s s₁ :=
  ⟨⟨h.eof, h.diagnostics⟩, h.order, h.moved, h.front, h.stop, h.textEnd⟩

end After

namespace State.InOrder

theorem set_depth (h : s.InOrder) (d : Nat) : ({ s with depth := d } : State).InOrder :=
  ((After.refl h).set_depth d).order

theorem report (h : s.InOrder) (f : Fault) (span : Span) : After s (s.report f span) :=
  ⟨report_extends s f span, ⟨h.sorted, h.proper, h.kind, h.eof, h.point, h.behind⟩, .inl rfl,
    Nat.le_refl _, Nat.le_refl _, rfl⟩

/-- The end of input comes when no token is left. -/
theorem kind_peek (h : s.InOrder) : s.peek.kind = .eof ↔ s.rest = [] := by
  constructor
  · intro hkind
    cases hrest : s.rest with
    | nil => rfl
    | cons t ts =>
      rw [State.peek, hrest] at hkind
      exact absurd hkind (h.kind t (hrest ▸ List.mem_cons_self))
  · intro hrest
    rw [State.peek, hrest]
    exact h.eof

theorem front_nil (hrest : s.rest = []) : s.front = s.eof.span.start.offset := by
  rw [State.front, State.peek, hrest]
  rfl

theorem front_le (h : s.InOrder) : s.front ≤ s.peek.span.stop := by
  cases hrest : s.rest with
  | nil =>
    rw [front_nil hrest, State.peek, hrest]
    exact Nat.le_of_eq h.point.symm
  | cons t ts =>
    have hpeek : s.peek = t := by rw [State.peek, hrest]; rfl
    rw [State.front, hpeek]
    exact Nat.le_of_lt (h.proper t (hrest ▸ List.mem_cons_self))

/-- When no token is left, the last one has been read. -/
theorem lastStop_of_nil (hrest : s.rest = []) : s.lastStop = s.textEnd := by
  rw [State.textEnd, hrest]
  rfl

theorem stepsOver_cons {ts : List Token} (h : s.InOrder) (hrest : s.rest = t :: ts) : StepsOver s t s.advance := by
  have hadvance : s.advance = { s with rest := ts, lastStop := t.span.stop } :=
    advance_cons hrest (h.kind t (hrest ▸ List.mem_cons_self))
  have hpeek : s.peek = t := by rw [State.peek, hrest]; rfl
  have hfront : s.front = t.span.start.offset := by rw [State.front, hpeek]
  have hsorted := h.sorted
  rw [hrest, List.cons_append, List.pairwise_cons] at hsorted
  have hproper := h.proper t (hrest ▸ List.mem_cons_self)
  -- the next token, or the end of input, is behind this one
  have hnext : t.span.stop ≤ (ts.headD s.eof).span.start.offset := by
    refine hsorted.1 _ ?_
    cases ts <;> simp
  have hend : s.advance.textEnd = s.textEnd := by
    rw [hadvance, State.textEnd, State.textEnd, hrest, List.getLast?_cons]
    cases ts.getLast? <;> rfl
  have hbehind := h.behind
  rw [hadvance] at hend ⊢
  have hless : ts.length < s.rest.length := by simp [hrest]
  refine ⟨⟨⟨rfl, List.prefix_rfl⟩, ⟨hsorted.2, ?_, ?_, h.eof, h.point, hnext⟩, .inr ⟨hless, ?_⟩, ?_, ?_, hend⟩,
    ?_, rfl, hproper, hless⟩
  · exact fun u hu => h.proper u (hrest ▸ List.mem_cons_of_mem t hu)
  · exact fun u hu => h.kind u (hrest ▸ List.mem_cons_of_mem t hu)
  · exact Nat.le_of_eq (congrArg (·.span.stop) hpeek)
  · show s.front ≤ (ts.headD s.eof).span.start.offset
    omega
  · show s.lastStop ≤ t.span.stop
    omega
  · exact hfront.symm

/-- A token that is not the end of input can be read. -/
theorem stepsOver (h : s.InOrder) (hkind : s.peek.kind ≠ .eof) : StepsOver s s.peek s.advance := by
  cases hrest : s.rest with
  | nil => exact absurd (h.kind_peek.2 hrest) hkind
  | cons t ts =>
    have hpeek : s.peek = t := by rw [State.peek, hrest]; rfl
    rw [hpeek]
    exact h.stepsOver_cons hrest

/-- When tokens have been read, the first of them was the next one. -/
theorem peek_read (h : s.InOrder) (hafter : After s s₁) (hless : s₁.rest.length < s.rest.length) :
    s.peek.span.start.offset < s.peek.span.stop ∧ s.peek.span.stop ≤ s₁.lastStop := by
  have hrest : s.rest ≠ [] := fun hnil => by simp [hnil] at hless
  refine ⟨(h.stepsOver (mt h.kind_peek.1 hrest)).proper, ?_⟩
  rcases hafter.moved with hsame | ⟨_, hstop⟩
  · exact absurd (congrArg List.length hsame) (Nat.ne_of_lt hless)
  · exact hstop

theorem advance (h : s.InOrder) : After s s.advance := by
  rcases advance_cases s with hsame | ⟨t, ts, hrest, -, -⟩
  · rw [hsame]
    exact .refl h
  · exact (h.stepsOver_cons hrest).toAfter

theorem synchronize (h : s.InOrder) : After s s.synchronize :=
  synchronize_of_advance (fun _ hafter => hafter.trans hafter.order.advance) (.refl h)

end State.InOrder

/-! ### Readers -/

/-- From `s`, the reader reads on; if it succeeds, its result and the state after it satisfy `Q`. -/
def Tracks (s : State) (p : Reader α) (Q : α → State → Prop) : Prop :=
  Ends p s (fun a s' => After s s' ∧ Q a s') fun _ s' => After s s'

namespace Tracks

theorem mono {Q' : α → State → Prop} (h : Tracks s p Q) (hQ : ∀ a s', After s s' → Q a s' → Q' a s') :
    Tracks s p Q' :=
  Ends.mono_ok h fun a s' ⟨hafter, ha⟩ => ⟨hafter, hQ a s' hafter ha⟩

theorem pure {a : α} (h : s.InOrder) (ha : Q a s) : Tracks s (pure a : Reader α) Q := ⟨.refl h, ha⟩

/-- What is read on from a later state. -/
theorem after (hafter : After s s₁) (h : Tracks s₁ p Q) :
    Ends p s₁ (fun a s' => After s s' ∧ Q a s') fun _ s' => After s s' :=
  Ends.mono h (fun _ _ ⟨h', ha⟩ => ⟨hafter.trans h', ha⟩) fun _ _ h' => hafter.trans h'

theorem bind {f : α → Reader β} {Q' : β → State → Prop} (hp : Tracks s p Q)
    (hf : ∀ a s', After s s' → Q a s' → Tracks s' (f a) Q') : Tracks s (p >>= f) Q' := by
  rw [Tracks, ends_bind]
  exact Ends.mono_ok hp fun a s' ⟨hafter, ha⟩ => (hf a s' hafter ha).after hafter

theorem giveUp {f : Fault} {span : Span} (h : s.InOrder) : Tracks s (giveUp f span : Reader α) Q :=
  h.report f span

theorem giveUpHere {f : Token → Fault} (h : s.InOrder) : Tracks s (giveUpHere f : Reader α) Q :=
  h.report _ _

theorem tooDeep (h : s.InOrder) : Tracks s (tooDeep : Reader α) Q := h.report _ _

theorem get_bind {f : State → Reader α} (h : Tracks s (f s) Q) : Tracks s (get >>= f) Q := h

theorem peek_bind {f : Token → Reader α} (h : Tracks s (f s.peek) Q) : Tracks s (peek >>= f) Q := h

theorem kind_bind {f : Token.Kind → Reader α} (h : Tracks s (f s.peek.kind) Q) :
    Tracks s (kind >>= f) Q := h

theorem at_bind {k : Token.Kind} {f : Bool → Reader α} (h : Tracks s (f (decide (s.peek.kind = k))) Q) :
    Tracks s (at? k >>= f) Q := h

theorem advance_bind {f : Token → Reader α} (h : s.InOrder) (hkind : s.peek.kind ≠ .eof)
    (hf : ∀ s', StepsOver s s.peek s' → Tracks s' (f s.peek) Q) : Tracks s (advance >>= f) Q := by
  rw [Tracks, ends_bind, ends_advance]
  have hstep := h.stepsOver hkind
  exact (hf _ hstep).after hstep.toAfter

theorem expect_bind {k : Token.Kind} {fault : Token → Fault} {f : Token → Reader α} (h : s.InOrder)
    (hk : k ≠ .eof) (hf : ∀ t s', StepsOver s t s' → Tracks s' (f t) Q) :
    Tracks s (expect k fault >>= f) Q := by
  rw [Tracks, ends_bind, ends_expect]
  split
  · next hkind =>
    have hstep := h.stepsOver (hkind ▸ hk)
    exact (hf _ _ hstep).after hstep.toAfter
  · exact h.report _ _

theorem eat_bind {k : Token.Kind} {f : Bool → Reader α} (h : s.InOrder) (hk : k ≠ .eof)
    (hyes : ∀ s', After s s' → Tracks s' (f true) Q) (hno : Tracks s (f false) Q) :
    Tracks s (eat k >>= f) Q := by
  rw [Tracks, ends_bind, ends_eat]
  split
  · next hkind =>
    have hstep := h.stepsOver (hkind ▸ hk)
    exact (hyes _ hstep.toAfter).after hstep.toAfter
  · exact hno

theorem report_bind {f : Fault} {span : Span} {g : Unit → Reader α} (h : s.InOrder)
    (hg : ∀ s', s' = s.report f span → After s s' → Tracks s' (g ()) Q) :
    Tracks s (report f span >>= g) Q := by
  rw [Tracks, ends_bind, ends_report]
  exact (hg _ rfl (h.report f span)).after (h.report f span)

theorem deepen_bind {f : Unit → Reader α} (h : s.InOrder)
    (hf : ∀ s', After s s' → s'.rest = s.rest → Tracks s' (f ()) Q) : Tracks s (deepen >>= f) Q := by
  rw [Tracks, ends_bind, ends_deepen]
  split
  · exact h.report _ _
  · have hafter := (After.refl h).set_depth (s.depth + 1)
    exact (hf _ hafter rfl).after hafter

theorem nested (h : s.InOrder)
    (hp : ∀ s', s'.InOrder → s'.front = s.front → s'.rest = s.rest → Tracks s' p Q)
    (hQ : ∀ a s' d, s'.InOrder → Q a s' → Q a { s' with depth := d }) : Tracks s (nested p) Q := by
  rw [Tracks, ends_nested]
  split
  · exact h.report _ _
  · refine Ends.mono (hp _ (h.set_depth _) rfl rfl) (fun a s' ⟨hafter, ha⟩ => ?_) fun _ s' hafter => ?_
    · exact ⟨hafter.of_depth.set_depth s.depth, hQ a s' _ hafter.order ha⟩
    · exact hafter.of_depth.set_depth s.depth

section Lists

variable {P : Nat → α → Nat → Prop}
  (hmono : ∀ lo lo' a hi hi', lo' ≤ lo → hi ≤ hi' → P lo a hi → P lo' a hi')
  (hp : ∀ s : State, s.InOrder → Tracks s p fun a s' => P s.front a s'.lastStop)

include hmono hp

theorem commaList (more : Nat) (h : s.InOrder) :
    Tracks s (commaList p more) fun as s' => ∀ a ∈ as, P s.front a s'.lastStop := by
  induction more generalizing s with
  | zero => exact (hp s h).bind fun a s₁ h₁ ha => .pure h₁.order (by simpa using ha)
  | succ more ih =>
    refine (hp s h).bind fun a s₁ h₁ ha => ?_
    refine .eat_bind h₁.order nofun (fun s₂ h₂ => ?_) (.pure h₁.order (by simpa using ha))
    refine (ih h₂.order).bind fun as s₃ h₃ has => .pure h₃.order ?_
    refine List.forall_mem_cons.2 ⟨?_, fun b hb => ?_⟩
    · exact hmono _ _ a _ _ (Nat.le_refl _) (Nat.le_trans h₂.stop h₃.stop) ha
    · exact hmono _ _ b _ _ (Nat.le_trans h₁.front h₂.front) (Nat.le_refl _) (has b hb)

theorem commaListUntilParen (h : s.InOrder) :
    Tracks s (commaListUntilParen p) fun as s' => ∀ a ∈ as, P s.front a s'.lastStop := by
  refine .at_bind ?_
  split
  · exact .pure h nofun
  · exact .get_bind (Tracks.commaList hmono hp s.rest.length h)

end Lists

/-- A reader that reads at least one token when it succeeds does so too when it recovers. -/
theorem recovering (hp : Tracks s p fun a s' => s'.rest.length < s.rest.length ∧ Q a s')
    (hkind : s.rest ≠ []) : After s (recovering p s).2 ∧ (recovering p s).2.rest.length < s.rest.length ∧
      ∀ a ∈ (recovering p s).1, Q a (recovering p s).2 := by
  unfold Tracks Ends at hp
  unfold Reader.recovering
  cases hresult : p s with
  | ok a s₁ =>
    rw [hresult] at hp
    obtain ⟨hafter, hless, ha⟩ := hp
    exact ⟨hafter, hless, fun b hb => Option.some.inj hb ▸ ha⟩
  | error e s₁ =>
    rw [hresult] at hp
    have hsync : After s s₁.synchronize := hp.trans hp.order.synchronize
    dsimp only
    split
    · next hlength =>
      have hrest : s₁.synchronize.rest ≠ [] := by
        intro hnil
        rw [hnil] at hlength
        exact hkind (List.length_eq_zero_iff.1 hlength.symm)
      have hstep := hsync.order.stepsOver (mt hsync.order.kind_peek.1 hrest)
      exact ⟨hsync.trans hstep.toAfter, hlength ▸ hstep.shorter, nofun⟩
    · next hlength => exact ⟨hsync, Nat.lt_of_le_of_ne hsync.length hlength, nofun⟩

end Tracks

/-- `as` were read one after the other on the way from `s` to `s'`, each in the relation `P` to the
states around it. -/
inductive Row (P : State → α → State → Prop) : State → List α → State → Prop
  | done {s s'} : After s s' → Row P s [] s'
  | item {s s₀ s₁ s' a as} :
    After s s₀ → After s₀ s₁ → P s₀ a s₁ → Row P s₁ as s' → Row P s (a :: as) s'

namespace Row

variable {P : State → α → State → Prop} {as : List α}

theorem after (h : Row P s as s₁) : After s s₁ := by
  induction h with
  | done h => exact h
  | item h₀ h₁ _ _ ih => exact h₀.trans (h₁.trans ih)

theorem of_after (h : After s s₁) (hrow : Row P s₁ as s₂) : Row P s as s₂ := by
  cases hrow with
  | done h' => exact .done (h.trans h')
  | item h₀ h₁ ha hrow => exact .item (h.trans h₀) h₁ ha hrow

/-- With as many runs as tokens are left, reading goes on until it is told to stop. -/
theorem many (stop : Token.Kind → Bool) (hstop : stop .eof = true)
    (hp : ∀ s : State, s.InOrder → Tracks s p fun a s' => s'.rest.length < s.rest.length ∧ P s a s')
    (most : Nat) (h : s.InOrder) (hmost : s.rest.length ≤ most) :
    Row P s (many stop p most s).1 (many stop p most s).2 ∧
      stop (many stop p most s).2.peek.kind = true := by
  have hend (hrest : s.rest = []) : stop s.peek.kind = true := by rw [h.kind_peek.2 hrest, hstop]
  induction most generalizing s with
  | zero => exact ⟨.done (.refl h), hend (List.length_eq_zero_iff.1 (Nat.le_zero.1 hmost))⟩
  | succ most ih =>
    rw [Reader.many]
    split
    · next hkind => exact ⟨.done (.refl h), hkind⟩
    · next hkind =>
      obtain ⟨hafter, hless, hfound⟩ := (hp s h).recovering (mt hend hkind)
      obtain ⟨hrow, hlast⟩ := ih hafter.order (by omega) fun hrest => by
        rw [hafter.order.kind_peek.2 hrest, hstop]
      refine ⟨?_, hlast⟩
      cases hresult : (recovering p s).1 with
      | none =>
        simp only [hresult, Option.toList_none, List.nil_append]
        exact .of_after hafter hrow
      | some a =>
        simp only [hresult, Option.toList_some, List.cons_append, List.nil_append]
        exact .item (.refl h) hafter (hfound a hresult) hrow

end Row

end Scriptlet.Reader
