import Scriptlet.Proofs.ReaderSteps

/-!
# What a reader reads

`Reads bad s p D`: run from `s`, the reader `p` reads tokens that stand in the relation `D` to its
result, or it reports a fault with a `bad` code and gives up. `MayRead` also lets such a fault be reported
without giving up, as blocks do, which recover from the faults of their statements. Both follow a reader
step by step; a repetition with recovery reads a row of what its reader reads, or a fault has been
reported.
-/

namespace Scriptlet.Reader

variable {α β : Type} {s s₁ : State} {bad : Code → Prop}

/-- From `s`, the reader reads tokens that are related by `D` to its result and to the state after
them, or it reports a bad fault and gives up. -/
def Reads (bad : Code → Prop) (s : State) (p : Reader α) (D : List Token → α → State → Prop) : Prop :=
  Ends p s (fun a s' => ∃ ts, Read s ts s' ∧ D ts a s') fun _ s' => Noisy bad s s'

namespace Reads

variable {p : Reader α} {D : List Token → α → State → Prop}

theorem mono {D' : List Token → α → State → Prop} (h : Reads bad s p D)
    (hD : ∀ ts a s', Read s ts s' → D ts a s' → D' ts a s') : Reads bad s p D' :=
  Ends.mono_ok h fun a s' ⟨ts, hr, hd⟩ => ⟨ts, hr, hD ts a s' hr hd⟩

theorem pure {a : α} (h : D [] a s) : Reads bad s (pure a : Reader α) D :=
  ⟨[], .refl s, h⟩

/-- What is read after `ts` is read after what came before. -/
theorem after {ts : List Token} (hr : Read s ts s₁) (h : Reads bad s₁ p fun us => D (ts ++ us)) :
    Ends p s₁ (fun a s' => ∃ us, Read s us s' ∧ D us a s') fun _ s' => Noisy bad s s' := by
  refine Ends.mono h ?_ ?_
  · rintro a s' ⟨us, hr', hd⟩
    exact ⟨ts ++ us, hr.trans hr', hd⟩
  · exact fun _ _ hn => hr.extends.trans_noisy hn

theorem bind {f : α → Reader β} {D' : List Token → β → State → Prop} (hp : Reads bad s p D)
    (hf : ∀ ts a s', Read s ts s' → D ts a s' → Reads bad s' (f a) fun us => D' (ts ++ us)) :
    Reads bad s (p >>= f) D' := by
  rw [Reads, ends_bind]
  exact Ends.mono_ok hp fun a s' ⟨ts, hr, hd⟩ => (hf ts a s' hr hd).after hr

theorem map_bind {γ : Type} {f : α → β} {g : β → Reader γ} {D' : List Token → γ → State → Prop}
    (hp : Reads bad s p D)
    (hg : ∀ ts a s', Read s ts s' → D ts a s' → Reads bad s' (g (f a)) fun us => D' (ts ++ us)) :
    Reads bad s (f <$> p >>= g) D' := by
  rw [bind_map_left]
  exact hp.bind hg

theorem giveUp {f : Fault} {span : Span} (hbad : bad f.code := by trivial) :
    Reads bad s (giveUp f span) D :=
  ends_giveUp.2 (noisy_report hbad ..)

theorem giveUpHere {f : Token → Fault} (hbad : bad (f s.peek).code := by trivial) :
    Reads bad s (giveUpHere f) D :=
  ends_giveUpHere.2 (noisy_report hbad ..)

theorem tooDeep (hdeep : bad .nestingTooDeep := by trivial) : Reads bad s tooDeep D :=
  ends_tooDeep.2 (noisy_report hdeep ..)

theorem peek_bind {f : Token → Reader α} (h : Reads bad s (f s.peek) D) : Reads bad s (peek >>= f) D := h

theorem kind_bind {f : Token.Kind → Reader α} (h : Reads bad s (f s.peek.kind) D) :
    Reads bad s (kind >>= f) D := h

theorem at_bind {k : Token.Kind} {f : Bool → Reader α} (h : Reads bad s (f (decide (s.peek.kind = k))) D) :
    Reads bad s (at? k >>= f) D := h

theorem get_bind {f : State → Reader α} (h : Reads bad s (f s) D) : Reads bad s (get >>= f) D := h

theorem advance_bind {f : Token → Reader α} (heof : s.eof.kind = .eof) (hk : s.peek.kind ≠ .eof)
    (h : Reads bad s.advance (f s.peek) fun us => D (s.peek :: us)) : Reads bad s (advance >>= f) D := by
  rw [Reads, ends_bind, ends_advance]
  exact h.after (read_advance heof hk)

theorem expect_bind {k : Token.Kind} {fault : Token → Fault} {f : Token → Reader α}
    (heof : s.eof.kind = .eof) (hk : k ≠ .eof)
    (h : s.peek.kind = k → Reads bad s.advance (f s.peek) fun us => D (s.peek :: us))
    (hbad : s.peek.kind ≠ k → bad (fault s.peek).code := by exact fun _ => trivial) :
    Reads bad s (expect k fault >>= f) D := by
  rw [Reads, ends_bind, ends_expect]
  split
  · next hp => exact (h hp).after (read_advance heof (hp ▸ hk))
  · next hp => exact noisy_report (hbad hp) ..

theorem eat_bind {k : Token.Kind} {f : Bool → Reader α} (heof : s.eof.kind = .eof) (hk : k ≠ .eof)
    (h : s.peek.kind = k → Reads bad s.advance (f true) fun us => D (s.peek :: us))
    (h' : s.peek.kind ≠ k → Reads bad s (f false) D) : Reads bad s (eat k >>= f) D := by
  rw [Reads, ends_bind, ends_eat]
  split
  · next hp => exact (h hp).after (read_advance heof (hp ▸ hk))
  · next hp => exact h' hp

theorem deepen_bind {f : Unit → Reader α} (h : Reads bad { s with depth := s.depth + 1 } (f ()) D)
    (hdeep : bad .nestingTooDeep := by trivial) : Reads bad s (deepen >>= f) D := by
  rw [Reads, ends_bind, ends_deepen]
  split
  · exact noisy_report hdeep ..
  · have hr : Read s [] { s with depth := s.depth + 1 } := ⟨rfl, rfl, rfl⟩
    exact h.after hr

theorem nested (h : Reads bad { s with depth := s.depth + 1 } p fun ts a s' =>
      D ts a { s' with depth := s.depth }) (hdeep : bad .nestingTooDeep := by trivial) :
    Reads bad s (nested p) D := by
  rw [Reads, ends_nested]
  split
  · exact noisy_report hdeep ..
  · refine Ends.mono h ?_ ?_
    · rintro a s' ⟨ts, hr, hd⟩
      exact ⟨ts, hr.set_depth, hd⟩
    · exact fun _ s' hn => hn.set_depth

theorem commaList {item : Reader α} {One : List Token → α → Prop} {Row : List Token → List α → Prop}
    (hitem : ∀ s : State, s.eof.kind = .eof → Reads bad s item fun ts a _ => One ts a)
    (hone : ∀ {ts a}, One ts a → Row ts [a])
    (hmore : ∀ {ts us a as} {comma : Token}, One ts a → comma.kind = .comma → Row us as →
      Row (ts ++ comma :: us) (a :: as)) (more : Nat) (s : State) (heof : s.eof.kind = .eof) :
    Reads bad s (commaList item more) fun ts as _ => Row ts as := by
  induction more generalizing s with
  | zero => exact (hitem s heof).bind fun ts a s' _ ha => .pure (by simpa using hone ha)
  | succ more ih =>
    refine (hitem s heof).bind fun ts a s' hr ha => ?_
    have heof' : s'.eof.kind = .eof := hr.eof ▸ heof
    refine eat_bind heof' nofun (fun hk => ?_) fun _ => .pure (by simpa using hone ha)
    refine (ih s'.advance (by simpa using heof')).bind fun us as _ _ has => .pure ?_
    simpa using hmore ha hk has

theorem commaListUntilParen {item : Reader α} {One : List Token → α → Prop}
    (Row : List Token → List α → Prop) {Opt : List Token → List α → Prop}
    (hitem : ∀ s : State, s.eof.kind = .eof → Reads bad s item fun ts a _ => One ts a)
    (hone : ∀ {ts a}, One ts a → Row ts [a])
    (hmore : ∀ {ts us a as} {comma : Token}, One ts a → comma.kind = .comma → Row us as →
      Row (ts ++ comma :: us) (a :: as))
    (hnone : Opt [] []) (hsome : ∀ {ts as}, Row ts as → Opt ts as) (s : State)
    (heof : s.eof.kind = .eof) :
    Reads bad s (commaListUntilParen item) fun ts as _ => Opt ts as := by
  refine at_bind ?_
  split
  · exact .pure hnone
  · exact get_bind ((commaList hitem hone hmore _ s heof).mono fun _ _ _ _ h => hsome h)

end Reads

/-! ### Reports without giving up -/

/-- Like `Reads`, but something may have been reported although the reader has not given up. -/
def MayRead (bad : Code → Prop) (s : State) (p : Reader α) (D : List Token → α → State → Prop) : Prop :=
  Ends p s (fun a s' => Noisy bad s s' ∨ ∃ ts, Read s ts s' ∧ D ts a s') fun _ s' => Noisy bad s s'

/-- What has been reported stays reported. -/
def Grows (s : State) (p : Reader α) : Prop :=
  Ends p s (fun _ s' => Extends s s') fun _ s' => Extends s s'

/-- The level of nesting is the same afterwards. -/
def Level (s : State) (p : Reader α) : Prop :=
  Ends p s (fun _ s' => s'.depth = s.depth) fun _ s' => s'.depth = s.depth

variable {p : Reader α} {D : List Token → α → State → Prop}

theorem Reads.mayRead (h : Reads bad s p D) : MayRead bad s p D :=
  Ends.mono_ok h fun _ _ h => .inr h

theorem MayRead.grows (h : MayRead bad s p D) : Grows s p := by
  refine Ends.mono h ?_ fun _ _ hn => hn.toExtends
  rintro a s' (hn | ⟨ts, hr, -⟩)
  · exact hn.toExtends
  · exact hr.extends

namespace MayRead

theorem mono {D' : List Token → α → State → Prop} (h : MayRead bad s p D)
    (hD : ∀ ts a s', Read s ts s' → D ts a s' → D' ts a s') : MayRead bad s p D' :=
  Ends.mono_ok h fun a s' => Or.imp_right fun ⟨ts, hr, hd⟩ => ⟨ts, hr, hD ts a s' hr hd⟩

/-- What is read after `ts` is read after what came before. -/
theorem after {ts : List Token} (hr : Read s ts s₁) (h : MayRead bad s₁ p fun us => D (ts ++ us)) :
    Ends p s₁ (fun a s' => Noisy bad s s' ∨ ∃ us, Read s us s' ∧ D us a s') fun _ s' => Noisy bad s s' := by
  refine Ends.mono h ?_ fun _ _ hn => hr.extends.trans_noisy hn
  rintro a s' (hn | ⟨us, hr', hd⟩)
  · exact .inl (hr.extends.trans_noisy hn)
  · exact .inr ⟨ts ++ us, hr.trans hr', hd⟩

theorem bind {f : α → Reader β} {D' : List Token → β → State → Prop} (hp : MayRead bad s p D)
    (hf : ∀ ts a s', Read s ts s' → D ts a s' → MayRead bad s' (f a) fun us => D' (ts ++ us))
    (hgrows : ∀ a s', Extends s s' → Grows s' (f a)) : MayRead bad s (p >>= f) D' := by
  rw [MayRead, ends_bind]
  refine Ends.mono_ok hp ?_
  rintro a s' (hn | ⟨ts, hr, hd⟩)
  · exact Ends.mono (hgrows a s' hn.toExtends) (fun _ _ h => .inl (hn.trans_extends h))
      fun _ _ h => hn.trans_extends h
  · exact (hf ts a s' hr hd).after hr

theorem of_reads_bind {f : α → Reader β} {D' : List Token → β → State → Prop} (hp : Reads bad s p D)
    (hf : ∀ ts a s', Read s ts s' → D ts a s' → MayRead bad s' (f a) fun us => D' (ts ++ us)) :
    MayRead bad s (p >>= f) D' := by
  rw [MayRead, ends_bind]
  exact Ends.mono_ok hp fun a s' ⟨ts, hr, hd⟩ => (hf ts a s' hr hd).after hr

theorem advance_bind {f : Token → Reader α} (heof : s.eof.kind = .eof) (hk : s.peek.kind ≠ .eof)
    (h : MayRead bad s.advance (f s.peek) fun us => D (s.peek :: us)) : MayRead bad s (advance >>= f) D := by
  rw [MayRead, ends_bind, ends_advance]
  exact h.after (read_advance heof hk)

theorem expect_bind {k : Token.Kind} {fault : Token → Fault} {f : Token → Reader α}
    (heof : s.eof.kind = .eof) (hk : k ≠ .eof)
    (h : s.peek.kind = k → MayRead bad s.advance (f s.peek) fun us => D (s.peek :: us))
    (hbad : s.peek.kind ≠ k → bad (fault s.peek).code := by exact fun _ => trivial) :
    MayRead bad s (expect k fault >>= f) D := by
  rw [MayRead, ends_bind, ends_expect]
  split
  · next hp => exact (h hp).after (read_advance heof (hp ▸ hk))
  · next hp => exact noisy_report (hbad hp) ..

theorem nested (h : MayRead bad { s with depth := s.depth + 1 } p fun ts a s' =>
      D ts a { s' with depth := s.depth }) (hdeep : bad .nestingTooDeep := by trivial) :
    MayRead bad s (nested p) D := by
  rw [MayRead, ends_nested]
  split
  · exact noisy_report hdeep ..
  · refine Ends.mono h ?_ fun _ s' hn => hn.set_depth
    rintro a s' (hn | ⟨ts, hr, hd⟩)
    · exact .inl hn.set_depth
    · exact .inr ⟨ts, hr.set_depth, hd⟩

theorem peek_bind {f : Token → Reader α} (h : MayRead bad s (f s.peek) D) : MayRead bad s (peek >>= f) D := h

theorem kind_bind {f : Token.Kind → Reader α} (h : MayRead bad s (f s.peek.kind) D) :
    MayRead bad s (kind >>= f) D := h

end MayRead

theorem level_nested : Level s (nested p) := by
  rw [Level, ends_nested]
  split
  · rfl
  · unfold Ends
    split <;> rfl

theorem Reads.and_level (h : Reads bad s p D) (hl : Level s p) :
    Reads bad s p fun ts a s' => D ts a s' ∧ s'.depth = s.depth :=
  Ends.mono (Ends.and h hl) (fun _ _ ⟨⟨ts, hr, hd⟩, hl⟩ => ⟨ts, hr, hd, hl⟩) fun _ _ h => h.1

theorem MayRead.and_level (h : MayRead bad s p D) (hl : Level s p) :
    MayRead bad s p fun ts a s' => D ts a s' ∧ s'.depth = s.depth :=
  Ends.mono (Ends.and h hl)
    (fun _ _ ⟨h, hl⟩ => h.imp_right fun ⟨ts, hr, hd⟩ => ⟨ts, hr, hd, hl⟩) fun _ _ h => h.1

theorem Level.bind {β : Type} {f : α → Reader β} (h : Level s p)
    (hf : ∀ a s', s'.depth = s.depth → Level s' (f a)) : Level s (p >>= f) := by
  rw [Level, ends_bind]
  exact Ends.mono_ok h fun a s' hd => hd ▸ hf a s' hd

theorem level_commaList (h : ∀ s, Level s p) (more : Nat) (s : State) :
    Level s (commaList p more) := by
  induction more generalizing s with
  | zero => exact (h s).bind fun _ _ _ => rfl
  | succ more ih =>
    refine (h s).bind fun a s' _ => ?_
    have := ih s'.advance
    rw [Level, advance_depth] at this
    simp only [Level, ends_bind, ends_eat, ends_ite, ends_pure, if_true]
    split
    · exact this
    · simp

theorem level_commaListUntilParen (h : ∀ s, Level s p) (s : State) :
    Level s (commaListUntilParen p) := by
  rw [Level, commaListUntilParen, ends_bind, ends_at]
  split
  · rfl
  · exact level_commaList h s.rest.length s

/-! ### Recovery -/

theorem synchronize_extends (s : State) : Extends s s.synchronize := ⟨rfl, List.prefix_rfl⟩

theorem advance_diagnostics (s : State) : s.advance.diagnostics = s.diagnostics := by
  rcases advance_cases s with h | ⟨t, ts, -, -, h⟩ <;> rw [h]

theorem advance_extends (s : State) : Extends s s.advance :=
  ⟨advance_eof s, advance_diagnostics s ▸ List.prefix_rfl⟩

/-- A reader that is run with recovery has read something, or something has been reported. -/
theorem recovering_reads (h : MayRead bad s p D) :
    Noisy bad s (recovering p s).2 ∨ ∃ a ts, (recovering p s).1 = some a ∧
      Read s ts (recovering p s).2 ∧ D ts a (recovering p s).2 := by
  unfold MayRead Ends at h
  unfold recovering
  cases hp : p s with
  | ok a s' =>
    rw [hp] at h
    obtain hn | ⟨ts, hr, hd⟩ := h
    · exact .inl hn
    · exact .inr ⟨a, ts, rfl, hr, hd⟩
  | error e s' =>
    rw [hp] at h
    have hs : Noisy bad s s'.synchronize := h.trans_extends (synchronize_extends s')
    refine .inl ?_
    dsimp only
    split
    · exact hs.trans_extends (advance_extends _)
    · exact hs

theorem recovering_depth (h : Level s p) : (recovering p s).2.depth = s.depth := by
  unfold Level Ends at h
  unfold recovering
  cases hp : p s with
  | ok a s' => rw [hp] at h; exact h
  | error e s' =>
    rw [hp] at h
    dsimp only
    split
    · rw [advance_depth]; exact h
    · exact h

theorem many_depth (stop : Token.Kind → Bool) (h : ∀ s, Level s p) (most : Nat) (s : State) :
    (many stop p most s).2.depth = s.depth := by
  induction most generalizing s with
  | zero => rfl
  | succ most ih =>
    unfold many
    split
    · rfl
    · exact (ih _).trans (recovering_depth (h s))

/-- Readers run one after the other with recovery read a row, or something has been reported. -/
theorem many_reads (stop : Token.Kind → Bool) {d : Nat} {One : List Token → α → Prop}
    (Row : List Token → List α → Prop)
    (hp : ∀ s : State, s.eof.kind = .eof → s.depth = d → MayRead bad s p fun ts a _ => One ts a)
    (hlevel : ∀ s : State, Level s p) (hnil : Row [] [])
    (hcons : ∀ {ts us a as}, One ts a → Row us as → Row (ts ++ us) (a :: as))
    (hne : ∀ {ts a}, One ts a → ts ≠ []) (most : Nat) (s : State) (heof : s.eof.kind = .eof)
    (hd : s.depth = d) :
    Noisy bad s (many stop p most s).2 ∨
      ∃ ts, Read s ts (many stop p most s).2 ∧ Row ts (many stop p most s).1 ∧
        (stop (many stop p most s).2.peek.kind = true ∨ most ≤ ts.length) := by
  induction most generalizing s with
  | zero => exact .inr ⟨[], .refl s, hnil, .inr (Nat.le_refl 0)⟩
  | succ most ih =>
    unfold many
    split
    · next hstop => exact .inr ⟨[], .refl s, hnil, .inl hstop⟩
    · have hd' := (recovering_depth (hlevel s)).trans hd
      have hfirst := recovering_reads (hp s heof hd)
      generalize recovering p s = r at hd' hfirst
      have hext : Extends s r.2 := by
        obtain hn | ⟨_, _, _, hr, _⟩ := hfirst
        · exact hn.toExtends
        · exact hr.extends
      have hrest := ih r.2 (hext.eof ▸ heof) hd'
      dsimp only
      obtain hn | ⟨a, ts, ha, hr, hone⟩ := hfirst
      · refine .inl (hn.trans_extends ?_)
        obtain hn' | ⟨_, hr', _⟩ := hrest
        · exact hn'.toExtends
        · exact hr'.extends
      · obtain hn' | ⟨us, hr', hrow, hend⟩ := hrest
        · exact .inl (hext.trans_noisy hn')
        · refine .inr ⟨ts ++ us, hr.trans hr', ?_, hend.imp_right fun h => ?_⟩
          · rw [ha]
            exact hcons hone hrow
          · have := List.length_pos_iff.2 (hne hone)
            rw [List.length_append]
            omega

end Scriptlet.Reader
