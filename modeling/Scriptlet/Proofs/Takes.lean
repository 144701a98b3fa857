import Scriptlet.Proofs.Reads

/-!
# Readers that read what they are given

`Takes s p ts P`: run from `s`, the reader `p` reads exactly the tokens `ts`, with a result that satisfies
`P`, or the nesting is too deep. The rules follow a reader over tokens that are known: `next s rest` is
what the reader sees after them. `MayTake` also lets the reader go on when the nesting is too deep, and
`TakesRow` is the same of a repetition with recovery.
-/

namespace Scriptlet.Reader

variable {α β : Type} {s s₁ : State} {t : Token} {ts us rest : List Token}

/-! ### States with known tokens -/

theorem ne_eof {k : Token.Kind} (h : t.kind = k) (hk : k ≠ .eof) : t.kind ≠ .eof := h ▸ hk

theorem read_cons (h : s.rest = t :: rest) (ht : t.kind ≠ .eof) : Read s [t] s.advance := by
  rw [advance_cons h ht]
  exact ⟨h, rfl, rfl⟩

theorem Read.rest_eq (hr : Read s ts s₁) (h : s.rest = ts ++ rest) : s₁.rest = rest :=
  List.append_cancel_left (hr.rest.symm.trans h)

theorem Read.of_depth {d : Nat} (h : Read { s with depth := d } ts s₁) : Read s ts s₁ :=
  ⟨h.rest, h.eof, h.diagnostics⟩

theorem advance_rest (h : s.rest = t :: rest) (ht : t.kind ≠ .eof) : s.advance.rest = rest :=
  (read_cons h ht).rest_eq h

/-- The kind of the first of the tokens that are left, in a text that ends with `s.eof`. -/
def next (s : State) (rest : List Token) : Token.Kind := (rest.headD s.eof).kind

theorem peek_kind (h : s.rest = rest) : s.peek.kind = next s rest := by
  rw [State.peek, h]; rfl

theorem next_append (ht : t ∈ ts.head?) : next s (ts ++ rest) = t.kind := by
  cases ts with
  | nil => exact nomatch ht
  | cons => cases ht; rfl

theorem Read.next_eq (hr : Read s ts s₁) (rest : List Token) : next s₁ rest = next s rest := by
  rw [next, next, hr.eof]

theorem next_depth (s : State) (d : Nat) (rest : List Token) :
    next { s with depth := d } rest = next s rest := rfl

/-- Only nesting that is too deep counts. -/
abbrev Deep : Code → Prop := (· = .nestingTooDeep)

/-- From `s`, the reader reads exactly `ts`, with a result that satisfies `P`, or the nesting is too
deep. -/
def Takes (s : State) (p : Reader α) (ts : List Token) (P : α → Prop) : Prop :=
  Reads Deep s p fun us a _ => us = ts ∧ P a

namespace Takes

variable {p : Reader α} {P : α → Prop}

theorem pure {a : α} (h : P a) : Takes s (pure a) [] P := Reads.pure ⟨rfl, h⟩

theorem bind {f : α → Reader β} {Q : β → Prop} (hp : Takes s p ts P)
    (hf : ∀ a s', Read s ts s' → P a → Takes s' (f a) us Q) : Takes s (p >>= f) (ts ++ us) Q := by
  refine Reads.bind hp fun ts' a s' hr ⟨hts, ha⟩ => ?_
  subst hts
  exact Reads.mono (hf a s' hr ha) fun us' b _ _ ⟨hus, hb⟩ => ⟨by rw [hus], hb⟩

theorem tooDeep : Takes s (tooDeep : Reader α) ts P := Reads.tooDeep

theorem deepen_bind {f : Unit → Reader α} (h : Takes { s with depth := s.depth + 1 } (f ()) ts P) :
    Takes s (deepen >>= f) ts P :=
  Reads.deepen_bind h

theorem nested (h : Takes { s with depth := s.depth + 1 } p ts P) : Takes s (nested p) ts P :=
  Reads.nested h

theorem advance_bind {f : Token → Reader α} (hrest : s.rest = t :: rest) (ht : t.kind ≠ .eof)
    (h : Takes s.advance (f t) ts P) : Takes s (advance >>= f) (t :: ts) P := by
  rw [Takes, Reads, ends_bind, ends_advance, peek_cons hrest]
  exact Reads.after (read_cons hrest ht) (Reads.mono h fun _ _ _ _ htaken => ⟨by rw [htaken.1]; rfl, htaken.2⟩)

theorem expect_bind {k : Token.Kind} {fault : Token → Fault} {f : Token → Reader α}
    (hrest : s.rest = t :: rest) (ht : t.kind = k) (hk : k ≠ .eof) (h : Takes s.advance (f t) ts P) :
    Takes s (expect k fault >>= f) (t :: ts) P := by
  have h' := advance_bind hrest (ht ▸ hk) h
  rw [Takes, Reads, ends_bind] at h' ⊢
  rw [ends_expect, peek_cons hrest, if_pos ht]
  rwa [ends_advance, peek_cons hrest] at h'

theorem get_bind {f : State → Reader α} (h : Takes s (f s) ts P) : Takes s (get >>= f) ts P :=
  Reads.get_bind h

theorem at_bind {k : Token.Kind} {f : Bool → Reader α} (hrest : s.rest = rest)
    (h : Takes s (f (decide (next s rest = k))) ts P) : Takes s (at? k >>= f) ts P := by
  rw [← peek_kind hrest] at h
  exact Reads.at_bind h

theorem kind_bind {f : Token.Kind → Reader α} (hrest : s.rest = rest) (h : Takes s (f (next s rest)) ts P) :
    Takes s (kind >>= f) ts P := by
  rw [← peek_kind hrest] at h
  exact Reads.kind_bind h

theorem peek_bind {f : Token → Reader α} (hrest : s.rest = t :: rest) (h : Takes s (f t) ts P) :
    Takes s (peek >>= f) ts P := by
  rw [← peek_cons hrest] at h
  exact Reads.peek_bind h

theorem eat_bind {k : Token.Kind} {f : Bool → Reader α} (hrest : s.rest = t :: rest) (ht : t.kind = k)
    (hk : k ≠ .eof) (h : Takes s.advance (f true) ts P) : Takes s (eat k >>= f) (t :: ts) P := by
  have h' := advance_bind hrest (f := fun _ => f true) (ht ▸ hk) h
  rw [Takes, Reads, ends_bind] at h' ⊢
  rw [ends_eat, peek_cons hrest, if_pos ht]
  rwa [ends_advance] at h'

theorem not_eat_bind {k : Token.Kind} {f : Bool → Reader α} (hrest : s.rest = rest)
    (hk : next s rest ≠ k) (h : Takes s (f false) ts P) : Takes s (eat k >>= f) ts P := by
  rw [Takes, Reads, ends_bind, ends_eat, peek_kind hrest, if_neg hk]
  exact h

theorem commaList_one {item : Reader α} {Q : List α → Prop} {more : Nat} (hitem : Takes s item ts P)
    (hrest : s.rest = ts ++ rest) (hnext : next s rest ≠ .comma) (hQ : ∀ a, P a → Q [a]) :
    Takes s (commaList item more) ts Q := by
  rw [← List.append_nil ts]
  cases more with
  | zero => exact hitem.bind fun a _ _ ha => .pure (hQ a ha)
  | succ more =>
    refine hitem.bind fun a s' hr ha => ?_
    exact .not_eat_bind (hr.rest_eq hrest) (by rwa [hr.next_eq]) (.pure (hQ a ha))

theorem commaList_more {item : Reader α} {Q R : List α → Prop} {comma : Token} {more : Nat}
    (hitem : Takes s item ts P) (hrest : s.rest = ts ++ comma :: rest) (hcomma : comma.kind = .comma)
    (hlist : ∀ s', Read s (ts ++ [comma]) s' → Takes s' (commaList item more) us Q)
    (hR : ∀ a as, P a → Q as → R (a :: as)) :
    Takes s (commaList item (more + 1)) (ts ++ comma :: us) R := by
  refine hitem.bind fun a s' hr ha => .eat_bind (hr.rest_eq hrest) hcomma nofun ?_
  rw [← List.append_nil us]
  refine (hlist _ (hr.trans (read_cons (hr.rest_eq hrest) (ne_eof hcomma nofun)))).bind fun as _ _ has => ?_
  exact .pure (hR a as ha has)

theorem noItems {item : Reader α} {P : List α → Prop} (hrest : s.rest = rest)
    (hnext : next s rest = .rparen) (h : P []) : Takes s (commaListUntilParen item) [] P := by
  refine .at_bind hrest ?_
  rw [hnext, if_pos (decide_eq_true rfl)]
  exact .pure h

theorem someItems {item : Reader α} {P : List α → Prop} (hrest : s.rest = ts ++ rest)
    (hhead : ∃ t ∈ ts.head?, t.kind ≠ .rparen)
    (h : ∀ more, ts.length ≤ more → Takes s (commaList item more) ts P) :
    Takes s (commaListUntilParen item) ts P := by
  obtain ⟨t, ht, hk⟩ := hhead
  refine .at_bind hrest ?_
  rw [next_append ht, if_neg (by simpa using hk)]
  refine .get_bind (h _ ?_)
  simp only [hrest, List.length_append]
  exact Nat.le_add_right ..

end Takes

/-! ### Reports without giving up -/

variable {p : Reader α} {P : α → Prop}

/-- Like `Takes`, but the reader may go on when the nesting is too deep. -/
def MayTake (s : State) (p : Reader α) (ts : List Token) (P : α → Prop) : Prop :=
  MayRead Deep s p fun us a _ => us = ts ∧ P a

theorem Takes.mayTake (h : Takes s p ts P) : MayTake s p ts P := Reads.mayRead h

namespace MayTake

theorem of_takes_bind {f : α → Reader β} {Q : β → Prop} (hp : Takes s p ts P)
    (hf : ∀ a s', Read s ts s' → P a → MayTake s' (f a) us Q) : MayTake s (p >>= f) (ts ++ us) Q := by
  refine MayRead.of_reads_bind hp fun ts' a s' hr ⟨hts, ha⟩ => ?_
  subst hts
  exact MayRead.mono (hf a s' hr ha) fun us' b _ _ ⟨hus, hb⟩ => ⟨by rw [hus], hb⟩

theorem bind {f : α → Reader β} {Q : β → Prop} (hp : MayTake s p ts P)
    (hf : ∀ a s', Read s ts s' → P a → MayTake s' (f a) us Q)
    (hgrows : ∀ a s', Extends s s' → Grows s' (f a)) : MayTake s (p >>= f) (ts ++ us) Q := by
  refine MayRead.bind hp (fun ts' a s' hr ⟨hts, ha⟩ => ?_) hgrows
  subst hts
  exact MayRead.mono (hf a s' hr ha) fun us' b _ _ ⟨hus, hb⟩ => ⟨by rw [hus], hb⟩

/-- The same with the level of nesting, if the first reader keeps it. -/
theorem bind_level {f : α → Reader β} {Q : β → Prop} (hp : MayTake s p ts P) (hlevel : Level s p)
    (hf : ∀ a s', Read s ts s' → s'.depth = s.depth → P a → MayTake s' (f a) us Q)
    (hgrows : ∀ a s', Extends s s' → Grows s' (f a)) : MayTake s (p >>= f) (ts ++ us) Q := by
  refine MayRead.bind (MayRead.and_level hp hlevel) (fun ts' a s' hr ⟨⟨hts, ha⟩, hd⟩ => ?_) hgrows
  subst hts
  exact MayRead.mono (hf a s' hr hd ha) fun us' b _ _ ⟨hus, hb⟩ => ⟨by rw [hus], hb⟩

theorem of_takes_bind_level {f : α → Reader β} {Q : β → Prop} (hp : Takes s p ts P) (hlevel : Level s p)
    (hf : ∀ a s', Read s ts s' → s'.depth = s.depth → P a → MayTake s' (f a) us Q) :
    MayTake s (p >>= f) (ts ++ us) Q := by
  refine MayRead.of_reads_bind (Reads.and_level hp hlevel) fun ts' a s' hr ⟨⟨hts, ha⟩, hd⟩ => ?_
  subst hts
  exact MayRead.mono (hf a s' hr hd ha) fun us' b _ _ ⟨hus, hb⟩ => ⟨by rw [hus], hb⟩

theorem advance_bind {f : Token → Reader α} (hrest : s.rest = t :: rest) (ht : t.kind ≠ .eof)
    (h : MayTake s.advance (f t) ts P) : MayTake s (advance >>= f) (t :: ts) P := by
  rw [MayTake, MayRead, ends_bind, ends_advance, peek_cons hrest]
  refine MayRead.after (read_cons hrest ht) (MayRead.mono h fun _ _ _ _ htaken => ?_)
  exact ⟨by rw [htaken.1]; rfl, htaken.2⟩

theorem expect_bind {k : Token.Kind} {fault : Token → Fault} {f : Token → Reader α}
    (hrest : s.rest = t :: rest) (ht : t.kind = k) (hk : k ≠ .eof) (h : MayTake s.advance (f t) ts P) :
    MayTake s (expect k fault >>= f) (t :: ts) P := by
  have h' := advance_bind hrest (ht ▸ hk) h
  rw [MayTake, MayRead, ends_bind] at h' ⊢
  rw [ends_expect, peek_cons hrest, if_pos ht]
  rwa [ends_advance, peek_cons hrest] at h'

theorem eat_bind {k : Token.Kind} {f : Bool → Reader α} (hrest : s.rest = t :: rest) (ht : t.kind = k)
    (hk : k ≠ .eof) (h : MayTake s.advance (f true) ts P) : MayTake s (eat k >>= f) (t :: ts) P := by
  have h' := advance_bind hrest (f := fun _ => f true) (ht ▸ hk) h
  rw [MayTake, MayRead, ends_bind] at h' ⊢
  rw [ends_eat, peek_cons hrest, if_pos ht]
  rwa [ends_advance] at h'

theorem pure {a : α} (h : P a) : MayTake s (pure a) [] P := (Takes.pure h).mayTake

theorem tooDeep : MayTake s (tooDeep : Reader α) ts P := Takes.tooDeep.mayTake

theorem nested (h : MayTake { s with depth := s.depth + 1 } p ts P) : MayTake s (nested p) ts P :=
  MayRead.nested h

end MayTake

/-! ### Rows -/

/-- Readers run one after the other with recovery read exactly `ts`, with results that satisfy `P`, or
the nesting is too deep. -/
def TakesRow (stop : Token.Kind → Bool) (p : Reader α) (most : Nat) (s : State) (ts : List Token)
    (P : List α → Prop) : Prop :=
  Noisy Deep s (many stop p most s).2 ∨
    Read s ts (many stop p most s).2 ∧ P (many stop p most s).1

variable {stop : Token.Kind → Bool} {most : Nat} {Q : List α → Prop}

theorem recovering_grows (h : Grows s p) : Extends s (recovering p s).2 := by
  unfold Grows Ends at h
  unfold recovering
  cases hp : p s with
  | ok a s' => rw [hp] at h; exact h
  | error e s' =>
    rw [hp] at h
    have hs : Extends s s'.synchronize := h.trans (synchronize_extends s')
    dsimp only
    split
    · exact hs.trans (advance_extends _)
    · exact hs

theorem many_grows (hp : ∀ s : State, s.eof.kind = .eof → Grows s p) (most : Nat) (s : State)
    (heof : s.eof.kind = .eof) : Extends s (many stop p most s).2 := by
  induction most generalizing s with
  | zero => exact .refl s
  | succ most ih =>
    unfold many
    split
    · exact .refl s
    · have hext := recovering_grows (hp s heof)
      exact hext.trans (ih _ (hext.eof ▸ heof))

theorem takesRow_nil (hrest : s.rest = rest) (hstop : stop (next s rest) = true) (hQ : Q []) :
    TakesRow stop p most s [] Q := by
  rw [TakesRow, many_stopped (by rwa [peek_kind hrest])]
  exact .inr ⟨.refl s, hQ⟩

theorem takesRow_cons {R : List α → Prop} (hp : MayTake s p ts P) (hlevel : Level s p)
    (hgrows : ∀ s : State, s.eof.kind = .eof → Grows s p) (heof : s.eof.kind = .eof)
    (hrest : s.rest = ts ++ rest) (hgo : stop (next s (ts ++ rest)) = false)
    (hrow : ∀ s', Read s ts s' → s'.depth = s.depth → TakesRow stop p most s' us Q)
    (hR : ∀ a as, P a → Q as → R (a :: as)) : TakesRow stop p (most + 1) s (ts ++ us) R := by
  unfold TakesRow many
  rw [if_neg (by rw [peek_kind hrest, hgo]; exact Bool.false_ne_true)]
  have hdepth := recovering_depth hlevel
  have hfirst := recovering_reads hp
  generalize recovering p s = r at hdepth hfirst
  obtain hn | ⟨a, ts', ha, hr, rfl, hPa⟩ := hfirst
  · exact .inl (hn.trans_extends (many_grows hgrows most r.2 (hn.eof ▸ heof)))
  · obtain hn | ⟨hr', hQ⟩ := hrow r.2 hr hdepth
    · exact .inl (hr.extends.trans_noisy hn)
    · refine .inr ⟨hr.trans hr', ?_⟩
      dsimp only
      rw [ha]
      exact hR a _ hPa hQ

end Scriptlet.Reader
