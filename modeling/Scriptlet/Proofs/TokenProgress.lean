import Scriptlet.Proofs.ReaderInvariant

/-!
# Reading moves on

Readers go forward over tokens and stop before an end of input (`Moves`), wherever it stands. A statement that
is read takes at least one token, and so does one that is given up, since reading resumes further on
(`Progressive.recovering`). So a repetition comes to its end by itself, and the bound on its rounds does not
matter (`Progressive.many_ample`, `Progressive.commaList_ample`).
-/

namespace Scriptlet

namespace Reader

variable {α β : Type} {s s₁ s₂ : State} {ts us : List Token}

/-- How many tokens can be read. -/
def State.left (s : State) : Nat := (s.rest.takeWhile (·.kind ≠ .eof)).length

/-- `s'` comes from `s` by passing over `ts`, and none of these is an end of input. -/
structure Moves (s : State) (ts : List Token) (s' : State) : Prop where
  rest : s.rest = ts ++ s'.rest
  kinds : ∀ t ∈ ts, t.kind ≠ .eof
  eof : s'.eof = s.eof

namespace Moves

theorem refl (s : State) : Moves s [] s := ⟨rfl, List.forall_mem_nil _, rfl⟩

theorem trans (h : Moves s ts s₁) (h' : Moves s₁ us s₂) : Moves s (ts ++ us) s₂ :=
  ⟨by rw [h.rest, h'.rest, List.append_assoc], List.forall_mem_append.2 ⟨h.kinds, h'.kinds⟩, h'.eof.trans h.eof⟩

theorem left (h : Moves s ts s₁) : s.left = ts.length + s₁.left := by
  have hkinds : ∀ t ∈ ts, decide (t.kind ≠ .eof) = true := fun t ht => decide_eq_true (h.kinds t ht)
  rw [State.left, h.rest, List.takeWhile_append_of_pos hkinds, List.length_append]
  rfl

theorem length (h : Moves s ts s₁) : s.rest.length = ts.length + s₁.rest.length := by
  rw [h.rest, List.length_append]

theorem peek_eq (h : Moves s [] s₁) : s₁.peek = s.peek := by
  rw [State.peek, State.peek, h.rest, h.eof, List.nil_append]

end Moves

theorem moves_advance (heof : s.eof.kind = .eof) (h : s.peek.kind ≠ .eof) : Moves s [s.peek] s.advance := by
  have hread := read_advance heof h
  exact ⟨hread.rest, List.forall_mem_singleton.2 h, hread.eof⟩

/-- No step goes back or passes an end of input. -/
theorem stable_moves (s₀ : State) : Stable fun s => ∃ ts, Moves s₀ ts s := by
  have hadvance (s : State) (h : ∃ ts, Moves s₀ ts s) : ∃ ts, Moves s₀ ts s.advance := by
    obtain ⟨ts, hts⟩ := h
    rcases advance_cases s with hsame | ⟨t, us, hrest, ht, hnext⟩
    · exact ⟨ts, by rwa [hsame]⟩
    · refine ⟨ts ++ [t], hts.trans ?_⟩
      rw [hnext]
      exact ⟨hrest, List.forall_mem_singleton.2 ht, rfl⟩
  refine ⟨hadvance _, ?_, ?_, fun h => synchronize_of_advance hadvance h⟩
  · rintro s f span ⟨ts, hts⟩
    exact ⟨ts, hts.rest, hts.kinds, hts.eof⟩
  · rintro s d ⟨ts, hts⟩
    exact ⟨ts, hts.rest, hts.kinds, hts.eof⟩

/-- A reader that is made of steps. -/
def Stepwise (p : Reader α) : Prop := ∀ I, Stable I → Maintains I p

theorem Stepwise.moves {p : Reader α} (hp : Stepwise p) (s : State) :
    Ends p s (fun _ s' => ∃ ts, Moves s ts s') fun _ s' => ∃ ts, Moves s ts s' :=
  hp _ (stable_moves s) s ⟨[], .refl s⟩

/-- At least one token has been passed over since `s₀`. -/
def Gained (s₀ s : State) : Prop := ∃ t ts, Moves s₀ (t :: ts) s

theorem stable_gained (s₀ : State) : Stable (Gained s₀) := by
  have hlater {s s' : State} (h : Gained s₀ s) (h' : ∃ us, Moves s us s') : Gained s₀ s' := by
    obtain ⟨t, ts, hts⟩ := h
    obtain ⟨us, hus⟩ := h'
    exact ⟨t, ts ++ us, hts.trans hus⟩
  have hstart (s : State) : ∃ us, Moves s us s := ⟨[], .refl s⟩
  exact ⟨fun h => hlater h ((stable_moves _).advance (hstart _)),
    fun f span h => hlater h ((stable_moves _).report f span (hstart _)),
    fun d h => hlater h ((stable_moves _).depth d (hstart _)),
    fun h => hlater h ((stable_moves _).synchronize (hstart _))⟩

/-- From `s`, the reader takes at least one token if it succeeds. -/
def Gains (s : State) (p : Reader α) : Prop :=
  Ends p s (fun _ s' => Gained s s') fun _ _ => True

namespace Gains

variable {p : Reader α} {f : α → Reader β}

theorem giveUpHere (f : Token → Fault) : Gains s (giveUpHere f : Reader α) := trivial

theorem peek_bind {f : Token → Reader β} (h : Gains s (f s.peek)) : Gains s (peek >>= f) := h

theorem kind_bind {f : Token.Kind → Reader β} (h : Gains s (f s.peek.kind)) : Gains s (kind >>= f) := h

theorem bind (hp : Gains s p) (hf : ∀ a, Maintains (Gained s) (f a)) : Gains s (p >>= f) := by
  rw [Gains, ends_bind]
  exact Ends.mono_ok hp fun a s₁ hs₁ => (hf a s₁ hs₁).mono (fun _ _ h => h) fun _ _ _ => trivial

theorem goesOn {first : Reader β} (h : GoesOn (Gained s) first p) (hfirst : Gains s first) : Gains s p := by
  obtain ⟨f, rfl, hf⟩ := h
  exact hfirst.bind hf

theorem advance (heof : s.eof.kind = .eof) (h : s.peek.kind ≠ .eof) : Gains s advance :=
  ⟨s.peek, [], moves_advance heof h⟩

theorem expect {k : Token.Kind} (fault : Token → Fault) (heof : s.eof.kind = .eof) (hk : k ≠ .eof) :
    Gains s (expect k fault) := by
  rw [Gains, ends_expect]
  split
  · next hpeek => exact ⟨s.peek, [], moves_advance heof (hpeek ▸ hk)⟩
  · trivial

theorem tooDeep : Gains s (tooDeep : Reader α) := trivial

theorem nested (h : Gains { s with depth := s.depth + 1 } p) : Gains s (nested p) := by
  rw [Gains, ends_nested]
  split
  · trivial
  · refine Ends.mono h ?_ fun _ _ _ => trivial
    rintro a s₁ ⟨t, ts, hts⟩
    exact ⟨t, ts, hts.rest, hts.kinds, hts.eof⟩

end Gains

/-! ### Repetitions -/

theorem peek_of_left (heof : s.eof.kind = .eof) (h : s.left = 0) : s.peek.kind = .eof := by
  refine Decidable.byContradiction fun hpeek => ?_
  have hleft := (moves_advance heof hpeek).left
  rw [List.length_singleton] at hleft
  omega

theorem left_le (s : State) : s.left ≤ s.rest.length := (List.takeWhile_sublist _).length_le

/-- A reader that takes at least one token if it succeeds. -/
structure Progressive (p : Reader α) : Prop where
  stepwise : Stepwise p
  gains {s : State} (heof : s.eof.kind = .eof) : Gains s p

namespace Progressive

variable {p : Reader α}

/-- Also a reader that gives up is left behind by at least one token. -/
theorem recovering (hp : Progressive p) (heof : s.eof.kind = .eof) (hpeek : s.peek.kind ≠ .eof) :
    Gained s (recovering p s).2 := by
  cases hend : p s with
  | ok a s₁ =>
    rw [recovering_ok hend]
    exact (ends_of_ok hend).1 (hp.gains heof)
  | error e s₁ =>
    rw [recovering_error hend]
    obtain ⟨ts, hts⟩ := (stable_moves s).synchronize ((ends_of_error hend).1 (hp.stepwise.moves s))
    have hlength := hts.length
    cases ts with
    | nil =>
      rw [List.length_nil, Nat.zero_add] at hlength
      rw [if_pos hlength.symm]
      exact ⟨_, _, hts.trans (moves_advance (hts.eof ▸ heof) (hts.peek_eq ▸ hpeek))⟩
    | cons t ts =>
      rw [List.length_cons] at hlength
      rw [if_neg (by omega)]
      exact ⟨t, ts, hts⟩

/-- A bound on the runs that leaves room for every token does not matter: the last run is followed by a
token that stops them. -/
theorem many_ample (hp : Progressive p) {stop : Token.Kind → Bool} (hstop : stop .eof) {a b : Nat}
    (heof : s.eof.kind = .eof) (ha : s.left ≤ a) (hb : s.left ≤ b) :
    many stop p a s = many stop p b s ∧ stop (many stop p a s).2.peek.kind := by
  -- one run takes a token, so that the bound for the others leaves room for what is left
  induction a generalizing s b with
  | zero =>
    have hend : stop s.peek.kind := by rwa [peek_of_left heof (by omega)]
    rw [many_stopped hend, many_stopped hend]
    exact ⟨rfl, hend⟩
  | succ a ih =>
    by_cases hend : stop s.peek.kind
    · rw [many_stopped hend, many_stopped hend]
      exact ⟨rfl, hend⟩
    · obtain ⟨t, ts, hts⟩ := hp.recovering heof fun h => hend (h ▸ hstop)
      have hleft := hts.left
      rw [List.length_cons] at hleft
      obtain ⟨b, rfl⟩ : ∃ b', b = b' + 1 := ⟨b - 1, by omega⟩
      obtain ⟨hsame, hlast⟩ := ih (b := b) (hts.eof ▸ heof) (by omega) (by omega)
      rw [many, many, if_neg hend, if_neg hend]
      dsimp only
      rw [hsame] at hlast ⊢
      exact ⟨rfl, hlast⟩

theorem manyUntil_stops (hp : Progressive p) (stop : Token.Kind → Bool) (hstop : stop .eof)
    (heof : s.eof.kind = .eof) : stop (manyUntil stop p s).2.peek.kind :=
  (hp.many_ample hstop heof (left_le s) (left_le s)).2

/-- A bound on the commas that leaves room for every token does not matter. -/
theorem commaList_ample (hp : Progressive p) {a b : Nat} (heof : s.eof.kind = .eof) (ha : s.left ≤ a)
    (hb : s.left ≤ b) : commaList p a s = commaList p b s := by
  have hfewer {s s₁ : State} {first : α} (heof : s.eof.kind = .eof) (hfirst : p s = .ok first s₁) :
      s₁.eof.kind = .eof ∧ s₁.left < s.left := by
    obtain ⟨t, ts, hts⟩ := (ends_of_ok hfirst).1 (hp.gains heof)
    have hleft := hts.left
    rw [List.length_cons] at hleft
    exact ⟨hts.eof ▸ heof, by omega⟩
  induction a generalizing s b with
  | zero =>
    cases b with
    | zero => rfl
    | succ b => exact bind_congr_ok fun first s₁ hfirst => absurd (hfewer heof hfirst).2 (by omega)
  | succ a ih =>
    cases b with
    | zero => exact bind_congr_ok fun first s₁ hfirst => absurd (hfewer heof hfirst).2 (by omega)
    | succ b =>
      refine bind_congr_ok fun first s₁ hfirst => bind_congr_ok fun yes s₂ heat => ?_
      obtain ⟨heof₁, hleft₁⟩ := hfewer heof hfirst
      obtain ⟨ts, hts⟩ := (ends_of_ok heat).1 (Stepwise.moves (fun _ hI => .eat hI .comma) s₁)
      have hleft₂ := hts.left
      cases yes with
      | false => rfl
      | true =>
        have hothers := ih (b := b) (hts.eof ▸ heof₁) (by omega) (by omega)
        simp only [if_true, bind, EStateM.bind, hothers]

end Progressive

end Reader

open Reader

variable {s : Reader.State} {t : Token} {k : Token.Kind}

/-! ### The first token -/

theorem Literal.kind_ne_eof {value : Literal} (h : ofToken? t = some value) : t.kind ≠ .eof := by
  intro ht
  simp [ofToken?, ht] at h

theorem UnaryOp.kind_ne_eof {op : UnaryOp} (h : ofKind? k = some op) : k ≠ .eof := by
  rintro rfl
  cases h

theorem BinaryOp.kind_ne_eof {op : BinaryOp} (h : ofKind? k = some op) : k ≠ .eof := by
  rintro rfl
  cases h

theorem TypeName.kind_ne_eof {type : TypeName} (h : ofKind? k = some type) : k ≠ .eof := by
  rintro rfl
  cases h

namespace Expr

theorem readPrimary_gains (n : Nat) (heof : s.eof.kind = .eof) : Gains s (readPrimary n) := by
  have hI := stable_gained s
  rw [readPrimary]
  refine .peek_bind ?_
  split
  · next value hvalue => exact .bind (.advance heof (Literal.kind_ne_eof hvalue)) fun _ => .pure _
  · split
    · next hpeek => exact .bind (.advance heof (by simp [hpeek])) fun _ => .pure _
    · split
      · next hpeek =>
        refine .bind (.advance heof (by simp [hpeek])) fun opening => .bind (read_maintains hI n) fun inner => ?_
        exact .bind (.expect hI _ _) fun _ => .pure _
      · exact .giveUpHere _

theorem readUnary_gains (n : Nat) (heof : s.eof.kind = .eof) : Gains s (readUnary n) := by
  have hI := stable_gained s
  rw [readUnary.eq_def]
  refine .kind_bind ?_
  split
  · rw [readCall]
    exact .bind (readPrimary_gains n heof) fun callee => readCallRest_maintains hI n callee
  · next op hop =>
    refine .bind (.advance heof (UnaryOp.kind_ne_eof hop)) fun start => .bind (.nested hI ?_) fun _ => .pure _
    cases n with
    | zero => exact .tooDeep hI
    | succ n => exact readUnary_maintains hI n

theorem readAssignment_gains (n : Nat) (heof : s.eof.kind = .eof) : Gains s (readAssignment n) := by
  have hI := stable_gained s
  refine .goesOn (readAssignment_goesOn hI n) ?_
  rw [readBinary]
  exact .bind (readUnary_gains n heof) fun lhs => readBinaryRest_maintains hI n 1 lhs

/-- An expression that is read has a token. -/
theorem read_gains (n : Nat) (heof : s.eof.kind = .eof) : Gains s (read n) := by
  cases n with
  | zero =>
    rw [read]
    exact .tooDeep
  | succ n =>
    rw [read]
    exact .nested (readAssignment_gains n heof)

theorem read_progressive (n : Nat) : Progressive (read n) := ⟨fun _ hI => read_maintains hI n, read_gains n⟩

end Expr

theorem Ident.read_gains (what : String) (heof : s.eof.kind = .eof) : Gains s (read what) :=
  .bind (.expect _ heof (by decide)) fun _ => .pure _

/-- A parameter that is read has a token. -/
theorem Param.read_gains (heof : s.eof.kind = .eof) : Gains s read := by
  refine .kind_bind ?_
  dsimp only
  split
  · next htype =>
    obtain ⟨type, htype⟩ := Option.isSome_iff_exists.1 htype
    refine .bind (.advance heof (TypeName.kind_ne_eof htype)) fun _ => ?_
    exact .bind (Ident.read_maintains (stable_gained s) _) fun _ => .pure _
  · exact .bind (Ident.read_gains _ heof) fun _ => .pure _

theorem Param.read_progressive : Progressive read := ⟨fun _ hI => read_maintains hI, read_gains⟩

namespace Stmt

theorem readInner_gains (n : Nat) (heof : s.eof.kind = .eof) : Gains s (readInner n) := by
  have hI := stable_gained s
  rw [readInner]
  refine .peek_bind (.kind_bind ?_)
  split <;> rename_i hkind
  case h_14 => exact .giveUpHere _
  case h_15 => exact .goesOn (readExpr_goesOn hI n _) (Expr.read_gains n heof)
  -- every other statement has a token of its own in front
  all_goals have hfirst : Gains s advance := .advance heof (by simp [hkind])
  case h_6 => exact .goesOn (readFunction_goesOn hI (read_maintains hI n)) hfirst
  case h_7 => exact .goesOn (readBranch_goesOn hI n _) hfirst
  case h_8 =>
    refine hfirst.bind fun _ => .bind (readCondition_maintains hI n _) fun cond => ?_
    exact .bind (read_maintains hI n) fun body => .get_bind fun _ => .pure _
  case h_9 =>
    refine .bind (.goesOn (readBlock_goesOn hI (read_maintains hI n)) ?_) fun _ => .pure _
    exact .expect _ heof (by decide)
  case h_10 => exact .goesOn (readReturn_goesOn hI n _) hfirst
  case h_11 => exact .goesOn (readPrint_goesOn hI n _) hfirst
  case h_12 | h_13 => exact hfirst.bind fun _ => .bind (.expect hI _ _) fun _ => .get_bind fun _ => .pure _
  all_goals exact hfirst.bind fun _ => readVarDecl_maintains hI n _ _

/-- A statement that is read has a token. -/
theorem read_gains (n : Nat) (heof : s.eof.kind = .eof) : Gains s (read n) := by
  cases n with
  | zero =>
    rw [read]
    exact .tooDeep
  | succ n =>
    rw [read]
    exact .nested (readInner_gains n heof)

theorem read_progressive (n : Nat) : Progressive (read n) := ⟨fun _ hI => read_maintains hI n, read_gains n⟩

end Stmt

end Scriptlet
