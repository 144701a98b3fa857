import Mathlib.Data.List.TakeWhile
import Scriptlet.Proofs.TokenProgress

/-!
# Reading ends at the first end of input

Nothing behind the first end of input among the tokens is looked at: the readers go the same way if it is cut
off (`Program.ofTokens_cut`). They also go the same way with any bounds on the levels below them that leave
room for all levels of nesting. `Follows f d p q` says both of two readers: from a state that `f` has changed,
`q` does what `p` does, if `d` levels have been entered already.
-/

namespace Scriptlet

namespace Reader

variable {α β : Type} {s : State} {ts : List Token}

/-- A state without what stands behind the first end of input. -/
def State.cut (s : State) : State :=
  { s with
    rest := s.rest.takeWhile (·.kind ≠ .eof)
    eof := (s.rest.find? (·.kind = .eof)).getD s.eof }

/-- A change to states that no step of a reader can see. -/
structure Unseen (f : State → State) : Prop where
  peek (s : State) : (f s).peek = s.peek
  level (s : State) : (f s).depth = s.depth
  lastStop (s : State) : (f s).lastStop = s.lastStop
  left (s : State) : (f s).left = s.left
  eof {s : State} (h : s.eof.kind = .eof) : (f s).eof.kind = .eof
  advance (s : State) : (f s).advance = f s.advance
  synchronize (s : State) : (f s).synchronize = f s.synchronize
  report (s : State) (fault : Fault) (span : Span) : (f s).report fault span = f (s.report fault span)
  depth (s : State) (d : Nat) : { f s with depth := d } = f { s with depth := d }

theorem unseen_id : Unseen id where
  peek _ := rfl
  level _ := rfl
  lastStop _ := rfl
  left _ := rfl
  eof h := h
  advance _ := rfl
  synchronize _ := rfl
  report _ _ _ := rfl
  depth _ _ := rfl

namespace State

theorem cut_at_end {t : Token} (h : s.rest = t :: ts) (ht : t.kind = .eof) :
    s.cut = { s with rest := [], eof := t } := by
  rw [cut, h, List.takeWhile_cons_of_neg (by simp [ht]), List.find?_cons_of_pos (by simp [ht])]
  rfl

theorem cut_cons {t : Token} (h : s.rest = t :: ts) (ht : t.kind ≠ .eof) :
    s.cut = { s with
      rest := t :: ts.takeWhile (·.kind ≠ .eof)
      eof := (ts.find? (·.kind = .eof)).getD s.eof } := by
  rw [cut, h, List.takeWhile_cons_of_pos (by simp [ht]), List.find?_cons_of_neg (by simp [ht])]

theorem cut_nil (h : s.rest = []) : s.cut = s := by
  obtain ⟨rest, eof, lastStop, depth, diagnostics⟩ := s
  obtain rfl : rest = [] := h
  rfl

theorem peek_cut (s : State) : s.cut.peek = s.peek := by
  cases hrest : s.rest with
  | nil => rw [cut_nil hrest]
  | cons t ts =>
    by_cases ht : t.kind = .eof
    · rw [cut_at_end hrest ht, peek_cons hrest]
      rfl
    · rw [cut_cons hrest ht, peek_cons hrest]
      rfl

theorem advance_cut (s : State) : s.cut.advance = s.advance.cut := by
  cases hrest : s.rest with
  | nil => rw [cut_nil hrest, advance_nil hrest, cut_nil hrest]
  | cons t ts =>
    by_cases ht : t.kind = .eof
    · rw [advance_at_end hrest ht, cut_at_end hrest ht]
      rfl
    · rw [advance_cons hrest ht, cut_cons hrest ht, advance_cons rfl ht]
      rfl

theorem synchronize_cut (s : State) : s.cut.synchronize = s.synchronize.cut := by
  obtain ⟨rest, eof, lastStop, depth, diagnostics⟩ := s
  induction rest generalizing lastStop with
  | nil => rfl
  | cons t ts ih =>
    by_cases ht : t.kind = .eof
    · rw [cut_at_end rfl ht]
      unfold synchronize skipTo
      rw [if_pos (.inl ht), cut_at_end rfl ht]
    · rw [cut_cons rfl ht]
      unfold synchronize skipTo
      by_cases hbound : t.kind = .eof ∨ t.kind = .rbrace ∨ t.kind.startsStatement
      · rw [if_pos hbound, if_pos hbound]
        exact (cut_cons rfl ht).symm
      · rw [if_neg hbound, if_neg hbound]
        by_cases hsemicolon : t.kind = .semicolon
        · rw [if_pos hsemicolon, if_pos hsemicolon]
          rfl
        · rw [if_neg hsemicolon, if_neg hsemicolon]
          exact ih _

end State

/-- What stands behind the first end of input is not seen. -/
theorem unseen_cut : Unseen State.cut where
  peek := State.peek_cut
  level _ := rfl
  lastStop _ := rfl
  left s := congrArg List.length List.takeWhile_idem
  eof {s} h := by
    unfold State.cut
    cases hfind : s.rest.find? (·.kind = .eof) with
    | none => exact h
    | some t =>
      have ht := List.find?_some hfind
      exact of_decide_eq_true ht
  advance := State.advance_cut
  synchronize := State.synchronize_cut
  report _ _ _ := rfl
  depth _ _ := rfl

theorem deepen_refused (h : maxNesting ≤ s.depth) : deepen s = tooDeep s := by
  show (if maxNesting ≤ s.depth then tooDeep else _ : Reader Unit) s = _
  rw [if_pos h]

theorem deepen_granted (h : ¬ maxNesting ≤ s.depth) : deepen s = .ok () { s with depth := s.depth + 1 } := by
  show (if maxNesting ≤ s.depth then tooDeep else _ : Reader Unit) s = _
  rw [if_neg h]
  rfl

theorem nested_refused (h : maxNesting ≤ s.depth) (p : Reader α) : nested p s = tooDeep s := by
  show (deepen >>= fun _ => returningTo s.depth p) s = tooDeep s
  exact bind_of_error (deepen_refused h)

/-- Where readers run: the input has an end, and `d` levels have been entered. -/
structure Fit (d : Nat) (s : State) : Prop where
  eof : s.eof.kind = .eof
  depth : d ≤ s.depth

/-- From the states `s` and `f s`, both readers come to states that differ by `f`, with one result, or both
give up. They do not leave the `d` levels. -/
def FollowsAt (f : State → State) (d : Nat) (s : State) (p q : Reader α) : Prop :=
  Ends p s (fun a s' => q (f s) = .ok a (f s') ∧ Fit d s') fun e s' => q (f s) = .error e (f s') ∧ Fit d s'

theorem FollowsAt.congr {f : State → State} {d : Nat} {p p' q q' : Reader α} (h : FollowsAt f d s p q)
    (hp : p' s = p s) (hq : q' (f s) = q (f s)) : FollowsAt f d s p' q' := by
  unfold FollowsAt Ends at h ⊢
  rw [hp, hq]
  exact h

theorem FollowsAt.eq {d : Nat} {p q : Reader α} (h : FollowsAt id d s p q) : p s = q s := by
  cases hend : p s with
  | ok a s' => exact ((ends_of_ok hend).1 h).1.symm
  | error e s' => exact ((ends_of_error hend).1 h).1.symm

/-- From states that differ by `f`, and in which `d` levels have been entered, both readers do the same. -/
def Follows (f : State → State) (d : Nat) (p q : Reader α) : Prop :=
  ∀ s, Fit d s → FollowsAt f d s p q

namespace Follows

variable {f : State → State} {d : Nat} {p q : Reader α}

theorem pure (a : α) : Follows f d (pure a) (pure a) := fun _ hs => ⟨rfl, hs⟩

theorem bind {g h : α → Reader β} (hpq : Follows f d p q) (hgh : ∀ a, Follows f d (g a) (h a)) :
    Follows f d (p >>= g) (q >>= h) := by
  intro s hs
  rw [FollowsAt, ends_bind]
  refine Ends.mono (hpq s hs) ?_ ?_
  · rintro a s₁ ⟨hq, hs₁⟩
    rw [bind_of_ok hq]
    exact hgh a s₁ hs₁
  · rintro e s₁ ⟨hq, hs₁⟩
    exact ⟨bind_of_error hq, hs₁⟩

theorem map (g : α → β) (hpq : Follows f d p q) : Follows f d (g <$> p) (g <$> q) := by
  rw [← bind_pure_comp, ← bind_pure_comp]
  exact hpq.bind fun a => .pure (g a)

theorem get_bind {g h : State → Reader β} (hgh : ∀ s, Follows f d (g s) (h (f s))) :
    Follows f d (get >>= g) (get >>= h) :=
  fun s hs => hgh s s hs

theorem modifyGet {g h : State → α × State}
    (hgh : ∀ s, Fit d s → h (f s) = ((g s).1, f (g s).2) ∧ Fit d (g s).2) :
    Follows f d (modifyGet g) (modifyGet h) := by
  intro s hs
  obtain ⟨hsame, hfit⟩ := hgh s hs
  refine ⟨?_, hfit⟩
  show EStateM.Result.ok (h (f s)).1 (h (f s)).2 = .ok (g s).1 (f (g s).2)
  rw [hsame]

theorem ite {c : Prop} [Decidable c] {p' q' : Reader α} (h : Follows f d p q) (h' : Follows f d p' q') :
    Follows f d (if c then p else p') (if c then q else q') := by
  split
  · exact h
  · exact h'

theorem weaken {d' : Nat} (h : Follows f d' p q) (hs : Fit d' s) (hd : d ≤ d') : FollowsAt f d s p q :=
  Ends.mono (h s hs) (fun _ _ ⟨hq, hs'⟩ => ⟨hq, hs'.eof, hd.trans hs'.depth⟩)
    fun _ _ ⟨hq, hs'⟩ => ⟨hq, hs'.eof, hd.trans hs'.depth⟩

/-- Both readers are brought back to one level. -/
theorem returningTo {k : Nat} (hf : Unseen f) (h : Follows f (d + 1) p q) (hs : Fit (d + 1) s) (hk : d ≤ k) :
    FollowsAt f d s (returningTo k p) (returningTo k q) := by
  rw [FollowsAt, ends_returningTo]
  refine Ends.mono (h s hs) ?_ ?_
  · rintro a s' ⟨hq, hs'⟩
    refine ⟨?_, hs'.eof, hk⟩
    rw [Reader.returningTo, hq]
    exact congrArg _ (hf.depth s' k)
  · rintro e s' ⟨hq, hs'⟩
    refine ⟨?_, hs'.eof, hk⟩
    rw [Reader.returningTo, hq]
    exact congrArg _ (hf.depth s' k)

section

variable (hf : Unseen f)

include hf

theorem peek_bind {g h : Token → Reader β} (hgh : ∀ t, Follows f d (g t) (h t)) :
    Follows f d (peek >>= g) (peek >>= h) := by
  refine get_bind fun s => ?_
  rw [hf.peek]
  exact hgh _

theorem kind_bind {g h : Token.Kind → Reader β} (hgh : ∀ k, Follows f d (g k) (h k)) :
    Follows f d (kind >>= g) (kind >>= h) :=
  peek_bind hf fun t => hgh t.kind

theorem at_bind {k : Token.Kind} {g h : Bool → Reader β} (hgh : ∀ yes, Follows f d (g yes) (h yes)) :
    Follows f d (at? k >>= g) (at? k >>= h) :=
  kind_bind hf fun kind => hgh (decide (kind = k))

theorem advance : Follows f d advance advance := by
  intro s hs
  refine ⟨?_, by rw [advance_eof]; exact hs.eof, by rw [advance_depth]; exact hs.depth⟩
  show EStateM.Result.ok _ _ = _
  rw [hf.peek, hf.advance]

theorem eat (k : Token.Kind) : Follows f d (eat k) (eat k) :=
  at_bind hf fun _ => ite ((advance hf).bind fun _ => .pure _) (.pure _)

theorem report (fault : Fault) (span : Span) : Follows f d (report fault span) (report fault span) :=
  fun s hs => ⟨congrArg _ (hf.report s fault span), hs.eof, hs.depth⟩

theorem giveUp (fault : Fault) (span : Span) :
    Follows f d (giveUp fault span : Reader α) (giveUp fault span) :=
  fun s hs => ⟨congrArg _ (hf.report s fault span), hs.eof, hs.depth⟩

theorem giveUpHere (fault : Token → Fault) : Follows f d (giveUpHere fault : Reader α) (giveUpHere fault) :=
  peek_bind hf fun _ => giveUp hf _ _

theorem expect (k : Token.Kind) (fault : Token → Fault) : Follows f d (expect k fault) (expect k fault) :=
  at_bind hf fun _ => ite (advance hf) (giveUpHere hf fault)

theorem tooDeep : Follows f d (tooDeep : Reader α) tooDeep := giveUpHere hf _

/-- Both readers may go one level deeper, or neither. -/
theorem deepen_step {g h : Unit → Reader β} (hs : Fit d s)
    (hgh : d < maxNesting → ∀ s, Fit (d + 1) s → FollowsAt f d s (g ()) (h ())) :
    FollowsAt f d s (deepen >>= g) (deepen >>= h) := by
  have hlevel := hf.level s
  rw [FollowsAt, ends_bind, ends_deepen]
  by_cases hdeep : maxNesting ≤ s.depth
  · rw [if_pos hdeep]
    refine ⟨bind_of_error ((deepen_refused (hlevel ▸ hdeep)).trans ?_), hs.eof, hs.depth⟩
    exact ((ends_tooDeep (α := Unit)).1 (tooDeep hf s hs)).1
  · have hnext : { f s with depth := (f s).depth + 1 } = f { s with depth := s.depth + 1 } := by
      rw [hlevel, hf.depth]
    rw [if_neg hdeep, bind_of_ok (deepen_granted (hlevel ▸ hdeep)), hnext]
    have hdepth := hs.depth
    exact hgh (by omega) _ ⟨hs.eof, Nat.succ_le_succ hdepth⟩

theorem deepen_bind {g h : Unit → Reader β} (hgh : d < maxNesting → Follows f (d + 1) (g ()) (h ())) :
    Follows f d (deepen >>= g) (deepen >>= h) :=
  fun _ hs => deepen_step hf hs fun hd _ hs' => (hgh hd).weaken hs' (Nat.le_succ d)

theorem nested (hpq : d < maxNesting → Follows f (d + 1) p q) : Follows f d (nested p) (nested q) := by
  intro s hs
  have hinner := deepen_step hf (g := fun _ => Reader.returningTo s.depth p)
    (h := fun _ => Reader.returningTo s.depth q) hs fun hd s' hs' => (hpq hd).returningTo hf hs' hs.depth
  refine hinner.congr rfl ?_
  rw [← hf.level s]
  rfl

/-- Items are listed alike with any one bound on the commas. -/
theorem commaList (hpq : Follows f d p q) (more : Nat) : Follows f d (commaList p more) (commaList q more) := by
  induction more with
  | zero => exact hpq.bind fun _ => .pure _
  | succ more ih => exact hpq.bind fun _ => (eat hf _).bind fun _ => ite (ih.bind fun _ => .pure _) (.pure _)

theorem commaListUntilParen (hpq : Follows f d p q) (hp : Progressive p) (hq : Progressive q) :
    Follows f d (commaListUntilParen p) (commaListUntilParen q) := by
  refine at_bind hf fun _ => ite (.pure _) fun s hs => ?_
  have hbound : (get >>= fun s => Reader.commaList p s.rest.length) s = Reader.commaList p s.left s :=
    hp.commaList_ample hs.eof (left_le s) (Nat.le_refl _)
  have hbound' : (get >>= fun s => Reader.commaList q s.rest.length) (f s) = Reader.commaList q s.left (f s) :=
    hq.commaList_ample (hf.eof hs.eof) (left_le (f s)) (Nat.le_of_eq (hf.left s))
  exact (hpq.commaList hf s.left s hs).congr hbound hbound'

theorem recovering (hpq : Follows f d p q) (hp : Stepwise p) (hq : Stepwise q) (hs : Fit d s) :
    recovering q (f s) = ((recovering p s).1, f (recovering p s).2) ∧ Fit d (recovering p s).2 := by
  have hends := hpq s hs
  cases hend : p s with
  | ok a s₁ =>
    obtain ⟨hsame, hfit⟩ := (ends_of_ok hend).1 hends
    rw [recovering_ok hend, recovering_ok hsame]
    exact ⟨rfl, hfit⟩
  | error e s₁ =>
    obtain ⟨hsame, hfit⟩ := (ends_of_error hend).1 hends
    rw [recovering_error hend, recovering_error hsame]
    obtain ⟨ts, hts⟩ := (stable_moves s).synchronize ((ends_of_error hend).1 (hp.moves s))
    obtain ⟨us, hus⟩ := (stable_moves (f s)).synchronize ((ends_of_error hsame).1 (hq.moves (f s)))
    -- whether the cursor has moved is the same question for both
    have hstay : (f s₁).synchronize.rest.length = (f s).rest.length ↔
        s₁.synchronize.rest.length = s.rest.length := by
      have hleft := hts.left
      have hleft' := hus.left
      rw [hf.synchronize, hf.left, hf.left] at hleft'
      have hlength := hts.length
      have hlength' := hus.length
      omega
    have hfit' : Fit d s₁.synchronize := ⟨hfit.eof, hfit.depth⟩
    by_cases hsame : s₁.synchronize.rest.length = s.rest.length
    · rw [if_pos hsame, if_pos (hstay.2 hsame), hf.synchronize, hf.advance]
      exact ⟨rfl, (advance_eof _).symm ▸ hfit'.eof, (advance_depth _).symm ▸ hfit'.depth⟩
    · rw [if_neg hsame, if_neg fun h => hsame (hstay.1 h), hf.synchronize]
      exact ⟨rfl, hfit'⟩

theorem many (stop : Token.Kind → Bool) (hpq : Follows f d p q) (hp : Stepwise p) (hq : Stepwise q) (most : Nat)
    (hs : Fit d s) : many stop q most (f s) = ((many stop p most s).1, f (many stop p most s).2) ∧
      Fit d (many stop p most s).2 := by
  induction most generalizing s with
  | zero => exact ⟨rfl, hs⟩
  | succ most ih =>
    unfold Reader.many
    rw [hf.peek]
    split
    · exact ⟨rfl, hs⟩
    · obtain ⟨hfound, hafter⟩ := recovering hf hpq hp hq hs
      obtain ⟨hothers, hend⟩ := ih hafter
      rw [hfound]
      dsimp only
      rw [hothers]
      exact ⟨rfl, hend⟩

theorem manyUntil (stop : Token.Kind → Bool) (hstop : stop .eof) (hpq : Follows f d p q) (hp : Progressive p)
    (hq : Progressive q) (hs : Fit d s) :
    manyUntil stop q (f s) = ((manyUntil stop p s).1, f (manyUntil stop p s).2) ∧
      Fit d (manyUntil stop p s).2 := by
  have hbound := (hp.many_ample hstop hs.eof (left_le s) (Nat.le_refl _)).1
  have hbound' := (hq.many_ample hstop (hf.eof hs.eof) (left_le (f s)) (Nat.le_of_eq (hf.left s))).1
  rw [Reader.manyUntil, Reader.manyUntil, hbound, hbound']
  exact many hf stop hpq hp.stepwise hq.stepwise s.left hs

end

end Follows

/-- Bounds on the levels below `d` that leave room for all levels of nesting. -/
structure Room (d n m : Nat) : Prop where
  left : maxNesting ≤ d + n
  right : maxNesting ≤ d + m

theorem Room.step {d n m : Nat} (h : Room d n m) (hd : d < maxNesting) :
    ∃ n' m', n = n' + 1 ∧ m = m' + 1 ∧ Room (d + 1) n' m' := by
  have hleft := h.left
  have hright := h.right
  exact ⟨n - 1, m - 1, by omega, by omega, by omega, by omega⟩

/-- A reader with a bound on its levels, which goes down one level. Where the bound is used up, the level in
the state is the last one, and to go down is refused all the same. -/
theorem Follows.levels {f : State → State} (hf : Unseen f) {level inner : Nat → Reader α} {d n m : Nat}
    (hzero : level 0 = Reader.tooDeep) (hsucc : ∀ n, level (n + 1) = Reader.nested (inner n)) (h : Room d n m)
    (hinner : ∀ n' m', n' < n → Room (d + 1) n' m' → Follows f (d + 1) (inner n') (inner m')) :
    Follows f d (level n) (level m) := by
  by_cases hd : d < maxNesting
  · obtain ⟨n', m', rfl, rfl, hnext⟩ := h.step hd
    rw [hsucc, hsucc]
    exact nested hf fun _ => hinner n' m' (Nat.lt_succ_self n') hnext
  · have hrefused (n : Nat) {s : State} (hdepth : d ≤ s.depth) : level n s = Reader.tooDeep s := by
      cases n with
      | zero => rw [hzero]
      | succ n =>
        rw [hsucc]
        exact nested_refused (by omega) _
    intro s hs
    exact (tooDeep hf s hs).congr (hrefused n hs.depth) (hrefused m (hf.level s ▸ hs.depth))

end Reader

open Reader

variable {f : Reader.State → Reader.State}

theorem Ident.read_follows (hf : Unseen f) (d : Nat) (what : String) : Follows f d (read what) (read what) :=
  .bind (.expect hf _ _) fun _ => .pure _

namespace Expr

mutual

theorem read_follows (hf : Unseen f) {d n m : Nat} (h : Room d n m) : Follows f d (read n) (read m) := by
  refine .levels hf (read.eq_def 0) (fun n => read.eq_def (n + 1)) h fun n' m' hn hnext => ?_
  exact readAssignment_follows hf hnext
termination_by (n, 0)

theorem readAssignment_follows (hf : Unseen f) {d n m : Nat} (h : Room d n m) :
    Follows f d (readAssignment n) (readAssignment m) := by
  rw [readAssignment, readAssignment]
  refine .bind (readBinary_follows hf h 1) fun target => .at_bind hf fun _ => .ite ?_ (.pure _)
  refine .bind (.advance hf) fun equal => .bind (read_follows hf h) fun value => ?_
  split
  · exact .pure _
  · exact .giveUp hf _ _
termination_by (n, 6)

theorem readBinary_follows (hf : Unseen f) {d n m : Nat} (h : Room d n m) (least : Nat) :
    Follows f d (readBinary n least) (readBinary m least) := by
  rw [readBinary, readBinary]
  exact .bind (readUnary_follows hf h) fun lhs => readBinaryRest_follows hf h least lhs
termination_by (n, 5)

theorem readBinaryRest_follows (hf : Unseen f) {d n m : Nat} (h : Room d n m) (least : Nat) (lhs : Expr) :
    Follows f d (readBinaryRest n least lhs) (readBinaryRest m least lhs) := by
  rw [readBinaryRest, readBinaryRest]
  refine .kind_bind hf fun k => ?_
  split
  · exact .pure _
  · refine .ite (.pure _) (.bind (.advance hf) fun _ => .deepen_bind hf fun hd => ?_)
    obtain ⟨n', m', hn, hm, hnext⟩ := h.step hd
    rw [hn, hm]
    exact .bind (readBinary_follows hf hnext _) fun rhs => readBinaryRest_follows hf hnext least _
termination_by (n, 4)

theorem readUnary_follows (hf : Unseen f) {d n m : Nat} (h : Room d n m) :
    Follows f d (readUnary n) (readUnary m) := by
  rw [readUnary.eq_def, readUnary.eq_def]
  refine .kind_bind hf fun k => ?_
  split
  · exact readCall_follows hf h
  · refine .bind (.advance hf) fun start => .bind (.nested hf fun hd => ?_) fun operand => .pure _
    obtain ⟨n', m', hn, hm, hnext⟩ := h.step hd
    rw [hn, hm]
    exact readUnary_follows hf hnext
termination_by (n, 3)

theorem readCall_follows (hf : Unseen f) {d n m : Nat} (h : Room d n m) :
    Follows f d (readCall n) (readCall m) := by
  rw [readCall, readCall]
  exact .bind (readPrimary_follows hf h) fun callee => readCallRest_follows hf h callee
termination_by (n, 2)

theorem readCallRest_follows (hf : Unseen f) {d n m : Nat} (h : Room d n m) (callee : Expr) :
    Follows f d (readCallRest n callee) (readCallRest m callee) := by
  rw [readCallRest, readCallRest]
  refine .at_bind hf fun _ => .ite (.deepen_bind hf fun hd => .bind (.advance hf) fun opening => ?_) (.pure _)
  obtain ⟨n', m', hn, hm, hnext⟩ := h.step hd
  rw [hn, hm]
  have hargs := (read_follows hf hnext).commaListUntilParen hf (read_progressive n') (read_progressive m')
  exact .bind hargs fun args => .bind (.expect hf _ _) fun closing => readCallRest_follows hf hnext _
termination_by (n, 1)

theorem readPrimary_follows (hf : Unseen f) {d n m : Nat} (h : Room d n m) :
    Follows f d (readPrimary n) (readPrimary m) := by
  rw [readPrimary, readPrimary]
  refine .peek_bind hf fun token => ?_
  split
  · exact .bind (.advance hf) fun _ => .pure _
  · refine .ite (.bind (.advance hf) fun _ => .pure _) (.ite ?_ (.giveUpHere hf _))
    refine .bind (.advance hf) fun opening => .bind (read_follows hf h) fun inner => ?_
    exact .bind (.expect hf _ _) fun _ => .pure _
termination_by (n, 1)

end

end Expr

theorem Param.read_follows (hf : Unseen f) (d : Nat) : Follows f d read read := by
  refine .kind_bind hf fun k => ?_
  have hname : Follows f d (do return (⟨← Ident.read "a parameter name", TypeName.ofKind? k⟩ : Param))
      (do return (⟨← Ident.read "a parameter name", TypeName.ofKind? k⟩ : Param)) :=
    .bind (Ident.read_follows hf d _) fun _ => .pure _
  exact .ite (.bind (.advance hf) fun _ => hname) hname

namespace Stmt

variable {d n m : Nat}

/-- A statement that has been read, with its span. -/
theorem finish_follows (hf : Unseen f) (start : Span) (stmt : Span → Stmt) :
    Follows f d (do return stmt ((← get).spanFrom start)) (do return stmt ((← get).spanFrom start)) := by
  refine .get_bind fun s => ?_
  rw [State.spanFrom, State.spanFrom, hf.lastStop]
  exact .pure _

theorem readVarDecl_follows (hf : Unseen f) (h : Room d n m) (start : Span) (type : Option TypeName) :
    Follows f d (readVarDecl n start type) (readVarDecl m start type) := by
  refine .bind (Ident.read_follows hf d _) fun name => .bind (.eat hf _) fun _ => ?_
  have hrest (init : Option Expr) : Follows f d
      (do let _ ← expectSemicolon "after variable declaration"
          return Stmt.varDecl name type init ((← get).spanFrom start))
      (do let _ ← expectSemicolon "after variable declaration"
          return Stmt.varDecl name type init ((← get).spanFrom start)) :=
    .bind (.expect hf _ _) fun _ => finish_follows hf start _
  exact .ite (.bind (.map _ (Expr.read_follows hf h)) hrest) (.bind (.pure _) hrest)

theorem readCondition_follows (hf : Unseen f) (h : Room d n m) (word : String) :
    Follows f d (readCondition n word) (readCondition m word) := by
  refine .bind (.expect hf _ _) fun opening => .bind (Expr.read_follows hf h) fun cond => ?_
  exact .bind (.expect hf _ _) fun _ => .pure _

theorem readReturn_follows (hf : Unseen f) (h : Room d n m) (start : Span) :
    Follows f d (readReturn n start) (readReturn m start) := by
  refine .bind (.advance hf) fun _ => .at_bind hf fun _ => ?_
  have hrest (value : Option Expr) : Follows f d
      (do let _ ← expectSemicolon "after return value"
          return Stmt.returnWith value ((← get).spanFrom start))
      (do let _ ← expectSemicolon "after return value"
          return Stmt.returnWith value ((← get).spanFrom start)) :=
    .bind (.expect hf _ _) fun _ => finish_follows hf start _
  exact .ite (.bind (.pure _) hrest) (.bind (.map _ (Expr.read_follows hf h)) hrest)

theorem readPrint_follows (hf : Unseen f) (h : Room d n m) (start : Span) :
    Follows f d (readPrint n start) (readPrint m start) := by
  refine .bind (.advance hf) fun _ => .bind (readCondition_follows hf h _) fun e => ?_
  exact .bind (.expect hf _ _) fun _ => finish_follows hf start _

theorem readExpr_follows (hf : Unseen f) (h : Room d n m) (start : Span) :
    Follows f d (readExpr n start) (readExpr m start) := by
  refine .bind (Expr.read_follows hf h) fun e => ?_
  exact .bind (.expect hf _ _) fun _ => finish_follows hf start _

theorem readBlock_follows (hf : Unseen f) (hread : Follows f d (read n) (read m)) :
    Follows f d (readBlock (read n)) (readBlock (read m)) := by
  refine .bind (.expect hf _ _) fun opening => ?_
  have hbody := Follows.modifyGet fun s hs =>
    hread.manyUntil hf endsBlock (by decide) (read_progressive n) (read_progressive m) (s := s) hs
  refine .bind hbody fun body => .at_bind hf fun _ => .ite (.bind (.advance hf) fun _ => .pure _) ?_
  exact .bind (.report hf _ _) fun _ => .peek_bind hf fun _ => .pure _

theorem readFunction_follows (hf : Unseen f) (hread : Follows f d (read n) (read m)) :
    Follows f d (readFunction (read n)) (readFunction (read m)) := by
  refine .bind (.advance hf) fun start => .bind (Ident.read_follows hf d _) fun name => ?_
  have hparams := (Param.read_follows hf d).commaListUntilParen hf Param.read_progressive Param.read_progressive
  refine .bind (.expect hf _ _) fun opening => .bind hparams fun params => .bind (.expect hf _ _) fun _ => ?_
  refine .bind (readBlock_follows hf hread) fun block => .get_bind fun s => ?_
  rw [hf.level]
  exact .ite (.bind (.report hf _ _) fun _ => .pure _) (.pure _)

mutual

theorem read_follows (hf : Unseen f) {d n m : Nat} (h : Room d n m) : Follows f d (read n) (read m) := by
  refine .levels hf (read.eq_def 0) (fun n => read.eq_def (n + 1)) h fun n' m' hn hnext => ?_
  exact readInner_follows hf hnext
termination_by (n, 0)

theorem readInner_follows (hf : Unseen f) {d n m : Nat} (h : Room d n m) :
    Follows f d (readInner n) (readInner m) := by
  rw [readInner, readInner]
  refine .peek_bind hf fun token => .kind_bind hf fun k => ?_
  split
  · exact .bind (.advance hf) fun _ => readVarDecl_follows hf h _ _
  · exact .bind (.advance hf) fun _ => readVarDecl_follows hf h _ _
  · exact .bind (.advance hf) fun _ => readVarDecl_follows hf h _ _
  · exact .bind (.advance hf) fun _ => readVarDecl_follows hf h _ _
  · exact .bind (.advance hf) fun _ => readVarDecl_follows hf h _ _
  · exact readFunction_follows hf (read_follows hf h)
  · exact readBranch_follows hf h _
  · refine .bind (.advance hf) fun _ => .bind (readCondition_follows hf h _) fun cond => ?_
    exact .bind (read_follows hf h) fun body => finish_follows hf _ _
  · exact .bind (readBlock_follows hf (read_follows hf h)) fun _ => .pure _
  · exact readReturn_follows hf h _
  · exact readPrint_follows hf h _
  · exact .bind (.advance hf) fun _ => .bind (.expect hf _ _) fun _ => finish_follows hf _ _
  · exact .bind (.advance hf) fun _ => .bind (.expect hf _ _) fun _ => finish_follows hf _ _
  · exact .giveUpHere hf _
  · exact readExpr_follows hf h _
termination_by (n, 2)

theorem readBranch_follows (hf : Unseen f) {d n m : Nat} (h : Room d n m) (start : Span) :
    Follows f d (readBranch n start) (readBranch m start) := by
  rw [readBranch, readBranch]
  refine .bind (.advance hf) fun _ => .bind (readCondition_follows hf h _) fun cond => ?_
  refine .bind (read_follows hf h) fun thenStmt => .bind (.eat hf _) fun _ => ?_
  have hrest (elseStmt : Option Stmt) : Follows f d
      (do return Stmt.branch cond thenStmt elseStmt ((← get).spanFrom start))
      (do return Stmt.branch cond thenStmt elseStmt ((← get).spanFrom start)) :=
    finish_follows hf start _
  exact .ite (.bind (.map _ (read_follows hf h)) hrest) (.bind (.pure _) hrest)
termination_by (n, 1)

end

end Stmt

/-! ### Programs -/

namespace Reader.State

theorem missingEnd_kind (tokens : List Token) : (missingEnd tokens).kind = .eof := by
  unfold missingEnd
  split <;> rfl

/-- The state in which `tokens` are to be read up to the end of input `last`. -/
def upTo (tokens : List Token) (last : Token) : State :=
  { rest := tokens, eof := last, lastStop := (tokens.headD last).span.start.offset, depth := 0,
    diagnostics := #[] }

theorem cut_ofTokens {before : List Token} {last : Token} (hbefore : ∀ t ∈ before, t.kind ≠ .eof)
    (hlast : last.kind = .eof) (after : List Token) :
    (ofTokens (before ++ last :: after)).cut = upTo before last := by
  have hrest : (before ++ last :: after).takeWhile (·.kind ≠ .eof) = before := by
    rw [List.takeWhile_append_of_pos fun t ht => decide_eq_true (hbefore t ht),
      List.takeWhile_cons_of_neg (by simp [hlast]), List.append_nil]
  have heof : (before ++ last :: after).find? (·.kind = .eof) = some last := by
    rw [List.find?_append, List.find?_eq_none.2 fun t ht => by simp [hbefore t ht], Option.none_or,
      List.find?_cons_of_pos (by simp [hlast])]
  have hhead (other : Token) : (before ++ last :: after).headD other = before.headD last := by
    cases before <;> rfl
  simp only [cut, ofTokens, upTo, hrest, heof, hhead, Option.getD_some]

/-- An end of input that is missing is put after the tokens. -/
theorem cut_ofTokens_missing {tokens : List Token} (h : ∀ t ∈ tokens, t.kind ≠ .eof) :
    (ofTokens tokens).cut = upTo tokens (missingEnd tokens) := by
  have hrest : tokens.takeWhile (·.kind ≠ .eof) = tokens :=
    List.takeWhile_eq_self_iff.2 fun t ht => decide_eq_true (h t ht)
  have heof : tokens.find? (·.kind = .eof) = none := List.find?_eq_none.2 fun t ht => by simp [h t ht]
  simp only [cut, ofTokens, upTo, hrest, heof, Option.getD_none]

end Reader.State

namespace Program

/-- A program is read as if there were nothing behind the first end of input. -/
theorem ofTokens_cut (tokens : List Token) : ofTokens tokens = ofState (State.ofTokens tokens).cut := by
  have hread : Follows State.cut 0 (Stmt.read maxNesting) (Stmt.read maxNesting) :=
    Stmt.read_follows unseen_cut ⟨by omega, by omega⟩
  have hstart : Fit 0 (State.ofTokens tokens) := ⟨State.missingEnd_kind tokens, Nat.zero_le _⟩
  obtain ⟨hsame, -⟩ := hread.manyUntil unseen_cut (· = .eof) (by decide) (Stmt.read_progressive _)
    (Stmt.read_progressive _) hstart
  unfold ofTokens ofState
  rw [hsame]
  dsimp only
  rw [State.peek_cut, State.peek_cut]
  rfl

/-- What is read of tokens with an end of input among them. -/
theorem ofTokens_upTo {before : List Token} {last : Token} (hbefore : ∀ t ∈ before, t.kind ≠ .eof)
    (hlast : last.kind = .eof) (after : List Token) :
    ofTokens (before ++ last :: after) = ofState (.upTo before last) := by
  rw [ofTokens_cut, State.cut_ofTokens hbefore hlast]

/-- Reading comes to an end, and it is the first end of input. No bound is used up: statements are read alike
with any bound on the levels that leaves room for all of them, and statements and lists with any bound that
leaves room for all tokens, up to a token that ends them. Statements are read, or given up, one token on at
least. What stands behind the first end of input makes no difference, and where there is none, it is as if it
stood after the last token. -/
theorem reading_ends_at_first_end :
    (∀ (s : State) (n m : Nat), s.eof.kind = .eof → maxNesting ≤ s.depth + n → maxNesting ≤ s.depth + m →
      Stmt.read n s = Stmt.read m s) ∧
    (∀ (stop : Token.Kind → Bool) (s : State) (n most : Nat), stop .eof → s.eof.kind = .eof →
      s.rest.length ≤ most → many stop (Stmt.read n) most s = manyUntil stop (Stmt.read n) s ∧
        stop (manyUntil stop (Stmt.read n) s).2.peek.kind) ∧
    (∀ (s : State) (n more : Nat), s.eof.kind = .eof → s.rest.length ≤ more →
      commaList (Expr.read n) more s = commaList (Expr.read n) s.rest.length s ∧
        commaList Param.read more s = commaList Param.read s.rest.length s) ∧
    (∀ (s : State) (n : Nat), s.eof.kind = .eof → s.peek.kind ≠ .eof →
      ∃ t ts, s.rest = t :: ts ++ (recovering (Stmt.read n) s).2.rest) ∧
    (∀ (before after : List Token) (last : Token), (∀ t ∈ before, t.kind ≠ .eof) → last.kind = .eof →
      ofTokens (before ++ last :: after) = ofTokens (before ++ [last])) ∧
    ∀ tokens : List Token, (∀ t ∈ tokens, t.kind ≠ .eof) →
      ofTokens tokens = ofTokens (tokens ++ [State.missingEnd tokens]) := by
  refine ⟨?_, ?_, ?_, ?_, ?_, ?_⟩
  · intro s n m heof hn hm
    exact ((Stmt.read_follows unseen_id ⟨hn, hm⟩) s ⟨heof, Nat.le_refl _⟩).eq
  · intro stop s n most hstop heof hmost
    have hleft := left_le s
    have hample := (Stmt.read_progressive n).many_ample hstop heof hleft (Nat.le_trans hleft hmost)
    exact ⟨hample.1.symm, hample.2⟩
  · intro s n more heof hmore
    have hleft := left_le s
    exact ⟨(Expr.read_progressive n).commaList_ample heof (Nat.le_trans hleft hmore) hleft,
      Param.read_progressive.commaList_ample heof (Nat.le_trans hleft hmore) hleft⟩
  · intro s n heof hpeek
    obtain ⟨t, ts, hts⟩ := (Stmt.read_progressive n).recovering heof hpeek
    exact ⟨t, ts, hts.rest⟩
  · intro before after last hbefore hlast
    rw [ofTokens_upTo hbefore hlast, ofTokens_upTo hbefore hlast]
  · intro tokens htokens
    rw [ofTokens_cut, State.cut_ofTokens_missing htokens, ofTokens_upTo htokens (State.missingEnd_kind tokens)]

/-- A closing brace, an end of input, and a name behind it. -/
def strayBrace : List Token :=
  [⟨.rbrace, "\x7d", .start, 1⟩, .endAt ⟨1, 2, 1⟩, ⟨.ident, "x", ⟨1, 2, 1⟩, 2⟩]

/-- The brace is reported and passed over, and the name is not looked at. -/
theorem reading_ends_at_strayBrace :
    (ofTokens strayBrace).diagnostics.map (·.code) = [.unmatchedDelimiter] ∧
      Stmt.read maxNesting (.ofTokens strayBrace) = Stmt.read 200 (.ofTokens strayBrace) ∧
      many (· = .eof) (Stmt.read maxNesting) 5 (.ofTokens strayBrace) =
        manyUntil (· = .eof) (Stmt.read maxNesting) (.ofTokens strayBrace) ∧
      commaList Param.read 5 (.ofTokens strayBrace) = commaList Param.read 3 (.ofTokens strayBrace) ∧
      (∃ t ts, strayBrace = t :: ts ++ (recovering (Stmt.read maxNesting) (.ofTokens strayBrace)).2.rest) ∧
      ofTokens strayBrace = ofTokens (strayBrace.take 2) ∧
      ofTokens (strayBrace.take 1) = ofTokens (strayBrace.take 1 ++ [State.missingEnd (strayBrace.take 1)]) := by
  obtain ⟨hlevels, hruns, hlists, hmoves, hcut, hmissing⟩ := reading_ends_at_first_end
  refine ⟨by decide +kernel, hlevels _ _ _ rfl (by decide) (by decide), (hruns _ _ _ _ (by decide) rfl (by decide)).1,
    (hlists _ 0 _ rfl (by decide)).2, hmoves (.ofTokens strayBrace) _ rfl (by decide), ?_, hmissing _ (by decide)⟩
  exact hcut (strayBrace.take 1) (strayBrace.drop 2) (.endAt ⟨1, 2, 1⟩) (by decide) rfl

end Program

end Scriptlet
