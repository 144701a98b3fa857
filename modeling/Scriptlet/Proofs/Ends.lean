/-!
# How a computation ends

Reading a program and running one are computations that change a state and give a result or give up.
`Ends p s ok bad` says what holds when `p` is run from the state `s`: `ok` of the result and the state
after it, or `bad` of the error and the state where it arose. The lemmas take a computation apart step
by step.
-/

namespace Scriptlet

variable {ε σ α β : Type}

/-- What holds when `p` has been run from `s`. -/
def Ends (p : EStateM ε σ α) (s : σ) (ok : α → σ → Prop) (bad : ε → σ → Prop) : Prop :=
  match p s with
  | .ok a s' => ok a s'
  | .error e s' => bad e s'

variable {ok ok' : α → σ → Prop} {bad bad' : ε → σ → Prop} {s : σ}

theorem ends_of_ok {p : EStateM ε σ α} {a : α} {s' : σ} (h : p s = .ok a s') :
    Ends p s ok bad ↔ ok a s' := by
  simp only [Ends, h]

theorem ends_of_error {p : EStateM ε σ α} {e : ε} {s' : σ} (h : p s = .error e s') :
    Ends p s ok bad ↔ bad e s' := by
  simp only [Ends, h]

/-- What ends in one way only gives that result. -/
theorem eq_ok_of_ends {p : EStateM ε σ α} {a : α} {s' : σ}
    (h : Ends p s (fun b t => b = a ∧ t = s') fun _ _ => False) : p s = .ok a s' := by
  unfold Ends at h
  split at h
  · next hok =>
    obtain ⟨rfl, rfl⟩ := h
    exact hok
  · exact h.elim

@[simp] theorem ends_pure (a : α) : Ends (pure a : EStateM ε σ α) s ok bad ↔ ok a s := Iff.rfl

@[simp] theorem ends_throw (e : ε) : Ends (throw e : EStateM ε σ α) s ok bad ↔ bad e s := Iff.rfl

@[simp] theorem ends_get {ok : σ → σ → Prop} : Ends (get : EStateM ε σ σ) s ok bad ↔ ok s s :=
  Iff.rfl

@[simp] theorem ends_set (s' : σ) {ok : PUnit → σ → Prop} :
    Ends (set s' : EStateM ε σ PUnit) s ok bad ↔ ok ⟨⟩ s' := Iff.rfl

@[simp] theorem ends_modify (f : σ → σ) {ok : PUnit → σ → Prop} :
    Ends (modify f : EStateM ε σ PUnit) s ok bad ↔ ok ⟨⟩ (f s) := Iff.rfl

@[simp] theorem ends_modifyGet (f : σ → α × σ) :
    Ends (modifyGet f : EStateM ε σ α) s ok bad ↔ ok (f s).1 (f s).2 := Iff.rfl

@[simp] theorem ends_bind (p : EStateM ε σ β) (f : β → EStateM ε σ α) :
    Ends (p >>= f) s ok bad ↔ Ends p s (fun b s' => Ends (f b) s' ok bad) bad := by
  simp only [Ends, bind, EStateM.bind]
  cases p s <;> rfl

theorem bind_of_ok {p : EStateM ε σ β} {f : β → EStateM ε σ α} {b : β} {s₁ : σ} (h : p s = .ok b s₁) :
    (p >>= f) s = f b s₁ := by
  simp only [bind, EStateM.bind, h]

theorem bind_of_error {p : EStateM ε σ β} {f : β → EStateM ε σ α} {e : ε} {s₁ : σ} (h : p s = .error e s₁) :
    (p >>= f) s = .error e s₁ := by
  simp only [bind, EStateM.bind, h]

/-- It only matters how a computation goes on from where its first step leads. -/
theorem bind_congr_ok {p : EStateM ε σ β} {f g : β → EStateM ε σ α}
    (h : ∀ b s₁, p s = .ok b s₁ → f b s₁ = g b s₁) : (p >>= f) s = (p >>= g) s := by
  simp only [bind, EStateM.bind]
  cases hp : p s with
  | ok b s₁ => exact h b s₁ hp
  | error e s₁ => rfl

/-- What gives a result gives one at each step. -/
theorem of_bind_ok {p : EStateM ε σ β} {f : β → EStateM ε σ α} {a : α} {s' : σ}
    (h : (p >>= f) s = .ok a s') : ∃ b s₁, p s = .ok b s₁ ∧ f b s₁ = .ok a s' := by
  simp only [bind, EStateM.bind] at h
  cases hp : p s with
  | ok b s₁ =>
    rw [hp] at h
    exact ⟨b, s₁, rfl, h⟩
  | error e s₁ =>
    rw [hp] at h
    cases h

@[simp] theorem ends_map (f : β → α) (p : EStateM ε σ β) :
    Ends (f <$> p) s ok bad ↔ Ends p s (fun b s' => ok (f b) s') bad := by
  simp only [Ends, Functor.map, EStateM.map]
  cases p s <;> rfl

@[simp] theorem ends_ite (c : Prop) [Decidable c] (p q : EStateM ε σ α) :
    Ends (if c then p else q) s ok bad ↔ if c then Ends p s ok bad else Ends q s ok bad := by
  split <;> rfl

namespace Ends

variable {p : EStateM ε σ α}

theorem mono (h : Ends p s ok bad) (hok : ∀ a s', ok a s' → ok' a s')
    (hbad : ∀ e s', bad e s' → bad' e s') : Ends p s ok' bad' := by
  unfold Ends at h ⊢
  split <;> simp_all

theorem mono_ok (h : Ends p s ok bad) (hok : ∀ a s', ok a s' → ok' a s') : Ends p s ok' bad :=
  h.mono hok fun _ _ hb => hb

theorem and (h : Ends p s ok bad) (h' : Ends p s ok' bad') :
    Ends p s (fun a s' => ok a s' ∧ ok' a s') (fun e s' => bad e s' ∧ bad' e s') := by
  unfold Ends at h h' ⊢
  split <;> simp_all

end Ends

end Scriptlet
