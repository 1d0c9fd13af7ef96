import GameCatalog.Fault

/-!
# Runs of computations

A computation with a state runs from a state to an answer or a fault, and a state.  The
runs of two computations in a row are joined at the state in between; a fault ends the
run.  A computation agrees under a relation of states if it answers alike from related
states and leaves related states.  It completes under a property of states if it comes to
an answer from each of them and leaves such a state.  Both kinds of computations are
closed under sequencing.
-/

namespace GameCatalog

theorem bind_eq_ok_iff {ε α β : Type} {x : Except ε α} {f : α → Except ε β} {b : β} :
    x >>= f = .ok b ↔ ∃ a, x = .ok a ∧ f a = .ok b := by
  cases x with
  | error e => simp [bind, Except.bind]
  | ok a => simp [bind, Except.bind]

theorem bind_eq_error_iff {ε α β : Type} {x : Except ε α} {f : α → Except ε β} {e : ε} :
    x >>= f = .error e ↔ x = .error e ∨ ∃ a, x = .ok a ∧ f a = .error e := by
  cases x with
  | error e' => simp [bind, Except.bind]
  | ok a => simp [bind, Except.bind]

theorem map_eq_ok_iff {ε α β : Type} {x : Except ε α} {f : α → β} {b : β} :
    x.map f = .ok b ↔ ∃ a, x = .ok a ∧ f a = b := by
  cases x with
  | error e => simp [Except.map]
  | ok a => simp [Except.map]

theorem map_eq_error_iff {ε α β : Type} {x : Except ε α} {f : α → β} {e : ε} :
    x.map f = .error e ↔ x = .error e := by
  cases x with
  | error e' => simp [Except.map]
  | ok a => simp [Except.map]

variable {σ α β : Type}

section Runs

variable {x : ExceptT Fault (StateM σ) α} {f : α → ExceptT Fault (StateM σ) β} {s t : σ}

theorem run_bind_ok {a : α} (hx : x s = (.ok a, t)) : (x >>= f) s = f a t := by
  simp only [bind, ExceptT.bind, ExceptT.mk, StateT.bind]
  rw [hx]
  rfl

theorem run_bind_error {fault : Fault} (hx : x s = (.error fault, t)) :
    (x >>= f) s = (.error fault, t) := by
  simp only [bind, ExceptT.bind, ExceptT.mk, StateT.bind]
  rw [hx]
  rfl

theorem run_ofExcept (result : Except Fault α) (s : σ) :
    (MonadExcept.ofExcept result : ExceptT Fault (StateM σ) α) s = (result, s) := by
  cases result <;> rfl

theorem eq_of_run_pure_ok {a b : α}
    (hrun : (pure a : ExceptT Fault (StateM σ) α) s = (.ok b, t)) : a = b ∧ s = t :=
  ⟨Except.ok.inj (congrArg Prod.fst hrun), congrArg Prod.snd hrun⟩

theorem exists_of_run_bind_ok {b : β} (hrun : (x >>= f) s = (.ok b, t)) :
    ∃ a middle, x s = (.ok a, middle) ∧ f a middle = (.ok b, t) := by
  cases hx : x s with
  | mk result middle =>
      cases result with
      | error fault =>
          rw [run_bind_error hx] at hrun
          have hanswer := congrArg Prod.fst hrun
          contradiction
      | ok a =>
          rw [run_bind_ok hx] at hrun
          exact ⟨a, middle, rfl, hrun⟩

end Runs

/-- From related states the computation answers alike and leaves related states. -/
def Agrees (R : σ → σ → Prop) (x : ExceptT Fault (StateM σ) α) : Prop :=
  ∀ s t, R s t → (x s).1 = (x t).1 ∧ R (x s).2 (x t).2

theorem agrees_pure (R : σ → σ → Prop) (a : α) :
    Agrees R (pure a : ExceptT Fault (StateM σ) α) :=
  fun _ _ hrelated => ⟨rfl, hrelated⟩

theorem agrees_throw (R : σ → σ → Prop) (fault : Fault) :
    Agrees R (throw fault : ExceptT Fault (StateM σ) α) :=
  fun _ _ hrelated => ⟨rfl, hrelated⟩

theorem agrees_ofExcept (R : σ → σ → Prop) (result : Except Fault α) :
    Agrees R (MonadExcept.ofExcept result : ExceptT Fault (StateM σ) α) := by
  cases result with
  | error fault => exact agrees_throw R fault
  | ok a => exact agrees_pure R a

theorem Agrees.bind {R : σ → σ → Prop} {x : ExceptT Fault (StateM σ) α}
    {f : α → ExceptT Fault (StateM σ) β} (hx : Agrees R x) (hf : ∀ a, Agrees R (f a)) :
    Agrees R (x >>= f) := by
  intro s t hrelated
  obtain ⟨hanswer, hafter⟩ := hx s t hrelated
  cases hs : x s with
  | mk result s' =>
      cases ht : x t with
      | mk result' t' =>
          rw [hs, ht] at hanswer hafter
          dsimp only at hanswer hafter
          subst hanswer
          cases result with
          | error fault =>
              rw [run_bind_error hs, run_bind_error ht]
              exact ⟨rfl, hafter⟩
          | ok a =>
              rw [run_bind_ok hs, run_bind_ok ht]
              exact hf a s' t' hafter

theorem Agrees.ite_bind {R : σ → σ → Prop} {c : Prop} [Decidable c]
    {x y : ExceptT Fault (StateM σ) α} {f : α → ExceptT Fault (StateM σ) β}
    (hx : Agrees R x) (hy : Agrees R y) (hf : ∀ a, Agrees R (f a)) :
    Agrees R (if c then x >>= f else y >>= f) := by
  by_cases hc : c
  · rw [if_pos hc]
    exact hx.bind hf
  · rw [if_neg hc]
    exact hy.bind hf

/-- From a state with the property the computation comes to an answer, and it leaves such
a state. -/
def Completes (P : σ → Prop) (x : ExceptT Fault (StateM σ) α) : Prop :=
  ∀ s, P s → ∃ a t, x s = (.ok a, t) ∧ P t

theorem completes_pure (P : σ → Prop) (a : α) :
    Completes P (pure a : ExceptT Fault (StateM σ) α) :=
  fun s hs => ⟨a, s, rfl, hs⟩

theorem completes_ofExcept (P : σ → Prop) {result : Except Fault α} {a : α}
    (hresult : result = .ok a) :
    Completes P (MonadExcept.ofExcept result : ExceptT Fault (StateM σ) α) := by
  rw [hresult]
  exact completes_pure P a

theorem Completes.bind {P : σ → Prop} {x : ExceptT Fault (StateM σ) α}
    {f : α → ExceptT Fault (StateM σ) β} (hx : Completes P x) (hf : ∀ a, Completes P (f a)) :
    Completes P (x >>= f) := by
  intro s hs
  obtain ⟨a, middle, hfirst, hmiddle⟩ := hx s hs
  obtain ⟨b, t, hsecond, ht⟩ := hf a middle hmiddle
  exact ⟨b, t, (run_bind_ok hfirst).trans hsecond, ht⟩

end GameCatalog
