/-
# `Lib.TwoRuns` — two computations side by side

`Both R x y`: both computations fail, in the same way, or both succeed with results
that are related by `R`.  Computations are composed by `Both.bind`, and the runs of
two machines whose steps keep a relation by `Both.run`.
-/
import CassandraApi.Lib.Machine

namespace CassandraApi.Lib

variable {φ α β γ δ : Type}

/-- Both fail, or both succeed and are related. -/
inductive Both (R : α → β → Prop) : Except φ α → Except φ β → Prop where
  | ok {a : α} {b : β} (h : R a b) : Both R (.ok a) (.ok b)
  | error (f : φ) : Both R (.error f) (.error f)

namespace Both

variable {R : α → β → Prop} {S : γ → δ → Prop} {x : Except φ α} {y : Except φ β}

theorem bind {f : α → Except φ γ} {g : β → Except φ δ} (h : Both R x y)
    (hfg : ∀ a b, R a b → Both S (f a) (g b)) : Both S (x >>= f) (y >>= g) := by
  cases h with
  | ok hab => exact hfg _ _ hab
  | error e => exact .error e

theorem mono {R' : α → β → Prop} (h : Both R x y) (himp : ∀ a b, R a b → R' a b) : Both R' x y := by
  cases h with
  | ok hab => exact .ok (himp _ _ hab)
  | error e => exact .error e

theorem of_eq {x y : Except φ α} (h : x = y) : Both Eq x y := by
  subst h
  cases x with
  | ok a => exact .ok rfl
  | error e => exact .error e

/-- With what the first computation comes to. -/
theorem left_eq (h : Both R x y) : Both (fun a b => R a b ∧ x = .ok a) x y := by
  cases h with
  | ok hab => exact .ok ⟨hab, rfl⟩
  | error e => exact .error e

theorem inv_ok {a : α} {b : β} (h : Both R (.ok a : Except φ α) (.ok b)) : R a b := by
  cases h with
  | ok hab => exact hab

end Both

/-! ## Runs -/

variable {σ σ' ε ε' : Type} {step : σ → ε → Except φ σ} {step' : σ' → ε' → Except φ σ'}

/-- The first step of a run, for a condition that does not look back. -/
theorem Along.head {ok : σ → ε → Prop} {s : σ} {e : ε} {es : List ε}
    (h : Along step (fun _ => ok) s (e :: es)) : ok s e :=
  h [] e es s rfl rfl

theorem Along.tail {ok : σ → ε → Prop} {s s' : σ} {e : ε} {es : List ε}
    (h : Along step (fun _ => ok) s (e :: es)) (hs : step s e = .ok s') :
    Along step (fun _ => ok) s' es := by
  rintro before e' after t rfl ht
  exact h (e :: before) e' after t rfl (run_cons_ok hs ht)

/-- Steps that keep a relation make up runs that keep it. -/
theorem Both.run {R : σ → σ' → Prop} {E : ε → ε' → Prop} {ok : σ → ε → Prop}
    (keep : ∀ s s' e e', R s s' → E e e' → ok s e → Both R (step s e) (step' s' e'))
    {es : List ε} {es' : List ε'} (hes : List.Forall₂ E es es') {s : σ} {s' : σ'} (h : R s s')
    (along : Along step (fun _ => ok) s es) :
    Both R (Lib.run step s es) (Lib.run step' s' es') := by
  induction hes generalizing s s' with
  | nil => exact .ok h
  | @cons e e' es es' he _ ih =>
    have hfirst := keep s s' e e' h he along.head
    rw [Lib.run, Lib.run]
    generalize hs : step s e = x at hfirst
    generalize step' s' e' = y at hfirst
    cases hfirst with
    | ok hnext => exact ih hnext (along.tail hs)
    | error f => exact .error f

end CassandraApi.Lib
