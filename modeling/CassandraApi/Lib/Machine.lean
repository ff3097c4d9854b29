/-
# `Lib.Machine` — runs of a deterministic machine

A machine is a function `step : σ → ε → Except φ σ`: in a state it either takes
an event or refuses it.  `run` takes a list of events.  What a run is known to
preserve may depend on the events before it (`Run.invariant`), and may need a
condition on the steps taken (`Along`), which sees the events so far, the state
before the step and the event.
-/
import Mathlib

namespace CassandraApi.Lib

variable {σ ε φ : Type} {step : σ → ε → Except φ σ}

/-- The state after the events. -/
def run (step : σ → ε → Except φ σ) : σ → List ε → Except φ σ
  | s, [] => .ok s
  | s, e :: es =>
      match step s e with
      | .ok s' => run step s' es
      | .error f => .error f

@[simp] theorem run_nil (s : σ) : run step s [] = .ok s := rfl

theorem run_cons_ok {s s' s'' : σ} {e : ε} {es : List ε} (h : step s e = .ok s')
    (h' : run step s' es = .ok s'') : run step s (e :: es) = .ok s'' := by
  rw [run, h]
  exact h'

theorem run_cons {s s'' : σ} {e : ε} {es : List ε} (h : run step s (e :: es) = .ok s'') :
    ∃ s', step s e = .ok s' ∧ run step s' es = .ok s'' := by
  rw [run] at h
  split at h
  · exact ⟨_, by assumption, h⟩
  · cases h

theorem run_append_ok {s s' s'' : σ} {es es' : List ε} (h : run step s es = .ok s')
    (h' : run step s' es' = .ok s'') : run step s (es ++ es') = .ok s'' := by
  induction es generalizing s with
  | nil =>
    cases h
    exact h'
  | cons e es ih =>
    obtain ⟨t, ht, hrest⟩ := run_cons h
    exact run_cons_ok ht (ih hrest)

theorem run_append {s s'' : σ} {es es' : List ε} (h : run step s (es ++ es') = .ok s'') :
    ∃ s', run step s es = .ok s' ∧ run step s' es' = .ok s'' := by
  induction es generalizing s with
  | nil => exact ⟨s, rfl, h⟩
  | cons e es ih =>
    obtain ⟨t, ht, hrest⟩ := run_cons h
    obtain ⟨s', hs', h'⟩ := ih hrest
    exact ⟨s', run_cons_ok ht hs', h'⟩

theorem run_single {s s' : σ} {e : ε} (h : step s e = .ok s') : run step s [e] = .ok s' :=
  run_cons_ok h rfl

/-- Every step of the run of `es` from `s` meets `ok`. -/
def Along (step : σ → ε → Except φ σ) (ok : List ε → σ → ε → Prop) (s : σ) (es : List ε) : Prop :=
  ∀ before e after s', es = before ++ e :: after → run step s before = .ok s' → ok before s' e

theorem Along.left {ok : List ε → σ → ε → Prop} {s : σ} {es es' : List ε}
    (h : Along step ok s (es ++ es')) : Along step ok s es := by
  rintro before e after s' rfl hs
  exact h before e (after ++ es') s' (by simp) hs

theorem Along.mono {ok ok' : List ε → σ → ε → Prop} {s : σ} {es : List ε}
    (h : Along step ok s es) (himp : ∀ tr s e, ok tr s e → ok' tr s e) : Along step ok' s es :=
  fun before e after s' he hs => himp _ _ _ (h before e after s' he hs)

/-- Along a run call by call, for a condition that does not look back. -/
theorem along_nil {ok : List ε → σ → ε → Prop} (s : σ) : Along step ok s [] := by
  intro before e after s' he
  cases before <;> cases he

theorem along_cons {ok : σ → ε → Prop} {s : σ} {e : ε} {es : List ε} (h : ok s e)
    (rest : ∀ s', step s e = .ok s' → Along step (fun _ => ok) s' es) :
    Along step (fun _ => ok) s (e :: es) := by
  intro before e' after s' he hs
  cases before with
  | nil =>
    cases he
    cases hs
    exact h
  | cons b before =>
    cases he
    obtain ⟨t, ht, hrest⟩ := run_cons hs
    exact rest t ht before e' after s' rfl hrest

/-- An invariant that holds at the start and that every step keeps holds after the run. -/
theorem run_invariant {I : List ε → σ → Prop} {ok : List ε → σ → ε → Prop} {s₀ s : σ}
    {es : List ε} (start : I [] s₀)
    (keep : ∀ tr s e s', I tr s → ok tr s e → step s e = .ok s' → I (tr ++ [e]) s')
    (along : Along step ok s₀ es) (hrun : run step s₀ es = .ok s) : I es s := by
  induction es using List.reverseRecOn generalizing s with
  | nil =>
    cases hrun
    exact start
  | append_singleton es e ih =>
    obtain ⟨t, ht, hlast⟩ := run_append hrun
    obtain ⟨s', hs', hend⟩ := run_cons hlast
    cases hend
    exact keep es t e s (ih along.left ht) (along es e [] t rfl ht) hs'

/-- Steps that are always taken, and keep an invariant, make up a run. -/
theorem run_total_along {I : List ε → σ → Prop} {ok : List ε → σ → ε → Prop} {s₀ : σ}
    {es : List ε} (start : I [] s₀)
    (keep : ∀ tr s e, I tr s → ok tr s e → ∃ s', step s e = .ok s' ∧ I (tr ++ [e]) s')
    (along : Along step ok s₀ es) : ∃ s, run step s₀ es = .ok s ∧ I es s := by
  induction es using List.reverseRecOn with
  | nil => exact ⟨s₀, rfl, start⟩
  | append_singleton es e ih =>
    obtain ⟨t, ht, hinv⟩ := ih along.left
    obtain ⟨s, hs, hinv'⟩ := keep es t e hinv (along es e [] t rfl ht)
    exact ⟨s, run_append_ok ht (run_single hs), hinv'⟩

/-- The same for an invariant of the state alone. -/
theorem run_total {I : σ → Prop} {ok : σ → ε → Prop} {s₀ : σ} {es : List ε} (start : I s₀)
    (keep : ∀ s e, I s → ok s e → ∃ s', step s e = .ok s' ∧ I s')
    (along : Along step (fun _ => ok) s₀ es) : ∃ s, run step s₀ es = .ok s ∧ I s :=
  run_total_along (I := fun _ => I) start (fun _ => keep) along

theorem Along.and {ok ok' : List ε → σ → ε → Prop} {s : σ} {es : List ε}
    (h : Along step ok s es) (h' : Along step ok' s es) :
    Along step (fun tr s e => ok tr s e ∧ ok' tr s e) s es :=
  fun before e after s' he hs => ⟨h before e after s' he hs, h' before e after s' he hs⟩

/-- Along a run the states are good as long as the steps are, when it is exactly the good steps
that lead from an invariant state to a good one. -/
theorem run_good_iff {I G : σ → Prop} {ok : σ → ε → Prop} {s₀ s : σ} {es : List ε} (start : I s₀)
    (good : ∀ s, I s → G s)
    (keep : ∀ e ∈ es, ∀ s s', I s → step s e = .ok s' → ok s e → I s')
    (lose : ∀ e ∈ es, ∀ s s', I s → step s e = .ok s' → ¬ ok s e → ¬ G s')
    (hrun : run step s₀ es = .ok s) :
    (∀ before after s', es = before ++ after → run step s₀ before = .ok s' → G s') ↔
      Along step (fun _ => ok) s₀ es := by
  constructor
  · intro hgood
    have hinv : ∀ before after s', es = before ++ after → run step s₀ before = .ok s' → I s' := by
      intro before
      induction before using List.reverseRecOn with
      | nil =>
        intro after s' _ hbefore
        cases hbefore
        exact start
      | append_singleton before e ih =>
        intro after s' he hbefore
        obtain ⟨t, ht, hlast⟩ := run_append hbefore
        obtain ⟨s'', hs'', hend⟩ := run_cons hlast
        cases hend
        have hmem : e ∈ es := by simp [he]
        have hI := ih ([e] ++ after) t (by simp [he]) ht
        refine keep e hmem t s' hI hs'' (not_not.1 fun hbad => ?_)
        exact lose e hmem t s' hI hs'' hbad (hgood _ after s' he hbefore)
    rintro before e after s' rfl hbefore
    obtain ⟨t, ht, hrest⟩ := run_append hrun
    obtain rfl : t = s' := Except.ok.inj (ht.symm.trans hbefore)
    obtain ⟨s'', hstep, -⟩ := run_cons hrest
    refine not_not.1 fun hbad => ?_
    refine lose e (by simp) t s'' (hinv before _ t rfl ht) hstep hbad ?_
    exact hgood (before ++ [e]) after s'' (by simp) (run_append_ok ht (run_single hstep))
  · rintro along before after s' rfl hbefore
    have hmem : Along step (fun _ s e => ok s e ∧ e ∈ before ++ after) s₀ before := by
      rintro b e a t rfl ht
      exact ⟨along.left b e a t rfl ht, by simp⟩
    refine good s' (run_invariant (I := fun _ => I) start ?_ hmem hbefore)
    rintro - t e t' hI ⟨hok, hin⟩ hstep
    exact keep e hin t t' hI hstep hok

/-! ## Two levels -/

/-- Every event of the list is one that `permits` allows where the abstract machine `apply` meets
it. -/
def Permitted {τ : Type} (apply : τ → ε → τ) (permits : τ → ε → Prop) : τ → List ε → Prop
  | _, [] => True
  | t, e :: es => permits t e ∧ Permitted apply permits (apply t e) es

/-- Steps that follow the abstract machine make up a run that does. -/
theorem run_refines {τ : Type} {apply : τ → ε → τ} {permits : τ → ε → Prop} {R : τ → σ → Prop}
    (follow : ∀ t s e, R t s → permits t e → ∃ s', step s e = .ok s' ∧ R (apply t e) s')
    {t : τ} {s : σ} (start : R t s) {es : List ε} (hp : Permitted apply permits t es) :
    ∃ s', run step s es = .ok s' ∧ R (es.foldl apply t) s' := by
  induction es generalizing t s with
  | nil => exact ⟨s, rfl, start⟩
  | cons e es ih =>
    obtain ⟨s', hstep, hR⟩ := follow t s e start hp.1
    obtain ⟨s'', hrest, hR'⟩ := ih hR hp.2
    exact ⟨s'', run_cons_ok hstep hrest, hR'⟩

end CassandraApi.Lib
