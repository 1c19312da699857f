import Mathlib
import FlexPS.Lib.Except

/-! # Guarded runs of a step function

A machine takes one input at a time, may stop with a fault, and emits outputs.
`Runs step guard s₀ as s bs` says that the inputs `as`, each admitted by the
guard when it is taken, lead from `s₀` to `s` and emit `bs`. The guard sees the
outputs emitted so far, so that an input can wait for an output.

The file gives the two rules every proof about runs below uses: an invariant
that one step preserves holds after every run, and a lockstep relation between
two machines carries runs of the one to runs of the other.
-/

namespace Machine

variable {σ τ α β γ ε : Type}

/-- The runs of `step` from `s₀` whose inputs the guard admits. -/
inductive Runs (step : σ → α → Except ε (σ × List β)) (guard : σ → List β → α → Prop) (s₀ : σ) :
    List α → σ → List β → Prop where
  | nil : Runs step guard s₀ [] s₀ []
  | snoc {as s bs a s' out} : Runs step guard s₀ as s bs → guard s bs a →
      step s a = .ok (s', out) → Runs step guard s₀ (as ++ [a]) s' (bs ++ out)

namespace Runs

variable {step : σ → α → Except ε (σ × List β)} {guard : σ → List β → α → Prop} {s₀ : σ}

/-- What holds initially and is preserved by every admitted step holds after every run. -/
theorem invariant {P : List α → σ → List β → Prop} (init : P [] s₀ [])
    (next : ∀ as s bs a s' out, Runs step guard s₀ as s bs → P as s bs → guard s bs a →
      step s a = .ok (s', out) → P (as ++ [a]) s' (bs ++ out))
    {as s bs} (run : Runs step guard s₀ as s bs) : P as s bs := by
  induction run with
  | nil => exact init
  | snoc run admitted stepped ih => exact next _ _ _ _ _ _ run ih admitted stepped

theorem mono {guard' : σ → List β → α → Prop} (imp : ∀ s bs a, guard s bs a → guard' s bs a)
    {as s bs} (run : Runs step guard s₀ as s bs) : Runs step guard' s₀ as s bs := by
  induction run with
  | nil => exact .nil
  | snoc _ admitted stepped ih => exact .snoc ih (imp _ _ _ admitted) stepped

/-- A run is determined by its inputs. -/
theorem unique {as s bs s' bs'} (run : Runs step guard s₀ as s bs)
    (run' : Runs step guard s₀ as s' bs') : s = s' ∧ bs = bs' := by
  induction run generalizing s' bs' with
  | nil =>
      generalize same : ([] : List α) = as at run'
      cases run' with
      | nil => exact ⟨rfl, rfl⟩
      | snoc => exact absurd same (by simp)
  | @snoc as s bs a _ _ run admitted stepped ih =>
      generalize same : as ++ [a] = inputs at run'
      cases run' with
      | nil => exact absurd same (by simp)
      | snoc run' _ stepped' =>
          obtain ⟨rfl, last⟩ := List.append_inj' same rfl
          cases last
          obtain ⟨rfl, rfl⟩ := ih run'
          cases stepped.symm.trans stepped'
          exact ⟨rfl, rfl⟩

/-- Lockstep: a relation between states and outputs that the steps of a run keep carries
    the run to a run of another machine on the same inputs. The step condition may use that
    both states were reached by runs. -/
theorem lockstep {step' : τ → α → Except ε (τ × List γ)} {guard' : τ → List γ → α → Prop} {t₀ : τ}
    {R : σ → List β → τ → List γ → Prop} (init : R s₀ [] t₀ [])
    (next : ∀ as s bs t cs a s' out, Runs step guard s₀ as s bs → Runs step' guard' t₀ as t cs →
      R s bs t cs → guard s bs a → step s a = .ok (s', out) →
      guard' t cs a ∧ ∃ t' out', step' t a = .ok (t', out') ∧ R s' (bs ++ out) t' (cs ++ out'))
    {as s bs} (run : Runs step guard s₀ as s bs) :
    ∃ t cs, Runs step' guard' t₀ as t cs ∧ R s bs t cs := by
  induction run with
  | nil => exact ⟨t₀, [], .nil, init⟩
  | snoc run admitted stepped ih =>
      obtain ⟨t, cs, run', related⟩ := ih
      obtain ⟨admitted', t', out', stepped', related'⟩ :=
        next _ _ _ t cs _ _ _ run run' related admitted stepped
      exact ⟨t', cs ++ out', .snoc run' admitted' stepped', related'⟩

/-- A measure that every step lowers stops the machine whatever its inputs are: at some point
    the next input is not admitted, or it makes the machine fail. -/
theorem stops {μ : Type} {r : μ → μ → Prop} [IsWellFounded μ r] (measure : σ → μ)
    (lowers : ∀ as s bs a s' out, Runs step guard s₀ as s bs → guard s bs a →
      step s a = .ok (s', out) → r (measure s') (measure s)) (schedule : Nat → α) :
    ∃ n s bs, Runs step guard s₀ ((List.range n).map schedule) s bs ∧
      (guard s bs (schedule n) → ∃ e, step s (schedule n) = .error e) := by
  by_contra endless
  push Not at endless
  have next : ∀ n s bs, Runs step guard s₀ ((List.range n).map schedule) s bs →
      ∃ s' out, Runs step guard s₀ ((List.range (n + 1)).map schedule) s' (bs ++ out) ∧
        r (measure s') (measure s) := by
    intro n s bs run
    obtain ⟨admitted, goesOn⟩ := endless n s bs run
    cases stepped : step s (schedule n) with
    | error e => exact absurd stepped (goesOn e)
    | ok result =>
        obtain ⟨s', out⟩ := result
        refine ⟨s', out, ?_, lowers _ _ _ _ _ _ run admitted stepped⟩
        rw [List.range_succ, List.map_append, List.map_singleton]
        exact .snoc run admitted stepped
  have all : ∀ n, ∃ s bs, Runs step guard s₀ ((List.range n).map schedule) s bs := by
    intro n
    induction n with
    | zero => exact ⟨s₀, [], .nil⟩
    | succ n ih =>
        obtain ⟨s, bs, run⟩ := ih
        obtain ⟨s', out, run', -⟩ := next n s bs run
        exact ⟨s', _, run'⟩
  choose state outputs run using all
  obtain ⟨n, ends⟩ := WellFounded.not_rel_apply_succ (r := r) fun n => measure (state n)
  obtain ⟨s', out, run', lower⟩ := next n _ _ (run n)
  rw [← (run'.unique (run (n + 1))).1] at ends
  exact ends lower

end Runs

/-! ## What holds whenever something is put out -/

/-- `P` holds of everything put out, together with what was put out before it. -/
def AtEach (P : List β → β → Prop) (bs : List β) : Prop :=
  ∀ before b after, bs = before ++ b :: after → P before b

theorem AtEach.nil (P : List β → β → Prop) : AtEach P [] := by
  intro before b after split
  cases before <;> cases split

theorem AtEach.append {P : List β → β → Prop} {bs : List β} (earlier : AtEach P bs) {b : β}
    (now : P bs b) : AtEach P (bs ++ [b]) := by
  intro before b' after split
  cases List.eq_nil_or_concat after with
  | inl last =>
      subst last
      obtain ⟨rfl, same⟩ := List.append_inj' split rfl
      cases same
      exact now
  | inr more =>
      obtain ⟨after, last, rfl⟩ := more
      rw [List.concat_eq_append, ← List.cons_append, ← List.append_assoc] at split
      exact earlier before b' after (List.append_inj' split rfl).1

/-! ## Computing a run -/

section Exec

variable (step : σ → α → Except ε (σ × List β)) (guard : σ → List β → α → Prop)
  [∀ s bs a, Decidable (guard s bs a)]

/-- Takes the inputs one after the other, unless the guard or a fault stops it. -/
def exec (s : σ) (bs : List β) : List α → Option (σ × List β)
  | [] => some (s, bs)
  | a :: as =>
      if guard s bs a then
        match step s a with
        | .ok (s', out) => exec s' (bs ++ out) as
        | .error _ => none
      else none

variable {step guard}

theorem Runs.exec {s₀ s s' : σ} {bs bs' : List β} {as as' : List α} (run : Runs step guard s₀ as s bs)
    (computed : exec step guard s bs as' = some (s', bs')) :
    Runs step guard s₀ (as ++ as') s' bs' := by
  induction as' generalizing as s bs with
  | nil =>
      cases computed
      simpa using run
  | cons a rest ih =>
      unfold Machine.exec at computed
      split at computed
      · next admitted =>
          split at computed
          · next stepped => simpa using ih (run.snoc admitted stepped) computed
          · cases computed
      · cases computed

variable (step guard) in
/-- A computed run is a run. -/
theorem runs_of_exec (s₀ : σ) (as : List α) (P : σ → List β → Prop) [∀ s bs, Decidable (P s bs)]
    (computed : (exec step guard s₀ [] as).any (fun x => P x.1 x.2) = true) :
    ∃ s bs, Runs step guard s₀ as s bs ∧ P s bs := by
  obtain ⟨⟨s, bs⟩, found, holds⟩ := (Option.any_eq_true _ _).mp computed
  exact ⟨s, bs, Runs.nil.exec found, of_decide_eq_true holds⟩

variable (guard) in
theorem exec_append (s : σ) (bs : List β) (as as' : List α) :
    exec step guard s bs (as ++ as') = (exec step guard s bs as).bind fun x =>
      exec step guard x.1 x.2 as' := by
  induction as generalizing s bs with
  | nil => rfl
  | cons a as ih =>
      simp only [List.cons_append, exec]
      split
      · split
        · exact ih ..
        · rfl
      · rfl

/-- A run is computed. -/
theorem exec_of_runs {s₀ s : σ} {bs : List β} {as : List α} (run : Runs step guard s₀ as s bs) :
    exec step guard s₀ [] as = some (s, bs) := by
  induction run with
  | nil => rfl
  | snoc _ admitted stepped ih =>
      simp only [exec_append, ih, Option.bind_some, exec, if_pos admitted, stepped]

end Exec

end Machine
