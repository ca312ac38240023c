import Mathlib.Tactic.TypeStar

/-!
# Restricted runs of a labelled machine

A machine is a partial step function `step : σ → α → Option σ`: the label says which thread moves and
how every choice of the environment falls, `none` says that the label is not enabled. `Reach step R s₀`
is the set of states reached from `s₀` by runs all of whose steps satisfy the restriction `R`, so that
a statement about "every run in which no step does X" is a statement about `Reach` with `R` excluding X.

`Reach.invariant` is the induction rule, `Reach.strengthen` turns one restriction into another along an
invariant, and `run` executes a list of labels, checking a decidable restriction at every step.
`Reach.map` and `Reach.exists_of_map` carry runs over to a projection of the machine and back.
`withHistory` runs the machine next to a list in which every step leaves its record, for properties that speak
about the past of a state.
-/

namespace Csf.Lib

variable {σ α : Type*} {step : σ → α → Option σ} {R R' : σ → α → σ → Prop} {s₀ s : σ}

/-- The states reached from `s₀` by steps that satisfy the restriction `R`. -/
inductive Reach (step : σ → α → Option σ) (R : σ → α → σ → Prop) (s₀ : σ) : σ → Prop
  | init : Reach step R s₀ s₀
  | next {s s' : σ} {a : α} : Reach step R s₀ s → R s a s' → step s a = some s' → Reach step R s₀ s'

namespace Reach

/-- What holds at the start and is kept by every restricted step holds in every state reached. -/
theorem invariant (h : Reach step R s₀ s) {I : σ → Prop} (hinit : I s₀)
    (hstep : ∀ s a s', I s → R s a s' → step s a = some s' → I s') : I s := by
  induction h with
  | init => exact hinit
  | next _ hR hs ih => exact hstep _ _ _ ih hR hs

/-- If every restricted step from a state satisfying the invariant also meets `R'`, and the invariant is
kept by the steps that meet both, then the run meets `R'` throughout. -/
theorem strengthen (h : Reach step R s₀ s) (R' : σ → α → σ → Prop) (I : σ → Prop) (hinit : I s₀)
    (hR : ∀ s a s', I s → R s a s' → step s a = some s' → R' s a s')
    (hstep : ∀ s a s', I s → R s a s' → R' s a s' → step s a = some s' → I s') :
    Reach step R' s₀ s ∧ I s := by
  induction h with
  | init => exact ⟨.init, hinit⟩
  | next _ hr hs ih =>
    have hr' := hR _ _ _ ih.2 hr hs
    exact ⟨.next ih.1 hr' hs, hstep _ _ _ ih.2 hr hr' hs⟩

theorem mono (h : Reach step R s₀ s) (hR : ∀ s a s', R s a s' → R' s a s') : Reach step R' s₀ s := by
  induction h with
  | init => exact .init
  | next _ hr hs ih => exact .next ih (hR _ _ _ hr) hs

theorem trans {s₁ : σ} (h : Reach step R s₀ s) (h' : Reach step R s s₁) : Reach step R s₀ s₁ := by
  induction h' with
  | init => exact h
  | next _ hr hs ih => exact .next ih hr hs

end Reach

/-! ### History variables -/

section
variable {β : Type*}

/-- The machine with a history: every step puts what `note` says of it in front of the list. -/
def withHistory (step : σ → α → Option σ) (note : σ → α → List β) (x : σ × List β) (a : α) : Option (σ × List β) :=
  (step x.1 a).map fun s' => (s', note x.1 a ++ x.2)

theorem withHistory_eq_some {note : σ → α → List β} {x x' : σ × List β} {a : α}
    (h : withHistory step note x a = some x') : step x.1 a = some x'.1 ∧ x'.2 = note x.1 a ++ x.2 := by
  obtain ⟨s', hs, rfl⟩ := Option.map_eq_some_iff.mp h
  exact ⟨hs, rfl⟩

end

/-! ### Projections -/

section
variable {τ : Type*} {step' : τ → α → Option τ} {f : σ → τ}

theorem Reach.map (hf : ∀ s a, step' (f s) a = (step s a).map f) (h : Reach step (fun _ _ _ => True) s₀ s) :
    Reach step' (fun _ _ _ => True) (f s₀) (f s) := by
  induction h with
  | init => exact .init
  | next _ _ hs ih => exact ih.next trivial (by rw [hf, hs, Option.map_some])

theorem Reach.exists_of_map {t : τ} (hf : ∀ s a, step' (f s) a = (step s a).map f)
    (h : Reach step' (fun _ _ _ => True) (f s₀) t) : ∃ s, Reach step (fun _ _ _ => True) s₀ s ∧ f s = t := by
  induction h with
  | init => exact ⟨s₀, .init, rfl⟩
  | next _ _ hs ih =>
    obtain ⟨s, hreach, rfl⟩ := ih
    rw [hf] at hs
    obtain ⟨s', hs', rfl⟩ := Option.map_eq_some_iff.mp hs
    exact ⟨s', hreach.next trivial hs', rfl⟩

end

/-! ### Executing a list of labels -/

/-- Execute the labels one after the other; `none` if one is not enabled or its step is not allowed. -/
def run (step : σ → α → Option σ) (allowed : σ → α → σ → Bool) (s : σ) : List α → Option σ
  | [] => some s
  | a :: as =>
    match step s a with
    | none => none
    | some s' => if allowed s a s' then run step allowed s' as else none

theorem run_cons_eq_some {allowed : σ → α → σ → Bool} {a : α} {as : List α} {s t : σ} :
    run step allowed s (a :: as) = some t ↔
      ∃ s', step s a = some s' ∧ allowed s a s' = true ∧ run step allowed s' as = some t := by
  rw [run]
  cases step s a with
  | none => simp
  | some s' => simp

theorem run_append_eq_some {allowed : σ → α → σ → Bool} {as as' : List α} {s t : σ} :
    run step allowed s (as ++ as') = some t ↔
      ∃ s', run step allowed s as = some s' ∧ run step allowed s' as' = some t := by
  induction as generalizing s with
  | nil => simp [run]
  | cons a as ih =>
    simp only [List.cons_append, run_cons_eq_some, ih]
    constructor
    · rintro ⟨u, hu, hok, s', hs', ht⟩
      exact ⟨s', ⟨u, hu, hok, hs'⟩, ht⟩
    · rintro ⟨s', ⟨u, hu, hok, hs'⟩, ht⟩
      exact ⟨u, hu, hok, s', hs', ht⟩

theorem Reach.of_run_from {allowed : σ → α → σ → Bool} (hR : ∀ s a s', allowed s a s' = true → R s a s')
    (as : List α) : ∀ {s s' : σ}, Reach step R s₀ s → run step allowed s as = some s' →
      Reach step R s₀ s' := by
  induction as with
  | nil =>
    intro s s' hs hrun
    rw [run, Option.some.injEq] at hrun
    exact hrun ▸ hs
  | cons a as ih =>
    intro s s' hs hrun
    obtain ⟨t, ht, hok, hrun⟩ := run_cons_eq_some.mp hrun
    exact ih (.next hs (hR _ _ _ hok) ht) hrun

theorem Reach.of_run {allowed : σ → α → σ → Bool} (hR : ∀ s a s', allowed s a s' = true → R s a s')
    {as : List α} (h : run step allowed s₀ as = some s) : Reach step R s₀ s :=
  .of_run_from hR as .init h

theorem exists_run {allowed : σ → α → σ → Bool} (as : List α) {P : σ → Prop} [DecidablePred P]
    (h : (run step allowed s₀ as).any (fun s => decide (P s)) = true) : ∃ s, run step allowed s₀ as = some s ∧ P s := by
  cases hrun : run step allowed s₀ as with
  | none => simp [hrun] at h
  | some s => exact ⟨s, rfl, by simpa [hrun] using h⟩

theorem Reach.exists_of_run {allowed : σ → α → σ → Bool} (hR : ∀ s a s', allowed s a s' = true → R s a s')
    (as : List α) {P : σ → Prop} [DecidablePred P]
    (h : (run step allowed s₀ as).any (fun s => decide (P s)) = true) : ∃ s, Reach step R s₀ s ∧ P s := by
  obtain ⟨s, hrun, hs⟩ := exists_run as h
  exact ⟨s, .of_run hR hrun, hs⟩

theorem exists_reach (step : σ → α → Option σ) (R : σ → α → σ → Prop) [∀ s a s', Decidable (R s a s')] (s₀ : σ)
    (as : List α) {P : σ → Prop} [DecidablePred P]
    (h : (run step (fun s a s' => decide (R s a s')) s₀ as).any (fun s => decide (P s)) = true) :
    ∃ s, Reach step R s₀ s ∧ P s :=
  Reach.exists_of_run (fun _ _ _ => of_decide_eq_true) as h

end Csf.Lib
