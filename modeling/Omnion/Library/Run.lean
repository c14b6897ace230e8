import Mathlib.Logic.Relation
import Mathlib.Tactic.SplitIfs

/-!
# Runs of a step function

A system is given by a partial step function `step : σ → ε → Option σ`: in state
`s` the event `e` either cannot happen (`none`) or leads to `step s e`. A run is
a list of events taken one after the other. Which interleaving of the parties the
events describe is part of the list, so a statement about every run is a
statement about every interleaving.

A run may be restricted: `Run step ok s es t` asks that every event taken
satisfies `ok` in the state it is taken in. `Run step Any` is the unrestricted
run.

## What is proved

* `Run.invariant` — what holds at the start and is kept by every allowed step
  holds at the end; `Run.invariant_of` is the same, with a second property known
  of every state.
* `Run.keeps` — what no event of a run changes is the same at its end.
* `Run.iff_allowed` — what a step keeps just when it is allowed, holds at the end just when the run
  was one of allowed steps.
* `Run.throughout_iff` — the same for what must hold all through a run.
* `Run.of_exec` — a computed execution is a run; `Run.of_exec_of` is the same under a
  restriction that a test implies. `Run.of_exec_map` and `Run.of_exec_of_map` are for
  executions of which only a part is computed.
-/

namespace Transition

variable {σ ε : Type*}

/-- The restriction that allows everything. -/
def Any : σ → ε → Prop := fun _ _ => True

/-- `Run step ok s es t`: from `s` the events `es` lead to `t`, each of them
allowed by `ok` in the state where it happens. -/
inductive Run (step : σ → ε → Option σ) (ok : σ → ε → Prop) (s : σ) : List ε → σ → Prop where
  | nil : Run step ok s [] s
  | snoc {t u : σ} {es : List ε} {e : ε} :
      Run step ok s es t → ok t e → step t e = some u → Run step ok s (es ++ [e]) u

variable {step : σ → ε → Option σ} {ok ok' : σ → ε → Prop} {s t u : σ}

theorem Run.invariant {I : σ → Prop} {es : List ε} (h : Run step ok s es t) (h0 : I s)
    (hstep : ∀ x e y, I x → ok x e → step x e = some y → I y) : I t := by
  induction h with
  | nil => exact h0
  | snoc _ hok hs ih => exact hstep _ _ _ ih hok hs

/-- As `Run.invariant`, where `J` is already known of every state of the run. -/
theorem Run.invariant_of {I J : σ → Prop} {es : List ε} (h : Run step ok s es t) (h0 : I s)
    (hJ : ∀ {es' : List ε} {x : σ}, Run step ok s es' x → J x)
    (hstep : ∀ x e y, J x → I x → ok x e → step x e = some y → I y) : I t := by
  induction h with
  | nil => exact h0
  | snoc hr hok hs ih => exact hstep _ _ _ (hJ hr) ih hok hs

theorem Run.keeps {α : Type*} {f : σ → α} {es : List ε} (h : Run step ok s es t)
    (hstep : ∀ e ∈ es, ∀ x y, step x e = some y → f y = f x) : f t = f s := by
  induction h with
  | nil => rfl
  | snoc _ _ hs ih =>
    rw [hstep _ (by simp) _ _ hs]
    exact ih fun e he => hstep e (by simp [he])

/-- Execute a list of events. -/
def exec (step : σ → ε → Option σ) : σ → List ε → Option σ
  | s, [] => some s
  | s, e :: es => (step s e).bind fun t => exec step t es

theorem Run.cons {e : ε} {es : List ε} (hok : ok s e) (hs : step s e = some t)
    (h : Run step ok t es u) : Run step ok s (e :: es) u := by
  induction h with
  | nil => exact .snoc .nil hok hs
  | snoc _ hok' hs' ih => exact .snoc ih hok' hs'

theorem Run.trans {es es' : List ε} (h : Run step ok s es t) (h' : Run step ok t es' u) :
    Run step ok s (es ++ es') u := by
  induction h' with
  | nil => rwa [List.append_nil]
  | snoc _ hok hs ih =>
    rw [← List.append_assoc]
    exact .snoc ih hok hs

theorem Run.mono {es : List ε} (h : Run step ok s es t) (hweaker : ∀ x e, ok x e → ok' x e) : Run step ok' s es t := by
  induction h with
  | nil => exact .nil
  | snoc _ hok hs ih => exact .snoc ih (hweaker _ _ hok) hs

theorem Run.mono_of {I : σ → Prop} {es : List ε} (h : Run step ok s es t)
    (hI : ∀ {es' : List ε} {x : σ}, Run step ok s es' x → I x)
    (hweaker : ∀ x e y, I x → ok x e → step x e = some y → ok' x e) : Run step ok' s es t := by
  induction h with
  | nil => exact .nil
  | snoc hr hok hs ih => exact .snoc ih (hweaker _ _ _ (hI hr) hok hs) hs

theorem Run.last {es : List ε} {e : ε} (h : Run step ok s (es ++ [e]) u) :
    ∃ t, Run step ok s es t ∧ ok t e ∧ step t e = some u := by
  generalize hes : es ++ [e] = es' at h
  cases h with
  | nil => simp at hes
  | snoc hr hok hs =>
    obtain ⟨rfl, rfl⟩ := List.append_inj' hes rfl |>.imp_right List.singleton_inj.mp
    exact ⟨_, hr, hok, hs⟩

theorem Run.unique {es : List ε} (h : Run step ok s es t) (h' : Run step ok' s es u) : t = u := by
  induction h generalizing u with
  | nil =>
    generalize hes : ([] : List ε) = es at h'
    cases h' with
    | nil => rfl
    | snoc _ _ _ => simp at hes
  | snoc _ _ hs ih =>
    obtain ⟨x, hr', -, hs'⟩ := h'.last
    obtain rfl := ih hr'
    exact Option.some.inj (hs.symm.trans hs')

/-- What a step keeps just when it is allowed, holds after a run just when every step of it was allowed. -/
theorem Run.iff_allowed {I J : σ → Prop} {es : List ε} (h : Run step Any s es t) (h0 : I s)
    (hJ : ∀ {es' : List ε} {x : σ}, Run step Any s es' x → J x)
    (hstep : ∀ x e y, J x → step x e = some y → (I y ↔ I x ∧ ok x e)) : I t ↔ Run step ok s es t := by
  induction h with
  | nil => exact iff_of_true h0 .nil
  | snoc hr _ hs ih =>
    rw [hstep _ _ _ (hJ hr) hs, ih]
    constructor
    · rintro ⟨hallowed, hok⟩
      exact .snoc hallowed hok hs
    · intro hrun
      obtain ⟨x, hr', hok', -⟩ := hrun.last
      obtain rfl := hr.unique hr'
      exact ⟨hr', hok'⟩

/-- What an allowed step keeps and another one breaks, holds all through a run just when every step
of it was allowed. -/
theorem Run.throughout_iff {I J : σ → Prop} {es : List ε} (h : Run step ok' s es t) (h0 : I s)
    (hJ : ∀ {es' : List ε} {x : σ}, Run step ok' s es' x → J x)
    (hstep : ∀ x e y, J x → I x → ok' x e → step x e = some y → (I y ↔ ok x e)) :
    (∀ es' x, es' <+: es → Run step Any s es' x → I x) ↔ Run step ok s es t := by
  induction h with
  | nil =>
    refine iff_of_true (fun es' x hes' hx => ?_) .nil
    obtain rfl := List.prefix_nil.mp hes'
    obtain rfl := (Run.nil : Run step ok s [] s).unique hx
    exact h0
  | @snoc y z es e hr hok' hs ih =>
    have hy : Run step Any s es y := hr.mono fun _ _ _ => trivial
    have hz : Run step Any s (es ++ [e]) z := .snoc hy trivial hs
    constructor
    · intro hall
      have hallowed := ih.mp fun es' x hes' => hall es' x (hes'.trans (List.prefix_append _ _))
      have hbefore := hall es y (List.prefix_append _ _) hy
      exact .snoc hallowed ((hstep y e z (hJ hr) hbefore hok' hs).mp (hall _ z (List.prefix_refl _) hz)) hs
    · intro hrun es' x hes' hx
      obtain ⟨y', hr', hok, -⟩ := hrun.last
      obtain rfl := hr.unique hr'
      have hbefore := ih.mpr hr'
      rcases List.prefix_concat_iff.mp hes' with rfl | hes'
      · obtain rfl := hz.unique hx
        exact (hstep y e z (hJ hr) (hbefore es y (List.prefix_refl _) hy) hok' hs).mpr hok
      · exact hbefore es' x hes' hx

theorem Run.of_exec : ∀ {es : List ε} {s t : σ}, exec step s es = some t → Run step Any s es t
  | [], _, _, h => by
    cases h
    exact .nil
  | _ :: _, _, _, h => by
    obtain ⟨_, hs, ht⟩ := Option.bind_eq_some_iff.mp h
    exact .cons trivial hs (of_exec ht)

/-- A computed execution whose steps pass a test is a run under what the test says. -/
theorem Run.of_exec_of {p : σ → ε → Bool} (hp : ∀ s e, p s e = true → ok s e) :
    ∀ {es : List ε} {s t : σ},
    exec (fun s e => if p s e then step s e else none) s es = some t → Run step ok s es t
  | [], _, _, h => by
    cases h
    exact .nil
  | e :: _, s, _, h => by
    obtain ⟨_, hs, ht⟩ := Option.bind_eq_some_iff.mp h
    simp only at hs
    split_ifs at hs with hpass
    exact .cons (hp s e hpass) hs (of_exec_of hp ht)

theorem Run.of_exec_map {β : Type*} {f : σ → β} {b : β} {es : List ε} (h : (exec step s es).map f = some b) :
    ∃ t, Run step Any s es t ∧ f t = b := by
  obtain ⟨t, ht, hb⟩ := Option.map_eq_some_iff.mp h
  exact ⟨t, .of_exec ht, hb⟩

theorem Run.of_exec_of_map {p : σ → ε → Bool} (hp : ∀ s e, p s e = true → ok s e) {β : Type*} {f : σ → β} {b : β}
    {es : List ε} (h : (exec (fun s e => if p s e then step s e else none) s es).map f = some b) :
    ∃ t, Run step ok s es t ∧ f t = b := by
  obtain ⟨t, ht, hb⟩ := Option.map_eq_some_iff.mp h
  exact ⟨t, .of_exec_of hp ht, hb⟩

end Transition
