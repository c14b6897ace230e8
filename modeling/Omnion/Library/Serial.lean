import Mathlib.Data.List.Nodup
import Mathlib.Logic.Function.Basic

/-!
# Serial orders

Calls that run at the same time, each with a request, and the effect a request has when its
call runs alone. What the calls that are done have made of the state is `Serializable` when
running them one after another, in some order, makes it too.
-/

namespace Serial

variable {ι ρ β : Type*} {effect : ρ → β → β → Prop} {b c d : β} {done : ι → Option ρ} {i : ι} {r : ρ}
  {order : List (ι × ρ)}

/-- The calls of `order`, one after another, lead from `b` to `c`. -/
inductive Chain (effect : ρ → β → β → Prop) (b : β) : List (ι × ρ) → β → Prop where
  | nil : Chain effect b [] b
  | snoc {order : List (ι × ρ)} {x : ι × ρ} {c d : β} :
      Chain effect b order c → effect x.2 c d → Chain effect b (order ++ [x]) d

/-- What a call of the order brings about and the others keep, holds at the end. -/
theorem Chain.of_mem {P : β → Prop} {x : ι × ρ} (h : Chain effect b order c) (hx : x ∈ order)
    (hdoes : ∀ b c, effect x.2 b c → P c) (hkeep : ∀ y ∈ order, ∀ b c, effect y.2 b c → P b → P c) : P c := by
  induction h with
  | nil => cases hx
  | @snoc order y c d _ heffect ih =>
    rcases List.mem_append.mp hx with hx | hx
    · exact hkeep y (by simp) _ _ heffect (ih hx fun z hz => hkeep z (List.mem_append_left _ hz))
    · rw [List.mem_singleton.mp hx] at hdoes
      exact hdoes _ _ heffect

/-- **The calls that are done**, each once and in some order, lead from `b` to `c`. -/
def Serializable (effect : ρ → β → β → Prop) (b : β) (done : ι → Option ρ) (c : β) : Prop :=
  ∃ order : List (ι × ρ), (order.map Prod.fst).Nodup ∧ (∀ i r, (i, r) ∈ order ↔ done i = some r) ∧
    Chain effect b order c

theorem Serializable.refl (h : ∀ i, done i = none) : Serializable effect b done b :=
  ⟨[], List.nodup_nil, fun i r => by simp [h i], .nil⟩

theorem Serializable.snoc [DecidableEq ι] (h : Serializable effect b done c) (hi : done i = none)
    (heffect : effect r c d) :
    Serializable effect b (Function.update done i (some r)) d := by
  obtain ⟨order, hnodup, hdone, hchain⟩ := h
  refine ⟨order ++ [(i, r)], ?_, fun j q => ?_, hchain.snoc heffect⟩
  · rw [List.map_append, List.nodup_append]
    refine ⟨hnodup, List.nodup_singleton i, ?_⟩
    rintro j hj k hk rfl
    obtain ⟨⟨j, q⟩, hq, rfl⟩ := List.mem_map.mp hj
    obtain rfl : j = i := List.mem_singleton.mp hk
    rw [(hdone j q).mp hq] at hi
    cases hi
  · rw [List.mem_append, List.mem_singleton, Prod.mk.injEq, hdone]
    by_cases hj : j = i
    · subst hj
      simp [hi, eq_comm]
    · simp [hj]

end Serial
