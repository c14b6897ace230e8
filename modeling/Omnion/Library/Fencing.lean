import Mathlib.Logic.Function.Basic
import Mathlib.Data.List.Nodup
import Mathlib.Tactic.SplitIfs

/-!
# Fencing tokens

Every key that is in use has a token, which each claim on the key raises. A party
that claims a key keeps the token as a permit, and shows it when it reports. A
permit is current when the key's token is still the permit's: nobody has claimed
the key since. The store need not check permits for that: claims that wait until
no permit on the key is left out keep all permits current, and no two on one key.

The tokens are a function `token : κ → Option τ`, `none` for keys not in use, and
`permits i` are those party `i` still has.
-/

namespace Fencing

variable {κ τ ι : Type*} {token token' : κ → Option τ} {permits : ι → List (κ × τ)}

/-- Every permit is current. -/
def Current (token : κ → Option τ) (permits : ι → List (κ × τ)) : Prop :=
  ∀ i, ∀ p ∈ permits i, token p.1 = some p.2

/-- No permit on a key is left out. -/
def Quiet (permits : ι → List (κ × τ)) (k : κ) : Prop := ∀ i, ∀ p ∈ permits i, p.1 ≠ k

/-- No two permits are on one key. -/
def Exclusive (permits : ι → List (κ × τ)) : Prop :=
  (∀ i, ((permits i).map Prod.fst).Nodup) ∧ ∀ i j, i ≠ j → ∀ p ∈ permits i, ∀ q ∈ permits j, p.1 ≠ q.1

theorem Current.mono (h : Current token permits) (hle : ∀ k a, token k = some a → token' k = some a) :
    Current token' permits := fun i p hp => hle _ _ (h i p hp)

theorem Current.anti {permits' : ι → List (κ × τ)} (h : Current token permits)
    (hsub : ∀ i, ∀ p ∈ permits' i, p ∈ permits i) : Current token permits' :=
    fun i p hp => h i p (hsub i p hp)

theorem Exclusive.anti {permits' : ι → List (κ × τ)} (h : Exclusive permits)
    (hsub : ∀ i, ∀ p ∈ permits' i, p ∈ permits i) (hnodup : ∀ i, ((permits' i).map Prod.fst).Nodup) :
    Exclusive permits' :=
  ⟨hnodup, fun i j hij p hp q hq => h.2 i j hij p (hsub i p hp) q (hsub j q hq)⟩

theorem Current.claim {k : κ} (h : Current token permits) (hquiet : Quiet permits k)
    (hother : ∀ k' a, k' ≠ k → token k' = some a → token' k' = some a) : Current token' permits :=
  fun i p hp => hother _ _ (hquiet i p hp) (h i p hp)

theorem Current.update [DecidableEq ι] {θ : Type*} {f : θ → List (κ × τ)} {parties : ι → θ} {i : ι}
    {p : θ}
    (h : Current token fun j => f (parties j)) (hp : ∀ x ∈ f p, x ∈ f (parties i) ∨ token x.1 = some x.2) :
    Current token fun j => f (Function.update parties i p j) := by
  refine (Function.forall_update_iff parties fun _ p => ∀ x ∈ f p, token x.1 = some x.2).mpr
    ⟨fun x hx => ?_, fun j _ => h j⟩
  rcases hp x hx with hold | hnew
  · exact h i x hold
  · exact hnew

theorem Exclusive.update [DecidableEq ι] {θ : Type*} {f : θ → List (κ × τ)} {parties : ι → θ}
    {i : ι} {p : θ} (h : Exclusive fun j => f (parties j)) (hnodup : ((f p).map Prod.fst).Nodup)
    (hp : ∀ x ∈ f p, x ∈ f (parties i) ∨ Quiet (fun j => f (parties j)) x.1) :
    Exclusive fun j => f (Function.update parties i p j) := by
  have hother : ∀ j, j ≠ i → ∀ x ∈ f p, ∀ y ∈ f (parties j), x.1 ≠ y.1 := by
    intro j hj x hx y hy
    rcases hp x hx with hold | hquiet
    · exact h.2 i j (Ne.symm hj) x hold y hy
    · exact (hquiet j y hy).symm
  constructor
  · exact (Function.forall_update_iff parties fun _ p => ((f p).map Prod.fst).Nodup).mpr
      ⟨hnodup, fun j _ => h.1 j⟩
  · intro j k hjk x hx y hy
    simp only [Function.update_apply] at hx hy
    split_ifs at hx hy with hj hk hk
    · exact absurd (hj.trans hk.symm) hjk
    · exact hother k hk x hx y hy
    · exact (hother j hj y hy x hx).symm
    · exact h.2 j k hjk x hx y hy

theorem Exclusive.quiet [DecidableEq ι] {θ : Type*} {f : θ → List (κ × τ)} {parties : ι → θ} {i : ι}
    {p : θ}
    (h : Exclusive fun j => f (parties j)) {x : κ × τ} {rest : List (κ × τ)} (hi : f (parties i) = x :: rest)
    (hp : ∀ y ∈ f p, y ∈ rest) : Quiet (fun j => f (Function.update parties i p j)) x.1 := by
  have hx : x ∈ f (parties i) := by
    rw [hi]
    exact List.mem_cons_self
  refine (Function.forall_update_iff parties fun _ p => ∀ y ∈ f p, y.1 ≠ x.1).mpr ⟨fun y hy hkey => ?_, ?_⟩
  · have hnodup : ((f (parties i)).map Prod.fst).Nodup := h.1 i
    rw [hi] at hnodup
    exact (List.nodup_cons.mp hnodup).1 (List.mem_map.mpr ⟨y, hp y hy, hkey⟩)
  · exact fun j hj y hy => h.2 j i hj y hy x hx

end Fencing
