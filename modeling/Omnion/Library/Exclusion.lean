import Mathlib.Logic.Function.Basic
import Mathlib.Tactic.SplitIfs

/-!
# Critical sections

A party that is in a section is in it for a key: `inside i` is the key of party `i`, and
`none` while it is in no section. Nothing keeps parties from entering. Where each enters only
while its key is `Free`, no two are ever in for one key, and what holds of the key as a party
enters can be changed by nobody else: the key is `Guarded`.
-/

namespace Exclusion

variable {ι κ : Type*} {inside : ι → Option κ} {P Q : κ → Prop} {i : ι} {k : κ}

/-- Nobody but party `i` is in for the key. -/
def Free (inside : ι → Option κ) (i : ι) (k : κ) : Prop := ∀ j, j ≠ i → inside j ≠ some k

/-- No two parties are in for one key, and `P` holds of the keys they are in for. -/
structure Guarded (inside : ι → Option κ) (P : κ → Prop) : Prop where
  exclusive : ∀ i j k, inside i = some k → inside j = some k → i = j
  holds : ∀ i k, inside i = some k → P k

theorem Guarded.free (h : Guarded inside P) (hi : inside i = some k) : Free inside i k :=
  fun j hj hin => hj (h.exclusive j i k hin hi)

theorem Guarded.mono (h : Guarded inside P) (hPQ : ∀ k, P k → Q k) : Guarded inside Q :=
  ⟨h.exclusive, fun i k hi => hPQ k (h.holds i k hi)⟩

section Update

variable [DecidableEq ι] {o : Option κ}

/-- A party goes on. What it leaves behind may change; where it enters, it is alone. -/
theorem Guarded.update (h : Guarded inside P) (hPQ : ∀ k, inside i ≠ some k → P k → Q k)
    (ho : ∀ k, o = some k → Free inside i k ∧ Q k) : Guarded (Function.update inside i o) Q := by
  constructor
  · intro a b k ha hb
    simp only [Function.update_apply] at ha hb
    split_ifs at ha hb with hai hbi hbi
    · rw [hai, hbi]
    · exact absurd hb ((ho k ha).1 b hbi)
    · exact absurd ha ((ho k hb).1 a hai)
    · exact h.exclusive a b k ha hb
  · refine (Function.forall_update_iff inside fun _ o => ∀ k, o = some k → Q k).mpr
      ⟨fun k hk => (ho k hk).2, fun j hj k hk => hPQ k (fun hi => hj ?_) (h.holds j k hk)⟩
    exact h.exclusive j i k hk hi

theorem Guarded.enter (h : Guarded inside P) (hfree : Free inside i k) (hP : P k) :
    Guarded (Function.update inside i (some k)) P :=
  h.update (fun _ _ hk => hk) fun k' hk' => by
    cases hk'
    exact ⟨hfree, hP⟩

theorem Guarded.leave (h : Guarded inside P) (hPQ : ∀ k, inside i ≠ some k → P k → Q k) :
    Guarded (Function.update inside i none) Q :=
  h.update hPQ fun _ hk => by cases hk

end Update

theorem guarded_none : Guarded (fun _ : ι => (none : Option κ)) P :=
  ⟨nofun, nofun⟩

end Exclusion
