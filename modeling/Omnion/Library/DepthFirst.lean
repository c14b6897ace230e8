import Mathlib.Algebra.BigOperators.Group.List.Basic
import Mathlib.Algebra.GroupWithZero.Nat
import Mathlib.Algebra.Order.BigOperators.Group.List
import Mathlib.Data.Nat.Notation

/-!
# Walks with a stack

What is on a stack is visited from the top on, and what is in it is put on the stack, the last on top. What the
visits do is what they do one after the other, in the order of the walk (`walk_eq_foldl`); and what each visit is
worth adds up to what is worth all that the walk comes by (`sum_order`).
-/

namespace DepthFirst

variable {D S : Type*}

/-- Things that have others in them, which weigh less together. -/
structure Nested (D : Type*) where
  children : D → List D
  weight : D → ℕ
  lighter : ∀ d, ((children d).map weight).sum < weight d

variable (n : Nested D)

/-- What is in a thing is put on the stack. -/
def Nested.push (d : D) (stack : List D) : List D := (n.children d).reverse ++ stack

theorem Nested.sum_push (d : D) (stack : List D) :
    ((n.push d stack).map n.weight).sum < ((d :: stack).map n.weight).sum := by
  have hlighter := n.lighter d
  simp only [push, List.map_append, List.map_reverse, List.sum_append, List.sum_reverse, List.map_cons, List.sum_cons]
  omega

def walk (visit : S → D → S) (s : S) : List D → S
  | [] => s
  | d :: stack => walk visit (visit s d) (n.push d stack)
termination_by stack => (stack.map n.weight).sum
decreasing_by exact n.sum_push d stack

/-- What it comes by, in order. -/
def order : List D → List D
  | [] => []
  | d :: stack => d :: order (n.push d stack)
termination_by stack => (stack.map n.weight).sum
decreasing_by exact n.sum_push d stack

variable {n} {visit : S → D → S} {s : S} {stack : List D}

/-- **The visits are made one after the other.** -/
theorem walk_eq_foldl : walk n visit s stack = (order n stack).foldl visit s := by
  induction stack using order.induct n generalizing s with
  | case1 => simp [walk, order]
  | case2 d stack ih => rw [walk, order, List.foldl_cons, ih]

/-- **What each is worth adds up**, where all in a thing are worth what the thing is worth but for its own part. -/
theorem sum_order {M : Type*} [AddCommMonoid M] {own whole : D → M}
    (h : ∀ d, whole d = own d + ((n.children d).map whole).sum) :
    ((order n stack).map own).sum = (stack.map whole).sum := by
  induction stack using order.induct n with
  | case1 => simp [order]
  | case2 d stack ih =>
    rw [order, List.map_cons, List.sum_cons, ih, Nested.push, List.map_append, List.sum_append,
      List.map_reverse, List.sum_reverse,
      List.map_cons, List.sum_cons, h d, add_assoc]

/-- What every visit keeps the walk keeps; what is in something on the stack may be told from what is not. -/
theorem walk_invariant {p : S → Prop} {q : D → Prop} (hchild : ∀ d, q d → ∀ c ∈ n.children d, q c)
    (hvisit : ∀ s d, q d → p s → p (visit s d)) (hs : p s) (hstack : ∀ d ∈ stack, q d) :
    p (walk n visit s stack) := by
  induction stack using order.induct n generalizing s with
  | case1 => simpa [walk] using hs
  | case2 d stack ih =>
    have hd := hstack d (List.mem_cons_self ..)
    rw [walk]
    refine ih (hvisit s d hd hs) fun c hc => ?_
    rcases List.mem_append.mp hc with hc | hc
    · exact hchild d hd c (List.mem_reverse.mp hc)
    · exact hstack c (List.mem_cons_of_mem _ hc)

end DepthFirst
