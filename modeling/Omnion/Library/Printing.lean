import Mathlib.Data.List.Basic
import Mathlib.Logic.Function.Basic

/-!
# Printers whose text can be read back

A printer writes a value as a list of symbols. It is `Readable` when its text can be
told from what follows it: two texts that begin with printed values and go on in an
allowed way are equal only when the values are and the rest is. What may follow is a
condition on the first symbol of the rest.

The rules put printers together: a prefix, an item and a mark after it, a named field, a
sequence of items up to a closing mark, a bracketed list with separators.
-/

namespace Printing

variable {γ α β : Type*}

/-- The text is empty, or begins with an allowed symbol. -/
def Starts (ok : γ → Prop) (s : List γ) : Prop := ∀ c ∈ s.head?, ok c

/-- Printed values can be told from what follows them. -/
def Readable (ok : γ → Prop) (print : α → List γ) : Prop :=
  ∀ a b s t, Starts ok s → Starts ok t → print a ++ s = print b ++ t → a = b ∧ s = t

@[simp] theorem starts_nil (ok : γ → Prop) : Starts ok [] := by simp [Starts]

@[simp] theorem starts_cons (ok : γ → Prop) (c : γ) (s : List γ) : Starts ok (c :: s) ↔ ok c := by
  simp [Starts]

variable {ok : γ → Prop} {print : α → List γ}

theorem Readable.comp {f : β → α} (h : Readable ok print) (hf : Function.Injective f) :
    Readable ok fun b => print (f b) := fun _ _ s t hs ht heq =>
  (h _ _ s t hs ht heq).imp_left fun hab => hf hab

theorem Readable.after (h : Readable ok print) (text : List γ) :
    Readable ok fun a => text ++ print a := by
  intro a b s t hs ht heq
  rw [List.append_assoc, List.append_assoc, List.append_cancel_left_eq] at heq
  exact h a b s t hs ht heq

theorem Readable.peel {c : γ} {a b : α} {s t : List γ} (h : Readable ok print) (hc : ok c)
    (heq : print a ++ c :: s = print b ++ c :: t) : a = b ∧ s = t := by
  obtain ⟨hab, hst⟩ := h a b _ _ ((starts_cons ok c s).mpr hc) ((starts_cons ok c t).mpr hc) heq
  exact ⟨hab, (List.cons.inj hst).2⟩

theorem Readable.field {name : List γ} {mark c : γ} {a b : α} {s t : List γ} (h : Readable ok print)
    (hc : ok c) (heq : name ++ mark :: (print a ++ c :: s) = name ++ mark :: (print b ++ c :: t)) :
    a = b ∧ s = t := by
  rw [List.append_cancel_left_eq] at heq
  exact h.peel hc (List.cons.inj heq).2

theorem readable_of_reader {read : List γ → Option (α × List γ)}
    (h : ∀ a s, read (print a ++ s) = some (a, s)) :
    Readable (fun _ => True) print := by
  intro a b s t _ _ heq
  have hread : some (a, s) = some (b, t) := by rw [← h a s, heq, h b t]
  simpa using hread

/-- A printer whose texts are runs of symbols of one kind, before a symbol of another. -/
theorem readable_of_forall {p : γ → Prop} (hinj : Function.Injective print)
    (hp : ∀ a, ∀ c ∈ print a, p c) :
    Readable (fun c => ¬ p c) print := by
  -- The longer of two runs would have a symbol where the rest after the other starts.
  have hrun : ∀ l l' s t : List γ, (∀ c ∈ l, p c) → (∀ c ∈ l', p c) → Starts (fun c => ¬ p c) s →
      Starts (fun c => ¬ p c) t → l ++ s = l' ++ t → l = l' := by
    intro l
    induction l with
    | nil =>
      rintro (_ | ⟨c, l'⟩) s t - hl' hs - heq
      · rfl
      · rw [List.nil_append] at heq
        rw [heq, List.cons_append, starts_cons] at hs
        exact absurd (hl' c List.mem_cons_self) hs
    | cons c l ih =>
      rintro (_ | ⟨c', l'⟩) s t hl hl' hs ht heq
      · rw [List.nil_append] at heq
        rw [← heq, List.cons_append, starts_cons] at ht
        exact absurd (hl c List.mem_cons_self) ht
      · rw [List.cons_append, List.cons_append] at heq
        obtain ⟨rfl, hrest⟩ := List.cons.inj heq
        rw [ih l' s t (fun x hx => hl x (List.mem_cons_of_mem _ hx)) (fun x hx => hl' x (List.mem_cons_of_mem _ hx))
          hs ht hrest]
  intro a b s t hs ht heq
  have hab := hrun _ _ s t (hp a) (hp b) hs ht heq
  rw [hab] at heq
  exact ⟨hinj hab, List.append_cancel_left heq⟩

/-- Items one after the other up to a closing mark, which begins no item. -/
theorem Readable.many {close : γ} (h : Readable ok print) (hclose : ok close)
    (hstart : ∀ a, ∃ c l, print a = c :: l ∧ ok c ∧ c ≠ close) :
    Readable (fun _ => True) fun items : List α => items.flatMap print ++ [close] := by
  have hrest : ∀ (items : List α) (s : List γ), Starts ok (items.flatMap print ++ close :: s) := by
    rintro (_ | ⟨a, items⟩) s
    · exact (starts_cons ok close s).mpr hclose
    · obtain ⟨c, l, hac, hc, -⟩ := hstart a
      rw [List.flatMap_cons, hac, List.cons_append, List.cons_append]
      exact (starts_cons ok c _).mpr hc
  intro items
  induction items with
  | nil =>
    rintro (_ | ⟨b, items'⟩) s t - - heq
    · exact ⟨rfl, by simpa using heq⟩
    · obtain ⟨c, l, hbc, -, hne⟩ := hstart b
      simp only [List.flatMap_nil, List.nil_append, List.cons_append, List.flatMap_cons, hbc, List.cons.injEq] at heq
      exact absurd heq.1.symm hne
  | cons a items ih =>
    rintro (_ | ⟨b, items'⟩) s t hs ht heq
    · obtain ⟨c, l, hac, -, hne⟩ := hstart a
      simp only [List.flatMap_nil, List.nil_append, List.cons_append, List.flatMap_cons, hac, List.cons.injEq] at heq
      exact absurd heq.1 hne
    · simp only [List.flatMap_cons, List.append_assoc, List.cons_append, List.nil_append] at heq
      obtain ⟨rfl, hitems⟩ := h a b _ _ (hrest items s) (hrest items' t) heq
      obtain ⟨rfl, rfl⟩ := ih items' s t hs ht (by simpa using hitems)
      exact ⟨rfl, rfl⟩

/-- Items with a separator between them, up to a closing mark. -/
def separated (sep close : γ) (print : α → List γ) (items : List α) : List γ :=
  List.intercalate [sep] (items.map print) ++ [close]

theorem separated_cons (sep close : γ) (print : α → List γ) (a : α) (items : List α) :
    separated sep close print (a :: items) =
      print a ++ ((items.flatMap fun b => sep :: print b) ++ [close]) := by
  have hloop : ∀ (a : α) (items : List α),
      List.intercalate [sep] ((a :: items).map print) = print a ++ items.flatMap fun b => sep :: print b := by
    intro a items
    induction items generalizing a with
    | nil => simp [List.intercalate]
    | cons b items ih =>
      rw [List.map_cons, List.map_cons, List.intercalate_cons_cons, ← List.map_cons, ih]
      simp
  rw [separated, hloop, List.append_assoc]

theorem Readable.separated {sep close : γ} (h : Readable ok print) (hsep : ok sep) (hclose : ok close)
    (hne : sep ≠ close) (hstart : ∀ a, ∃ c l, print a = c :: l ∧ c ≠ close) :
    Readable (fun _ => True) (separated sep close print) := by
  have hmany : Readable (fun _ => True) fun items : List α => (items.flatMap fun b => sep :: print b) ++ [close] :=
    (h.after [sep]).many hclose fun a => ⟨sep, print a, rfl, hsep, hne⟩
  have hrest : ∀ (items : List α) (s : List γ),
      Starts ok ((items.flatMap fun b => sep :: print b) ++ [close] ++ s) := by
    rintro (_ | ⟨a, items⟩) s
    · exact (starts_cons ok close _).mpr hclose
    · exact (starts_cons ok sep _).mpr hsep
  rintro (_ | ⟨a, items⟩) (_ | ⟨b, items'⟩) s t hs ht heq
  · exact ⟨rfl, List.append_cancel_left heq⟩
  · obtain ⟨c, l, hbc, hcne⟩ := hstart b
    rw [separated_cons, hbc] at heq
    exact absurd (List.cons.inj heq).1.symm hcne
  · obtain ⟨c, l, hac, hcne⟩ := hstart a
    rw [separated_cons, hac] at heq
    exact absurd (List.cons.inj heq).1 hcne
  · rw [separated_cons, separated_cons, List.append_assoc (print a), List.append_assoc (print b)] at heq
    obtain ⟨rfl, hitems⟩ := h a b _ _ (hrest items s) (hrest items' t) heq
    obtain ⟨rfl, rfl⟩ := hmany items items' s t hs ht hitems
    exact ⟨rfl, rfl⟩

end Printing
