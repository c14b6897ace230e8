import Omnion.Library.Search

/-!
# Markup

Elements, comments and the text between them, as they are written: a tree whose leaves keep
every character of the text it was read from.

## What is proved

* `text_unique` — markup is read in one way: of two well-formed pieces of markup with which
  one text begins, both are the same (`texts_unique` for many, up to a closing tag).
* `text_injective` — well-formed markup of the same text is the same.
-/

open Search

/-- A piece of markup. -/
inductive Markup where
  | char (c : Char)
  /-- A comment, without its delimiters. -/
  | comment (body : List Char)
  /-- A CDATA section, without its delimiters. -/
  | cdata (body : List Char)
  /-- A processing instruction, without its delimiters. -/
  | instruction (body : List Char)
  /-- An empty-element tag: what stands between its angle bracket and the slash. -/
  | empty (tag : List Char)
  /-- An element: what stands in its opening tag, its content, and what stands in its
  closing tag. -/
  | element (tag : List Char) (children : List Markup) (close : List Char)

namespace Markup

/-- What opens a closing tag. -/
def closeOpen : List Char := ['<', '/']

/-- What ends a comment. -/
def commentClose : List Char := ['-', '-', '>']

/-- What ends a CDATA section. -/
def cdataClose : List Char := [']', ']', '>']

/-- What ends a processing instruction. -/
def instructionClose : List Char := ['?', '>']

mutual

/-- The text of a piece of markup. -/
def text : Markup → List Char
  | char c => [c]
  | comment body => '<' :: '!' :: '-' :: '-' :: (body ++ commentClose)
  | cdata body => '<' :: '!' :: '[' :: 'C' :: 'D' :: 'A' :: 'T' :: 'A' :: '[' :: (body ++ cdataClose)
  | instruction body => '<' :: '?' :: (body ++ instructionClose)
  | empty tag => '<' :: (tag ++ ['/', '>'])
  | element tag children close => '<' :: (tag ++ '>' :: (texts children ++ (closeOpen ++ (close ++ ['>']))))

/-- The text of pieces of markup, one after another. -/
def texts : List Markup → List Char
  | [] => []
  | m :: ms => m.text ++ texts ms

end

/-- Split what follows the angle bracket of a tag at the end of the tag: the first closing
bracket that is not quoted. The quote that is open is given. -/
def scan : Option Char → List Char → Option (List Char × List Char)
  | _, [] => none
  | none, c :: rest =>
    if c = '>' then some ([], rest)
    else (scan (if c = '"' ∨ c = '\x27' then some c else none) rest).map fun (tag, after) => (c :: tag, after)
  | some q, c :: rest =>
    (scan (if c = q then none else some q) rest).map fun (tag, after) => (c :: tag, after)

/-- What stands in a tag ends where the tag does. -/
def IsTag (tag : List Char) : Prop := scan none (tag ++ ['>']) = some (tag, [])

instance (tag : List Char) : Decidable (IsTag tag) := inferInstanceAs (Decidable (_ = _))

/-- What stands in an opening tag begins with a name. -/
def Named : List Char → Prop
  | [] => False
  | c :: _ => c ≠ '!' ∧ c ≠ '?' ∧ c ≠ '/'

instance : DecidablePred Named
  | [] => inferInstanceAs (Decidable False)
  | _ :: _ => inferInstanceAs (Decidable (_ ∧ _ ∧ _))

mutual

/-- Every piece ends where its text does. -/
def WellFormed : Markup → Prop
  | char c => c ≠ '<'
  | comment body => First commentClose body
  | cdata body => First cdataClose body
  | instruction body => First instructionClose body
  | empty tag => Named tag ∧ IsTag (tag ++ ['/'])
  | element tag children close =>
    Named tag ∧ IsTag tag ∧ tag.getLast? ≠ some '/' ∧ First ['>'] close ∧ AllWellFormed children

/-- All pieces of markup are well formed. -/
def AllWellFormed : List Markup → Prop
  | [] => True
  | m :: ms => m.WellFormed ∧ AllWellFormed ms

end

mutual

instance decidableWellFormed : (m : Markup) → Decidable m.WellFormed
  | char _ => inferInstanceAs (Decidable (_ ≠ _))
  | comment _ => inferInstanceAs (Decidable (First _ _))
  | cdata _ => inferInstanceAs (Decidable (First _ _))
  | instruction _ => inferInstanceAs (Decidable (First _ _))
  | empty _ => inferInstanceAs (Decidable (_ ∧ _))
  | element _ children _ =>
    have := decidableAllWellFormed children
    inferInstanceAs (Decidable (_ ∧ _ ∧ _ ∧ _ ∧ _))

instance decidableAllWellFormed : (ms : List Markup) → Decidable (AllWellFormed ms)
  | [] => inferInstanceAs (Decidable True)
  | m :: ms =>
    have := decidableWellFormed m
    have := decidableAllWellFormed ms
    inferInstanceAs (Decidable (_ ∧ _))

end

variable {m m' : Markup} {ms ms' : List Markup} {r r' tag : List Char}

theorem texts_append : texts (ms ++ ms') = texts ms ++ texts ms' := by
  induction ms with
  | nil => rfl
  | cons m ms ih => rw [List.cons_append, texts, ih, texts, List.append_assoc]

theorem AllWellFormed.of_mem (h : AllWellFormed ms) (hm : m ∈ ms) : m.WellFormed := by
  induction ms with
  | nil => cases hm
  | cons m' ms ih =>
    obtain rfl | hm := List.mem_cons.mp hm
    · exact h.1
    · exact ih h.2 hm

/-! ### What a text begins with -/

/-- What a text begins with. -/
inductive Kind where
  | stop
  | char
  | comment
  | cdata
  | instruction
  /-- An opening or empty-element tag. -/
  | tag

/-- What a text begins with, by its first characters. -/
def kindOf : List Char → Kind
  | [] => .stop
  | '<' :: '/' :: _ => .stop
  | '<' :: '!' :: '-' :: _ => .comment
  | '<' :: '!' :: _ => .cdata
  | '<' :: '?' :: _ => .instruction
  | '<' :: _ => .tag
  | _ :: _ => .char

/-- What a piece of markup is. -/
def kind : Markup → Kind
  | char _ => .char
  | comment _ => .comment
  | cdata _ => .cdata
  | instruction _ => .instruction
  | empty _ | element _ _ _ => .tag

theorem kindOf_char {c : Char} (h : c ≠ '<') : kindOf (c :: r) = .char := by
  unfold kindOf
  split <;> simp_all

theorem kindOf_tag (h : Named tag) : kindOf ('<' :: (tag ++ r)) = .tag := by
  obtain _ | ⟨c, tag⟩ := tag
  · cases h
  · obtain ⟨hbang, hquestion, hslash⟩ := h
    rw [List.cons_append]
    unfold kindOf
    split <;> grind

theorem kindOf_text (h : m.WellFormed) : kindOf (m.text ++ r) = m.kind := by
  cases m with
  | char c => exact kindOf_char h
  | comment body => rfl
  | cdata body => rfl
  | instruction body => rfl
  | empty tag =>
    rw [text, List.cons_append, List.append_assoc]
    exact kindOf_tag h.1
  | element tag children close =>
    rw [text, List.cons_append, List.append_assoc]
    exact kindOf_tag h.1

theorem kind_ne_stop : m.kind ≠ .stop := by cases m <;> nofun

/-! ### Where a tag ends -/

theorem scan_append {q : Option Char} {text after : List Char} (h : scan q text = some (tag, after)) :
    scan q (text ++ r) = some (tag, after ++ r) := by
  induction text generalizing q tag with
  | nil => cases q <;> cases h
  | cons c rest ih =>
    cases q with
    | none =>
      rw [List.cons_append]
      rw [scan] at h ⊢
      split_ifs at h ⊢ with hend
      · cases h
        rfl
      all_goals
        obtain ⟨⟨tag', after'⟩, hscan, heq⟩ := Option.map_eq_some_iff.mp h
        cases heq
        rw [ih hscan]
        rfl
    | some q =>
      rw [List.cons_append]
      rw [scan] at h ⊢
      obtain ⟨⟨tag', after'⟩, hscan, heq⟩ := Option.map_eq_some_iff.mp h
      cases heq
      rw [ih hscan]
      rfl

theorem IsTag.scan (h : IsTag tag) : Markup.scan none (tag ++ '>' :: r) = some (tag, r) := by
  have := scan_append (r := r) h
  rwa [List.append_assoc, List.cons_append, List.nil_append] at this

theorem IsTag.unique {tag' : List Char} (h : IsTag tag) (h' : IsTag tag')
    (heq : tag ++ '>' :: r = tag' ++ '>' :: r') : tag = tag' ∧ r = r' := by
  have hscan := h.scan (r := r)
  rw [heq, h'.scan] at hscan
  obtain ⟨htag, hrest⟩ := Prod.mk.inj (Option.some.inj hscan)
  exact ⟨htag.symm, hrest.symm⟩

/-! ### Markup is read in one way -/

theorem empty_append : (empty tag).text ++ r = '<' :: ((tag ++ ['/']) ++ '>' :: r) := by
  simp only [text, List.cons_append, List.append_assoc, List.nil_append]

theorem element_append {close : List Char} :
    (element tag ms close).text ++ r =
      '<' :: (tag ++ '>' :: (texts ms ++ (closeOpen ++ (close ++ (['>'] ++ r))))) := by
  simp only [text, List.cons_append, List.append_assoc]

theorem ne_of_getLast? {tag' : List Char} (h : tag.getLast? ≠ some '/') : tag ≠ tag' ++ ['/'] := by
  rintro rfl
  exact h List.getLast?_concat

mutual

/-- Two pieces of markup with which one text begins are the same. -/
theorem text_unique {m m' : Markup} {r r' : List Char} (h : m.WellFormed) (h' : m'.WellFormed)
    (heq : m.text ++ r = m'.text ++ r') : m = m' ∧ r = r' := by
  have hkind : m.kind = m'.kind := by rw [← kindOf_text h (r := r), heq, kindOf_text h']
  cases m with
  | char c =>
    cases m' with
    | char c' =>
      obtain ⟨rfl, rfl⟩ := List.cons.inj heq
      exact ⟨rfl, rfl⟩
    | _ => cases hkind
  | comment body =>
    cases m' with
    | comment body' =>
      simp only [text, List.cons_append, List.append_assoc, List.cons.injEq, true_and] at heq
      obtain ⟨rfl, rfl⟩ := First.unique (show commentClose ≠ [] from List.cons_ne_nil _ _) h h' heq
      exact ⟨rfl, rfl⟩
    | _ => cases hkind
  | cdata body =>
    cases m' with
    | cdata body' =>
      simp only [text, List.cons_append, List.append_assoc, List.cons.injEq, true_and] at heq
      obtain ⟨rfl, rfl⟩ := First.unique (show cdataClose ≠ [] from List.cons_ne_nil _ _) h h' heq
      exact ⟨rfl, rfl⟩
    | _ => cases hkind
  | instruction body =>
    cases m' with
    | instruction body' =>
      simp only [text, List.cons_append, List.append_assoc, List.cons.injEq, true_and] at heq
      obtain ⟨rfl, rfl⟩ := First.unique (show instructionClose ≠ [] from List.cons_ne_nil _ _) h h' heq
      exact ⟨rfl, rfl⟩
    | _ => cases hkind
  | empty tag =>
    cases m' with
    | empty tag' =>
      rw [empty_append, empty_append] at heq
      obtain ⟨htag, rfl⟩ := IsTag.unique h.2 h'.2 (List.cons.inj heq).2
      obtain rfl := List.append_cancel_right htag
      exact ⟨rfl, rfl⟩
    | element tag' children' close' =>
      rw [empty_append, element_append] at heq
      obtain ⟨htag, -⟩ := IsTag.unique h.2 h'.2.1 (List.cons.inj heq).2
      exact absurd htag.symm (ne_of_getLast? h'.2.2.1)
    | _ => cases hkind
  | element tag children close =>
    cases m' with
    | empty tag' =>
      rw [empty_append, element_append] at heq
      obtain ⟨htag, -⟩ := IsTag.unique h.2.1 h'.2 (List.cons.inj heq).2
      exact absurd htag (ne_of_getLast? h.2.2.1)
    | element tag' children' close' =>
      obtain ⟨-, htag, -, hclose, hchildren⟩ := h
      obtain ⟨-, htag', -, hclose', hchildren'⟩ := h'
      rw [element_append, element_append] at heq
      obtain ⟨rfl, hrest⟩ := IsTag.unique htag htag' (List.cons.inj heq).2
      -- The content is followed by a closing tag.
      obtain ⟨rfl, hafter⟩ := texts_unique hchildren hchildren' rfl rfl hrest
      obtain ⟨rfl, rfl⟩ := First.unique (List.cons_ne_nil _ _) hclose hclose' (List.append_cancel_left hafter)
      exact ⟨rfl, rfl⟩
    | _ => cases hkind

/-- Markup up to a closing tag is read in one way. -/
theorem texts_unique {ms ms' : List Markup} {r r' : List Char} (h : AllWellFormed ms) (h' : AllWellFormed ms')
    (hr : kindOf r = .stop) (hr' : kindOf r' = .stop) (heq : texts ms ++ r = texts ms' ++ r') :
    ms = ms' ∧ r = r' := by
  cases ms with
  | nil =>
    cases ms' with
    | nil => exact ⟨rfl, heq⟩
    | cons m' ms' =>
      rw [texts, texts, List.nil_append, List.append_assoc] at heq
      rw [heq, kindOf_text h'.1] at hr
      exact absurd hr kind_ne_stop
  | cons m ms =>
    cases ms' with
    | nil =>
      rw [texts, texts, List.nil_append, List.append_assoc] at heq
      rw [← heq, kindOf_text h.1] at hr'
      exact absurd hr' kind_ne_stop
    | cons m' ms' =>
      rw [texts, texts, List.append_assoc, List.append_assoc] at heq
      obtain ⟨rfl, hrest⟩ := text_unique h.1 h'.1 heq
      obtain ⟨rfl, rfl⟩ := texts_unique h.2 h'.2 hr hr' hrest
      exact ⟨rfl, rfl⟩

end

theorem text_injective (h : m.WellFormed) (h' : m'.WellFormed) (heq : m.text = m'.text) : m = m' :=
  (@text_unique m m' [] [] h h' (by rw [heq])).1

end Markup
