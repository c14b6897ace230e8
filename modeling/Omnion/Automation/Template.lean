import Omnion.Automation.Binding
import Omnion.Library.Search

/-!
# What a text resolves to

A text is cut at its placeholders, each from an opening mark to the first closing mark
behind it. `resolve_text` is to give the value itself where the text is one placeholder,
and the text with the values in place of the placeholders everywhere else. It takes a text
for one placeholder when it holds one, begins with an opening mark and ends with a closing
mark, whether or not these belong together.

## What is proved

* `resolveText_iff` — what a text resolves to, if it is not a stray one (`Stray`): one that
  begins with its only placeholder and ends with a closing mark further on.
* `spaced_and_stray` — a placeholder with a space before it is text, and `{{event.no}} of }}`
  resolves to the number alone.
-/

namespace Omnion.Automation

open Text Search

/-! ### Templates -/

/-- A placeholder and the text before it, from the one before on. -/
structure Piece where
  before : List Char
  inner : List Char
  first_open : First OPEN before
  first_close : First CLOSE inner

/-- A text, cut at its placeholders. -/
structure Template where
  pieces : List Piece
  /-- The text behind the last placeholder. -/
  last : List Char
  no_open : ¬ OPEN <:+: last

/-- The expression of a placeholder. -/
def Piece.expression (piece : Piece) : String := trim (String.ofList piece.inner)

/-- The expression is not empty, not too long and without braces. -/
def Piece.Usable (piece : Piece) : Prop :=
  piece.expression ≠ "" ∧ piece.expression.utf8ByteSize ≤ MAX_EXPRESSION ∧
    '\x7b' ∉ piece.expression.toList ∧ '\x7d' ∉ piece.expression.toList

/-- The text of pieces and what is behind them. -/
def join : List Piece → List Char → List Char
  | [], last => last
  | piece :: pieces, last => piece.before ++ (OPEN ++ (piece.inner ++ (CLOSE ++ join pieces last)))

/-- The same text with values in place of the placeholders. -/
def splice (toText : Json → String) : List Piece → List Json → List Char → List Char
  | piece :: pieces, value :: values, last =>
    piece.before ++ (display toText value).toList ++ splice toText pieces values last
  | _, _, last => last

/-- The event has the value under the expression of the placeholder. -/
def Fills (payload : Json) (path : String) (piece : Piece) (value : Json) : Prop :=
  lookup payload piece.expression path = .ok value

/-- The placeholder can be read and the event has its value. -/
def Bound (payload : Json) (path : String) (piece : Piece) (value : Json) : Prop :=
  piece.Usable ∧ Fills payload path piece value

namespace Template

def text (t : Template) : List Char := join t.pieces t.last

/-- The text is one placeholder. -/
def Lone (t : Template) : Prop := (∃ piece, t.pieces = [piece] ∧ piece.before = []) ∧ t.last = []

/-- The text begins with its only placeholder and ends with a closing mark further on. -/
def Stray (t : Template) : Prop :=
  (∃ piece, t.pieces = [piece] ∧ piece.before = []) ∧ t.last ≠ [] ∧ CLOSE <:+ t.text

/-- **What a text resolves to**: the value of its placeholder if it is just one, and else the
text with the values of its placeholders in their place. -/
def Resolves (toText : Json → String) (payload : Json) (path : String) (t : Template) (r : Json) : Prop :=
  ∃ values, List.Forall₂ (Bound payload path) t.pieces values ∧
    (t.Lone → values = [r]) ∧ (¬ t.Lone → r = .string (String.ofList (splice toText t.pieces values t.last)))

end Template

variable {toText : Json → String} {payload : Json} {path source : String} {piece : Piece} {pieces : List Piece}
  {last rest : List Char} {es : List String} {r : Json}

/-! ### The scans -/

theorem open_ne_nil : OPEN ≠ [] := by decide

theorem close_ne_nil : CLOSE ≠ [] := by decide

theorem splitOnce_piece (piece : Piece) (rest : List Char) :
    splitOnce OPEN (piece.before ++ (OPEN ++ (piece.inner ++ (CLOSE ++ rest)))) =
      some (piece.before, piece.inner ++ (CLOSE ++ rest)) :=
  splitOnce_append open_ne_nil piece.first_open _

theorem splitOnce_inner (piece : Piece) (rest : List Char) :
    splitOnce CLOSE (piece.inner ++ (CLOSE ++ rest)) = some (piece.inner, rest) :=
  splitOnce_append close_ne_nil piece.first_close rest

theorem expressionsLoop_of_not_usable (source : String) (rest : List Char) (h : ¬ piece.Usable) :
    ∃ err, expressionsLoop source (piece.before ++ (OPEN ++ (piece.inner ++ (CLOSE ++ rest)))) = .error err := by
  rw [expressionsLoop]
  split
  next hopen =>
    rw [splitOnce_piece] at hopen
    cases hopen
  next before after hopen =>
    obtain ⟨rfl, rfl⟩ := Prod.mk.inj (Option.some.inj ((splitOnce_piece piece rest).symm.trans hopen))
    split
    next => exact ⟨_, rfl⟩
    next inner rest' hclose =>
      obtain ⟨rfl, rfl⟩ := Prod.mk.inj (Option.some.inj ((splitOnce_inner piece rest).symm.trans hclose))
      dsimp only
      split_ifs with hempty hlong hbraces
      · exact ⟨_, rfl⟩
      · exact ⟨_, rfl⟩
      · exact ⟨_, rfl⟩
      · exact absurd ⟨hempty, not_lt.mp hlong, not_or.mp hbraces⟩ h

theorem expressionsLoop_piece :
    expressionsLoop source (piece.before ++ (OPEN ++ (piece.inner ++ (CLOSE ++ rest)))) = .ok es ↔
      piece.Usable ∧ ∃ es', expressionsLoop source rest = .ok es' ∧ es = piece.expression :: es' := by
  by_cases husable : piece.Usable
  · have ⟨hne, hlength, hbraces⟩ := husable
    rw [expressionsLoop_of_some (splitOnce_piece piece rest) (splitOnce_inner piece rest) rfl hne hlength
      (not_or.mpr hbraces), and_iff_right husable]
    rcases expressionsLoop source rest with err | es'
    · exact iff_of_false (fun h => by cases h) fun ⟨_, h, _⟩ => by cases h
    · constructor
      · intro h
        exact ⟨es', rfl, (Except.ok.inj h).symm⟩
      · rintro ⟨_, h, rfl⟩
        cases h
        rfl
  · obtain ⟨err, herr⟩ := expressionsLoop_of_not_usable source rest husable
    rw [herr]
    exact iff_of_false (fun h => by cases h) fun h => husable h.1

theorem expressionsLoop_join (hlast : ¬ OPEN <:+: last) :
    expressionsLoop source (join pieces last) = .ok es ↔
      (∀ piece ∈ pieces, piece.Usable) ∧ es = pieces.map Piece.expression := by
  induction pieces generalizing es with
  | nil =>
    rw [join, expressionsLoop_of_none ((splitOnce_eq_none_iff open_ne_nil).mpr hlast)]
    simp [eq_comm]
  | cons piece pieces ih =>
    rw [join, expressionsLoop_piece, List.forall_mem_cons, and_assoc]
    refine and_congr_right fun _ => ?_
    constructor
    · rintro ⟨es', hes', rfl⟩
      obtain ⟨husable, rfl⟩ := ih.mp hes'
      exact ⟨husable, rfl⟩
    · rintro ⟨husable, rfl⟩
      exact ⟨_, ih.mpr ⟨husable, rfl⟩, rfl⟩

theorem exists_template (rest : List Char) {es : List String} (h : expressionsLoop source rest = .ok es) :
    ∃ t : Template, t.text = rest := by
  rcases of_expressionsLoop h with ⟨hopen, -⟩ | ⟨before, after, inner, rest', es', hopen, hclose, hes', -⟩
  · exact ⟨⟨[], rest, (splitOnce_eq_none_iff open_ne_nil).mp hopen⟩, rfl⟩
  · obtain ⟨t, ht⟩ := exists_template rest' hes'
    refine ⟨⟨⟨before, inner, first_of_splitOnce open_ne_nil hopen, first_of_splitOnce close_ne_nil hclose⟩ :: t.pieces,
      t.last, t.no_open⟩, ?_⟩
    have hrest : before ++ (OPEN ++ (inner ++ (CLOSE ++ rest'))) = rest := by
      rw [splitOnce_eq_append hopen, splitOnce_eq_append hclose]
      simp
    rw [← ht] at hrest
    exact hrest
termination_by rest.length
decreasing_by
  have := length_lt_of_splitOnce (by decide) hopen
  have := length_lt_of_splitOnce (by decide) hclose
  omega

/-- What mixed text is rendered to. -/
theorem renderLoop_join (hlast : ¬ OPEN <:+: last) {out : List Char} :
    renderLoop toText payload path (join pieces last) = .ok out ↔
      ∃ values, List.Forall₂ (Fills payload path) pieces values ∧ out = splice toText pieces values last := by
  induction pieces generalizing out with
  | nil =>
    rw [join, renderLoop_of_none ((splitOnce_eq_none_iff open_ne_nil).mpr hlast)]
    simp [splice, eq_comm]
  | cons piece pieces ih =>
    rw [join, renderLoop_of_some (splitOnce_piece piece _) (splitOnce_inner piece _)]
    constructor
    · intro h
      rcases hvalue : lookup payload (trim (String.ofList piece.inner)) path with err | value
      · rw [hvalue] at h
        cases h
      rcases hrendered : renderLoop toText payload path (join pieces last) with err | rendered
      · rw [hvalue, hrendered] at h
        cases h
      rw [hvalue, hrendered] at h
      obtain ⟨values, hvalues, rfl⟩ := ih.mp hrendered
      exact ⟨value :: values, .cons hvalue hvalues, (Except.ok.inj h).symm⟩
    · rintro ⟨_, hvalues, rfl⟩
      cases hvalues with
      | cons hvalue hvalues =>
        rw [Fills, Piece.expression] at hvalue
        rw [hvalue, ih.mpr ⟨_, hvalues, rfl⟩]
        rfl

/-! ### Templates are unique -/

theorem join_inj {pieces' : List Piece} {last' : List Char} (hlast : ¬ OPEN <:+: last) (hlast' : ¬ OPEN <:+: last')
    (h : join pieces last = join pieces' last') : pieces = pieces' ∧ last = last' := by
  induction pieces generalizing pieces' with
  | nil =>
    cases pieces' with
    | nil => exact ⟨rfl, h⟩
    | cons piece' pieces' =>
      refine absurd ?_ hlast
      rw [join, join] at h
      exact h ▸ ⟨piece'.before, piece'.inner ++ (CLOSE ++ join pieces' last'), List.append_assoc ..⟩
  | cons piece pieces ih =>
    cases pieces' with
    | nil =>
      refine absurd ?_ hlast'
      rw [join, join] at h
      exact h ▸ ⟨piece.before, piece.inner ++ (CLOSE ++ join pieces last), List.append_assoc ..⟩
    | cons piece' pieces' =>
      rw [join, join] at h
      obtain ⟨hbefore, h⟩ := First.unique open_ne_nil piece.first_open piece'.first_open h
      obtain ⟨hinner, h⟩ := First.unique close_ne_nil piece.first_close piece'.first_close h
      obtain ⟨rfl, rfl⟩ := ih h
      refine ⟨congrArg (· :: pieces) ?_, rfl⟩
      cases piece
      cases piece'
      congr

theorem Template.text_injective : Function.Injective Template.text := by
  rintro ⟨pieces, last, hlast⟩ ⟨pieces', last', hlast'⟩ h
  obtain ⟨rfl, rfl⟩ := join_inj hlast hlast' h
  rfl

/-! ### What a text resolves to -/

theorem open_isPrefixOf (piece : Piece) (rest : List Char) :
    OPEN.isPrefixOf (piece.before ++ (OPEN ++ rest)) = true ↔ piece.before = [] := by
  rw [List.isPrefixOf_iff_prefix]
  constructor
  · rintro ⟨rest', hrest'⟩
    exact (First.unique open_ne_nil piece.first_open (.nil open_ne_nil) hrest'.symm).1
  · intro h
    rw [h]
    exact ⟨rest, rfl⟩

namespace Template

theorem lone_or_stray (t : Template) (hpieces : t.pieces = [piece]) :
    (OPEN.isPrefixOf t.text = true ∧ CLOSE.isSuffixOf t.text = true) ↔ t.Lone ∨ t.Stray := by
  have htext : t.text = piece.before ++ (OPEN ++ (piece.inner ++ (CLOSE ++ t.last))) := by
    rw [text, hpieces, join, join]
  have honly : (∃ p, t.pieces = [p] ∧ p.before = []) ↔ piece.before = [] := by
    rw [hpieces]
    constructor
    · rintro ⟨p, hp, hbefore⟩
      exact (List.cons.inj hp).1 ▸ hbefore
    · exact fun h => ⟨piece, rfl, h⟩
  rw [Lone, Stray, honly, ← and_or_left, List.isSuffixOf_iff_suffix]
  refine and_congr (htext ▸ open_isPrefixOf piece _) ?_
  rcases eq_or_ne t.last [] with hlast | hlast
  · refine iff_of_true ?_ (.inl hlast)
    rw [htext, hlast]
    exact ⟨piece.before ++ (OPEN ++ piece.inner), by simp⟩
  · simp [hlast]

end Template

/-- Mixed text, rendered. -/
theorem rendered_eq_ok (t : Template) :
    (do return .string (String.ofList (← renderLoop toText payload path t.text)) : Except Invalid Json) = .ok r ↔
      ∃ values, List.Forall₂ (Fills payload path) t.pieces values ∧
        r = .string (String.ofList (splice toText t.pieces values t.last)) := by
  have hrender : ∀ out, renderLoop toText payload path (join t.pieces t.last) = .ok out ↔
      ∃ values, List.Forall₂ (Fills payload path) t.pieces values ∧ out = splice toText t.pieces values t.last :=
    fun out => renderLoop_join t.no_open
  rcases hrendered : renderLoop toText payload path t.text with err | out
  · refine iff_of_false (fun h => by cases h) ?_
    rintro ⟨values, hvalues, -⟩
    have := (hrender _).mpr ⟨values, hvalues, rfl⟩
    rw [← Template.text, hrendered] at this
    cases this
  · obtain ⟨values, hvalues, rfl⟩ := (hrender out).mp hrendered
    constructor
    · intro h
      exact ⟨values, hvalues, (Except.ok.inj h).symm⟩
    · rintro ⟨values', hvalues', rfl⟩
      have hsame := (hrender _).mpr ⟨values', hvalues', rfl⟩
      rw [← Template.text, hrendered] at hsame
      rw [← Except.ok.inj hsame]
      rfl

/-- What a text resolves to, by the template it is of: as a lone one, or as mixed text. -/
theorem resolveText_text {t : Template} {text : String} (ht : t.text = text.toList) :
    resolveText toText payload path text = .ok r ↔
      ∃ values, List.Forall₂ (Bound payload path) t.pieces values ∧
        (t.Lone ∨ t.Stray → values = [r]) ∧
          (¬ (t.Lone ∨ t.Stray) → r = .string (String.ofList (splice toText t.pieces values t.last))) := by
  have hes : ∀ es, expressions text = .ok es ↔ (∀ piece ∈ t.pieces, piece.Usable) ∧
    es = t.pieces.map Piece.expression := by
    intro es
    rw [expressions, ← ht]
    exact expressionsLoop_join t.no_open
  have hbound : ∀ values, List.Forall₂ (Bound payload path) t.pieces values ↔
      (∀ piece ∈ t.pieces, piece.Usable) ∧ List.Forall₂ (Fills payload path) t.pieces values :=
    fun values => List.forall₂_and_left _ _
  by_cases husable : ∀ piece ∈ t.pieces, piece.Usable
  swap
  · rcases hexpressions : expressions text with err | es
    · rw [resolveText, hexpressions]
      refine iff_of_false (fun h => by cases h) ?_
      rintro ⟨values, hvalues, -⟩
      exact husable ((hbound values).mp hvalues).1
    · exact absurd ((hes es).mp hexpressions).1 husable
  have hmixed : ¬ (t.Lone ∨ t.Stray) →
      ((do return .string (String.ofList (← renderLoop toText payload path text.toList)) : Except Invalid Json) = .ok r
        ↔
        ∃ values, List.Forall₂ (Fills payload path) t.pieces values ∧ (t.Lone ∨ t.Stray → values = [r]) ∧
          (¬ (t.Lone ∨ t.Stray) → r = .string (String.ofList (splice toText t.pieces values t.last)))) := by
    intro hnot
    rw [← ht, rendered_eq_ok]
    simp [hnot]
  have hnot : (∀ piece, t.pieces ≠ [piece]) → ¬ (t.Lone ∨ t.Stray) := by
    rintro h (⟨⟨piece, hpiece, -⟩, -⟩ | ⟨⟨piece, hpiece, -⟩, -⟩)
    · exact h piece hpiece
    · exact h piece hpiece
  rw [resolveText, (hes _).mpr ⟨husable, rfl⟩]
  simp only [hbound, and_iff_right husable]
  rcases hpieces : t.pieces with _ | ⟨piece, _ | ⟨piece', pieces⟩⟩
  · have hlast : text = String.ofList t.last := by
      rw [← String.toList_inj, String.toList_ofList, ← ht, Template.text, hpieces, join]
    have hsome := hnot (by simp [hpieces])
    simp only [hsome, false_imp_iff, not_false_iff, true_imp_iff, true_and]
    constructor
    · intro h
      refine ⟨[], .nil, ?_⟩
      rw [← Except.ok.inj h, hlast]
      rfl
    · rintro ⟨values, hvalues, rfl⟩
      cases hvalues
      rw [hlast]
      rfl
  · set resolveLone : Except Invalid Json := if OPEN.isPrefixOf text.toList ∧ CLOSE.isSuffixOf text.toList then
        lookup payload piece.expression path
      else do return .string (String.ofList (← renderLoop toText payload path text.toList)) with hresolve
    change resolveLone = .ok r ↔ _
    by_cases hmarks : OPEN.isPrefixOf text.toList ∧ CLOSE.isSuffixOf text.toList
    · have hlone := (t.lone_or_stray hpieces).mp (ht ▸ hmarks)
      simp only [hlone, true_imp_iff, not_true, false_imp_iff, and_true]
      rw [hresolve, if_pos hmarks]
      constructor
      · intro h
        exact ⟨[r], .cons h .nil, rfl⟩
      · rintro ⟨_, hvalues, rfl⟩
        cases hvalues with
        | cons h => exact h
    · have hmixed := hmixed (mt (t.lone_or_stray hpieces).mpr (ht ▸ hmarks))
      rw [hpieces] at hmixed
      rw [hresolve, if_neg hmarks]
      exact hmixed
  · have hmixed := hmixed (hnot (by simp [hpieces]))
    rw [hpieces] at hmixed
    exact hmixed

theorem template_of_resolveText {text : String} (h : resolveText toText payload path text = .ok r) :
    ∃ t : Template, t.text = text.toList := by
  rcases hes : expressions text with err | es
  · rw [resolveText, hes] at h
    cases h
  · exact exists_template text.toList hes

/-- **What a text resolves to**, unless it is a stray one: the value of its placeholder, if
it is just that, and else the text with the values in place of the placeholders. -/
theorem resolveText_iff (toText : Json → String) (payload : Json) (path text : String) (r : Json)
    (hstray : ∀ t : Template, t.text = text.toList → ¬ t.Stray) :
    resolveText toText payload path text = .ok r ↔
      ∃ t : Template, t.text = text.toList ∧ t.Resolves toText payload path r := by
  constructor
  · intro h
    obtain ⟨t, ht⟩ := template_of_resolveText h
    have hresolves := (resolveText_text ht).mp h
    rw [or_iff_left (hstray t ht)] at hresolves
    exact ⟨t, ht, hresolves⟩
  · rintro ⟨t, ht, hresolves⟩
    rw [resolveText_text ht, or_iff_left (hstray t ht)]
    exact hresolves

/-- What stands behind the placeholder of a stray text is dropped: it resolves to the value
alone. -/
theorem resolveText_stray {t : Template} {text : String} (ht : t.text = text.toList) (hstray : t.Stray) :
    resolveText toText payload path text = .ok r ↔ List.Forall₂ (Bound payload path) t.pieces [r] := by
  rw [resolveText_text ht]
  simp only [hstray, or_true, true_imp_iff, not_true, false_imp_iff, and_true]
  constructor
  · rintro ⟨_, hvalues, rfl⟩
    exact hvalues
  · exact fun h => ⟨_, h, rfl⟩

/-! ### Three texts -/

/-- An event with a number. -/
def numbered : Json := .object [("no", .number (.int 4))]

theorem first_close_no : First CLOSE "event.no".toList := by decide

/-- The placeholder of the number, behind a text. -/
def numberPiece (before : List Char) (h : First OPEN before) : Piece := ⟨before, "event.no".toList, h, first_close_no⟩

theorem numberPiece_bound (before : List Char) (h : First OPEN before) :
    Bound numbered "$" (numberPiece before h) (.number (.int 4)) := by
  have hexpression : (numberPiece before h).expression = "event.no" := by
    change trim (String.ofList "event.no".toList) = "event.no"
    decide
  refine ⟨?_, ?_⟩
  · rw [Piece.Usable, hexpression]
    decide
  · rw [Fills, hexpression]
    rfl

theorem text_numberPiece {before last : List Char} (h : First OPEN before) (hlast : ¬ OPEN <:+: last) :
    Template.text ⟨[numberPiece before h], last, hlast⟩ = before ++ "\x7b\x7bevent.no\x7d\x7d".toList ++ last := by
  simp [Template.text, join, numberPiece, OPEN, CLOSE]

theorem not_lone_or_stray {before last : List Char} (h : First OPEN before) (hlast : ¬ OPEN <:+: last)
    (hbefore : before ≠ []) :
    ¬ (Template.Lone ⟨[numberPiece before h], last, hlast⟩ ∨ Template.Stray ⟨[numberPiece before h], last, hlast⟩) := by
  rintro (⟨⟨piece, hpiece, hnil⟩, -⟩ | ⟨⟨piece, hpiece, hnil⟩, -⟩)
  · obtain rfl := (List.cons.inj hpiece).1
    exact hbefore hnil
  · obtain rfl := (List.cons.inj hpiece).1
    exact hbefore hnil

theorem resolveText_iff_numbered :
    resolveText (fun _ => "4") numbered "$" "No. \x7b\x7bevent.no\x7d\x7d" = .ok (.string "No. 4") := by
  have hfirst : First OPEN "No. ".toList := by decide
  have hlast : ¬ OPEN <:+: [] := by decide
  have ht := text_numberPiece hfirst hlast
  have hmixed := not_lone_or_stray hfirst hlast (by decide)
  refine (resolveText_iff _ _ _ _ _ fun t' ht' hstray => ?_).mpr ⟨_, ht, [.number (.int 4)], ?_, ?_, fun _ => rfl⟩
  · obtain rfl := Template.text_injective (ht'.trans ht.symm)
    exact hmixed (.inr hstray)
  · exact .cons (numberPiece_bound _ _) .nil
  · exact fun hlone => absurd (.inl hlone) hmixed

/-- A placeholder with a space before it is text, and one with a closing mark further on loses
what stands between. -/
theorem spaced_and_stray :
    trim " \x7b\x7bevent.no\x7d\x7d" = "\x7b\x7bevent.no\x7d\x7d" ∧
      resolveText (fun _ => "4") numbered "$" " \x7b\x7bevent.no\x7d\x7d" = .ok (.string " 4") ∧
      resolveText (fun _ => "4") numbered "$" "\x7b\x7bevent.no\x7d\x7d of \x7d\x7d" = .ok (.number (.int 4)) := by
  refine ⟨by decide, ?_, ?_⟩
  · have hfirst : First OPEN " ".toList := by decide
    have hlast : ¬ OPEN <:+: [] := by decide
    have hmixed := not_lone_or_stray hfirst hlast (by decide)
    refine (resolveText_text (text_numberPiece hfirst hlast)).mpr
      ⟨[.number (.int 4)], .cons (numberPiece_bound _ _) .nil, ?_, fun _ => rfl⟩
    exact fun h => absurd h hmixed
  · have hfirst : First OPEN [] := .nil open_ne_nil
    have hlast : ¬ OPEN <:+: " of \x7d\x7d".toList := by decide
    have ht := text_numberPiece hfirst hlast
    have hstray : Template.Stray ⟨[numberPiece [] hfirst], " of \x7d\x7d".toList, hlast⟩ := by
      refine ⟨⟨_, rfl, rfl⟩, (by decide : " of \x7d\x7d".toList ≠ []), ?_⟩
      rw [ht]
      decide
    exact (resolveText_stray ht hstray).mpr (.cons (numberPiece_bound _ _) .nil)

end Omnion.Automation
