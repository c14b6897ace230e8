import Omnion.Core.NetText
import Omnion.Library.Sorting
import Omnion.Library.Words
import Omnion.Workflows.Model

/-!
# Cron expressions

`crates/workflows/src/cron.rs`: the schedule of a workflow is five fields, for the minute,
the hour, the day of the month, the month and the weekday. A field is a list of items with
commas, each a star, a value or a range, with a step or without.

## The model

`Item` is what an item says and `SpellsField` how a field spells its items; an item denotes
the values of `Item.Denotes`. A value with a step stands for itself and the values after it
in its steps. `ReadsField` has the spellings that `parse_field` takes, with blanks and plus signs
and with steps that are a byte. `parse_field` has the step `1` where an item has none, and so takes
a value with the step `1` for the value alone (`Item.Taken`).

## What is proved

* `parse_right_iff` — a field is read right (`Right`) just when it is `Regular`: a field with blanks
  or plus signs is none that is read, its steps are bytes, and what its values with the step `1`
  stand for is denoted by it anyway. Sunday is `0` in a schedule.
* `minutes_from_five` — the field `5/1` gives the minute 5 alone.
-/

namespace Omnion.Workflows.Cron

open Text Sorting

/-! ### The parser -/

/-- The fields of an expression. -/
inductive Field where
  | minute | hour | dayOfMonth | month | dayOfWeek

/-- `MONTH_NAMES`. -/
def monthNames : List (String × ℕ) :=
  [("jan", 1), ("feb", 2), ("mar", 3), ("apr", 4), ("may", 5), ("jun", 6), ("jul", 7), ("aug", 8), ("sep", 9),
    ("oct", 10), ("nov", 11), ("dec", 12)]

/-- `WEEKDAY_NAMES`. -/
def weekdayNames : List (String × ℕ) :=
  [("sun", 0), ("mon", 1), ("tue", 2), ("wed", 3), ("thu", 4), ("fri", 5), ("sat", 6)]

namespace Field

/-- The least value. -/
def min : Field → ℕ
  | minute => 0
  | hour => 0
  | dayOfMonth => 1
  | month => 1
  | dayOfWeek => 0

/-- The greatest value. -/
def max : Field → ℕ
  | minute => 59
  | hour => 23
  | dayOfMonth => 31
  | month => 12
  | dayOfWeek => 7

/-- The names of its values. -/
def names : Field → List (String × ℕ)
  | month => monthNames
  | dayOfWeek => weekdayNames
  | _ => []

/-- What messages call it. -/
def label : Field → String
  | minute => "minute"
  | hour => "hour"
  | dayOfMonth => "day of month"
  | month => "month"
  | dayOfWeek => "day of week"

end Field

/-- `invalid_cron`. -/
def invalidCron (message : String) : WorkflowError := .invalid "invalid_cron" message

/-- A field, as messages show it. -/
def quoted (field : List Char) : String := "\"" ++ String.ofList field ++ "\""

/-- The generic "this field is not understandable" error. -/
def badField (f : Field) (field : List Char) : WorkflowError :=
  invalidCron ("the " ++ f.label ++ " field of " ++ quoted field ++ " is not a valid cron field")

/-- `str::trim`. -/
def trimmed (text : List Char) : List Char := (text.dropWhile isWhitespace).rdropWhile isWhitespace

/-- `str::to_ascii_lowercase`. -/
def asciiLowercase (text : List Char) : String := String.ofList (text.map Char.toLower)

/-- One value of a field: a number, or a name where names are allowed. -/
def valueOf (f : Field) (field raw : List Char) : Except WorkflowError ℕ :=
  match parseU8 (trimmed raw) with
  | some value =>
    if value < f.min ∨ f.max < value then
      .error (invalidCron ("the " ++ f.label ++ " field of " ++ quoted field ++ " takes " ++ toString f.min ++ "-" ++
        toString f.max ++ ", got " ++ toString value))
    else .ok value
  | none =>
    match f.names.lookup (asciiLowercase (trimmed raw)) with
    | some value => .ok value
    | none => .error (badField f field)

/-- The first and the last value of an item, with its step. -/
def boundsOf (f : Field) (field range : List Char) (step : ℕ) : Except WorkflowError (ℕ × ℕ) :=
  if range = ['*'] then .ok (f.min, f.max)
  else
    match splitOnce ['-'] range with
    | some (left, right) => do
      let start ← valueOf f field left
      let stop ← valueOf f field right
      return (start, stop)
    | none => do
      let single ← valueOf f field range
      -- `n/step` means "from n to the top of the range".
      return if step > 1 then (single, f.max) else (single, single)

/-- The loop over the values of an item. The sum stays a byte. -/
def pushValues (values : List ℕ) (value stop step : ℕ) (hstep : 0 < step) : List ℕ :=
  if value ≤ stop then
    pushValues (if value ∈ values then values else values ++ [value]) (value + step) stop step hstep
  else values
termination_by stop + 1 - value

/-- The range and the step of an item. -/
def stepOf (f : Field) (field item : List Char) : Except WorkflowError (List Char × { step : ℕ // 0 < step }) :=
  match splitOnce ['/'] item with
  | some (range, step) =>
    match parseU8 (trimmed step) with
    | some step =>
      if hstep : 0 < step then .ok (trimmed range, ⟨step, hstep⟩)
      else .error (invalidCron ("the " ++ f.label ++ " field of " ++ quoted field ++ " has a zero step"))
    | none => .error (badField f field)
  | none => .ok (item, ⟨1, Nat.one_pos⟩)

/-- The values of an item, put to those before it. -/
def parseItem (f : Field) (field : List Char) (values : List ℕ) (item : List Char) : Except WorkflowError (List ℕ) := do
  if trimmed item = [] then throw (badField f field)
  let (range, step) ← stepOf f field (trimmed item)
  let (start, stop) ← boundsOf f field range step
  if stop < start then
    throw (invalidCron ("the " ++ f.label ++ " field of " ++ quoted field ++ " runs backwards (" ++ toString start ++
      "-" ++ toString stop ++ ")"))
  return pushValues values start stop step step.property

/-- Parse one field into the sorted values it allows. -/
def parseField (f : Field) (field : List Char) : Except WorkflowError (List ℕ) := do
  let values ← (field.splitOn ',').foldlM (parseItem f field) []
  if values = [] then throw (badField f field)
  return sortBy id values

/-- A parsed five-field cron expression. -/
structure CronSchedule where
  minutes : List ℕ
  hours : List ℕ
  days : List ℕ
  months : List ℕ
  weekdays : List ℕ
  /-- The day of the month was `*`. -/
  dayWildcard : Bool
  /-- The weekday was `*`. -/
  weekdayWildcard : Bool
  /-- The expression as it was written. -/
  expression : String

namespace CronSchedule

/-- Parse an expression, or answer `invalid_cron`. -/
def parse (expression : String) : Except WorkflowError CronSchedule :=
  match Words.words isWhitespace expression.toList with
  | [minute, hour, dayOfMonth, month, dayOfWeek] => do
    let minutes ← parseField .minute minute
    let hours ← parseField .hour hour
    let days ← parseField .dayOfMonth dayOfMonth
    let months ← parseField .month month
    let weekdays ← parseField .dayOfWeek dayOfWeek
    return {
      minutes, hours, days, months
      weekdays := (sortBy id (weekdays.map fun value => if value = 7 then 0 else value)).destutter (· ≠ ·)
      dayWildcard := trimmed dayOfMonth = ['*']
      weekdayWildcard := trimmed dayOfWeek = ['*']
      expression := trim expression }
  | fields =>
    .error (invalidCron ("a schedule is five fields (minute hour day-of-month month day-of-week), got " ++
      toString fields.length ++ ": " ++ debug expression))

end CronSchedule

/-! ### The language of fields -/

/-- What an item is about. -/
inductive Base where
  | all
  | single (n : ℕ)
  | range (first last : ℕ)
  deriving DecidableEq

/-- An item of a field. -/
structure Item where
  base : Base
  step : Option ℕ
  deriving DecidableEq

def Item.Denotes (f : Field) (item : Item) (v : ℕ) : Prop :=
  match item.base, item.step with
  | .all, step => f.min ≤ v ∧ v ≤ f.max ∧ step.getD 1 ∣ v - f.min
  | .range first last, step => first ≤ v ∧ v ≤ last ∧ step.getD 1 ∣ v - first
  | .single n, none => v = n
  | .single n, some step => n ≤ v ∧ v ≤ f.max ∧ step ∣ v - n

/-- The item is a value with the step `1`. -/
def Item.StepOne (item : Item) (n : ℕ) : Prop := item = ⟨.single n, some 1⟩

/-- The values `parse_field` takes an item for: a value with the step `1` is that value alone. -/
def Item.Taken (f : Field) (item : Item) (v : ℕ) : Prop :=
  item.StepOne v ∨ (∀ n, ¬ item.StepOne n) ∧ item.Denotes f v

/-- A number within the bounds, or a name. -/
def SpellsValue (f : Field) (text : List Char) (v : ℕ) : Prop :=
  (Digits text ∧ decimal text = v ∧ f.min ≤ v ∧ v ≤ f.max) ∨ f.names.lookup (asciiLowercase text) = some v

/-- A star, a value or a range. -/
inductive SpellsBase (f : Field) : List Char → Base → Prop where
  | all : SpellsBase f ['*'] .all
  | single {text : List Char} {n : ℕ} : SpellsValue f text n → SpellsBase f text (.single n)
  | range {left right : List Char} {first last : ℕ} : SpellsValue f left first → SpellsValue f right last →
      first ≤ last → SpellsBase f (left ++ '-' :: right) (.range first last)

/-- One of these, with a step of at least `1` or without. -/
inductive SpellsItem (f : Field) : List Char → Item → Prop where
  | plain {text : List Char} {base : Base} : SpellsBase f text base → SpellsItem f text ⟨base, none⟩
  | step {left right : List Char} {base : Base} : SpellsBase f left base → Digits right → 0 < decimal right →
      SpellsItem f (left ++ '/' :: right) ⟨base, some (decimal right)⟩

/-- **The grammar of a field**: items with commas. -/
def SpellsField (f : Field) (field : List Char) (items : List Item) : Prop :=
  ∃ parts, parts ≠ [] ∧ field = [','].intercalate parts ∧ List.Forall₂ (SpellsItem f) parts items

/-! ### The fields that are taken -/

/-- A number within the bounds, or a name, with blanks at its ends. -/
def ReadsValue (f : Field) (raw : List Char) (v : ℕ) : Prop :=
  (parseU8 (trimmed raw) = some v ∧ f.min ≤ v ∧ v ≤ f.max) ∨
    parseU8 (trimmed raw) = none ∧ f.names.lookup (asciiLowercase (trimmed raw)) = some v

/-- A star, a value or a range. -/
inductive ReadsBase (f : Field) : List Char → Base → Prop where
  | all : ReadsBase f ['*'] .all
  | single {text : List Char} {n : ℕ} : '-' ∉ text → ReadsValue f text n → ReadsBase f text (.single n)
  | range {left right : List Char} {first last : ℕ} :
      '-' ∉ left → ReadsValue f left first → ReadsValue f right last → first ≤ last →
        ReadsBase f (left ++ '-' :: right) (.range first last)

/-- The text of an item. -/
inductive ReadsItem (f : Field) : List Char → Item → Prop where
  | plain {text : List Char} {base : Base} : '/' ∉ text → ReadsBase f text base → ReadsItem f text ⟨base, none⟩
  | step {left right : List Char} {base : Base} {step : ℕ} :
      '/' ∉ left → ReadsBase f (trimmed left) base → parseU8 (trimmed right) = some step → 0 < step →
        ReadsItem f (left ++ '/' :: right) ⟨base, some step⟩

/-- The text of a field: items with commas. -/
def ReadsField (f : Field) (field : List Char) (items : List Item) : Prop :=
  List.Forall₂ (fun part item => ReadsItem f (trimmed part) item) (field.splitOn ',') items

variable {f : Field} {field raw text left right : List Char} {v start stop step : ℕ}
  {values values' : List ℕ} {base : Base}
  {item : Item} {items : List Item}

/-! ### Values -/

theorem valueOf_eq_ok_iff : valueOf f field raw = .ok v ↔ ReadsValue f raw v := by
  rw [valueOf, ReadsValue]
  rcases parseU8 (trimmed raw) with _ | value
  · rcases f.names.lookup (asciiLowercase (trimmed raw)) with _ | value <;> simp
  · simp only [Option.some.injEq, reduceCtorEq, false_and, or_false]
    split_ifs with h
    · refine iff_of_false (fun h => by cases h) ?_
      omega
    · simp only [Except.ok.injEq]
      omega

theorem names_bounded (f : Field) : ∀ entry ∈ f.names, f.min ≤ entry.2 ∧ entry.2 ≤ f.max := by cases f <;> decide

theorem ReadsValue.bounded (h : ReadsValue f raw v) : f.min ≤ v ∧ v ≤ f.max := by
  rcases h with ⟨-, h⟩ | ⟨-, h⟩
  · exact h
  · obtain ⟨before, after, hnames, -⟩ := List.lookup_eq_some_iff.mp h
    exact names_bounded f _ (hnames ▸ List.mem_append_right before List.mem_cons_self)

theorem not_readsValue (h : text = [] ∨ text = ['*']) : ¬ ReadsValue f text v := by
  have hnumber : parseU8 (trimmed text) = none := by rcases h with rfl | rfl <;> decide
  have hname : f.names.lookup (asciiLowercase (trimmed text)) = none := by
    rcases h with rfl | rfl <;> cases f <;> decide
  rw [ReadsValue, hnumber, hname]
  simp

/-! ### Items -/

/-- The first and the last value of an item. -/
def Base.bounds (f : Field) (step : ℕ) : Base → ℕ × ℕ
  | .all => (f.min, f.max)
  | .single n => if step > 1 then (n, f.max) else (n, n)
  | .range first last => (first, last)

theorem boundsOf_of_reads (h : ReadsBase f text base) : boundsOf f field text step = .ok (base.bounds f step) := by
  cases h with
  | all => exact if_pos rfl
  | single hnot hvalue =>
    have hstar : text ≠ ['*'] := fun h => not_readsValue (.inr h) hvalue
    rw [boundsOf, if_neg hstar, splitOnce_singleton_eq_none_iff.mpr hnot, valueOf_eq_ok_iff.mpr hvalue]
    rfl
  | @range left right first last hnot hfirst hlast _ =>
    have hstar : left ++ '-' :: right ≠ ['*'] := by
      intro h
      have : '-' ∈ ['*'] := h ▸ List.mem_append_right left List.mem_cons_self
      simp at this
    have hsplit : splitOnce ['-'] (left ++ '-' :: right) = some (left, right) :=
      splitOnce_singleton_eq_some_iff.mpr ⟨rfl, hnot⟩
    rw [boundsOf, if_neg hstar, hsplit]
    simp only [valueOf_eq_ok_iff.mpr hfirst, valueOf_eq_ok_iff.mpr hlast]
    rfl

/-- Bounds in order are those of an item. -/
theorem reads_of_boundsOf (h : boundsOf f field text step = .ok (start, stop)) (hle : start ≤ stop) :
    ∃ base, ReadsBase f text base := by
  by_cases hstar : text = ['*']
  · subst hstar
    exact ⟨.all, .all⟩
  rw [boundsOf, if_neg hstar] at h
  rcases hsplit : splitOnce ['-'] text with _ | ⟨left, right⟩
  · rcases hvalue : valueOf f field text with err | n
    · simp only [hsplit, hvalue] at h
      cases h
    · exact ⟨_, .single (splitOnce_singleton_eq_none_iff.mp hsplit) (valueOf_eq_ok_iff.mp hvalue)⟩
  · rcases hfirst : valueOf f field left with err | first
    · simp only [hsplit, hfirst] at h
      cases h
    rcases hlast : valueOf f field right with err | last
    · simp only [hsplit, hfirst, hlast] at h
      cases h
    simp only [hsplit, hfirst, hlast] at h
    obtain ⟨rfl, hnot⟩ := splitOnce_singleton_eq_some_iff.mp hsplit
    cases h
    exact ⟨_, .range hnot (valueOf_eq_ok_iff.mp hfirst) (valueOf_eq_ok_iff.mp hlast) hle⟩

theorem Field.min_le_max (f : Field) : f.min ≤ f.max := by cases f <;> decide

theorem ReadsBase.bounds_le (h : ReadsBase f text base) (step : ℕ) :
    (base.bounds f step).1 ≤ (base.bounds f step).2 := by
  cases h with
  | all => exact f.min_le_max
  | single _ hvalue =>
    rw [Base.bounds]
    split_ifs
    · exact hvalue.bounded.2
    · exact le_rfl
  | range _ _ _ hle => exact hle

theorem ReadsBase.bounded (h : ReadsBase f text base) (step : ℕ) :
    f.min ≤ (base.bounds f step).1 ∧ (base.bounds f step).2 ≤ f.max := by
  cases h with
  | all => exact ⟨le_rfl, le_rfl⟩
  | single _ hvalue =>
    rw [Base.bounds]
    split_ifs
    · exact ⟨hvalue.bounded.1, le_rfl⟩
    · exact hvalue.bounded
  | range _ hfirst hlast _ => exact ⟨hfirst.bounded.1, hlast.bounded.2⟩

/-- The step of an item, `1` if it has none. -/
def Item.stride (item : Item) : ℕ := item.step.getD 1

theorem taken_iff (hstep : ∀ step, item.step = some step → 0 < step) :
    item.Taken f v ↔ (item.base.bounds f item.stride).1 ≤ v ∧ v ≤ (item.base.bounds f item.stride).2 ∧
      item.stride ∣ v - (item.base.bounds f item.stride).1 := by
  obtain ⟨base, step⟩ := item
  cases base with
  | all => simp [Item.Taken, Item.StepOne, Item.Denotes, Base.bounds, Item.stride]
  | range first last => simp [Item.Taken, Item.StepOne, Item.Denotes, Base.bounds, Item.stride]
  | single n =>
    cases step with
    | none =>
      simp [Item.Taken, Item.StepOne, Item.Denotes, Base.bounds, Item.stride]
      omega
    | some step =>
      have hpos := hstep step rfl
      rcases eq_or_ne step 1 with rfl | hne
      · simp [Item.Taken, Item.StepOne, Base.bounds, Item.stride]
        omega
      · have hlt : 1 < step := by omega
        simp [Item.Taken, Item.StepOne, Item.Denotes, Base.bounds, Item.stride, hne, hlt]

theorem mem_pushValues (hstep : 0 < step) :
    v ∈ pushValues values start stop step hstep ↔ v ∈ values ∨ start ≤ v ∧ v ≤ stop ∧ step ∣ v - start := by
  fun_induction pushValues values start stop step hstep with
  | case1 values start hle ih =>
    have hnext : (start + step ≤ v ∧ v ≤ stop ∧ step ∣ v - (start + step)) ∨ v = start ↔
        start ≤ v ∧ v ≤ stop ∧ step ∣ v - start := by
      constructor
      · rintro (⟨hfrom, hto, hdvd⟩ | rfl)
        · refine ⟨by omega, hto, ?_⟩
          rw [show v - start = v - (start + step) + step by omega]
          exact (Nat.dvd_add_self_right).mpr hdvd
        · exact ⟨le_rfl, hle, by simp⟩
      · rintro ⟨hfrom, hto, hdvd⟩
        rcases Nat.eq_or_lt_of_le hfrom with rfl | hlt
        · exact .inr rfl
        · have := Nat.le_of_dvd (by omega) hdvd
          refine .inl ⟨by omega, hto, ?_⟩
          rw [show v - (start + step) = v - start - step by omega]
          exact Nat.dvd_sub hdvd (Nat.dvd_refl step)
    simp only [dite_eq_ite] at ih
    rw [ih, ← hnext]
    split_ifs with hmem
    · constructor
      · rintro (h | h)
        · exact .inl h
        · exact .inr (.inl h)
      · rintro (h | h | rfl)
        · exact .inl h
        · exact .inr h
        · exact .inl hmem
    · rw [List.mem_append, List.mem_singleton, or_assoc, or_comm (a := v = start)]
  | case2 values start hle =>
    have : ¬ (start ≤ v ∧ v ≤ stop ∧ step ∣ v - start) := by omega
    simp [this]

theorem nodup_pushValues (hstep : 0 < step) (h : values.Nodup) : (pushValues values start stop step hstep).Nodup := by
  fun_induction pushValues values start stop step hstep with
  | case1 values start hle ih =>
    simp only [dite_eq_ite] at ih
    refine ih ?_
    split_ifs with hmem
    · exact h
    · exact List.nodup_append.mpr ⟨h, List.nodup_singleton start, by
        rintro a ha b hb rfl
        exact hmem (List.mem_singleton.mp hb ▸ ha)⟩
  | case2 values start hle => exact h

/-! ### Fields -/

theorem ReadsItem.step_pos (h : ReadsItem f text item) : ∀ step, item.step = some step → 0 < step := by
  intro step hstep
  cases h with
  | plain => cases hstep
  | step _ _ _ hpos => exact Option.some.inj hstep ▸ hpos

theorem ReadsItem.exists_base (h : ReadsItem f text item) : ∃ range, ReadsBase f range item.base := by
  cases h with
  | plain _ hbase => exact ⟨_, hbase⟩
  | step _ hbase _ _ => exact ⟨_, hbase⟩

theorem ReadsItem.ne_nil (h : ReadsItem f text item) : text ≠ [] := by
  rintro rfl
  generalize ht : ([] : List Char) = t at h
  cases h with
  | plain _ hbase =>
    subst ht
    generalize ht : ([] : List Char) = t at hbase
    cases hbase with
    | all => cases ht
    | single _ hvalue => exact not_readsValue (.inl ht.symm) hvalue
    | range => exact absurd ht (by simp)
  | step => exact absurd ht (by simp)

theorem ReadsItem.bounded (h : ReadsItem f text item) (hv : item.Taken f v) : f.min ≤ v ∧ v ≤ f.max := by
  obtain ⟨range, hbase⟩ := h.exists_base
  obtain ⟨hfrom, hto, -⟩ := (taken_iff h.step_pos).mp hv
  have := hbase.bounded item.stride
  omega

theorem ReadsItem.exists_taken (h : ReadsItem f text item) : ∃ v, item.Taken f v := by
  obtain ⟨range, hbase⟩ := h.exists_base
  exact ⟨_, (taken_iff h.step_pos).mpr ⟨le_rfl, hbase.bounds_le _, by simp⟩⟩

theorem stepOf_of_reads (field : List Char) (h : ReadsItem f text item) :
    ∃ range step, stepOf f field text = .ok (range, step) ∧ ReadsBase f range item.base ∧ step.val = item.stride := by
  cases h with
  | plain hnot hbase =>
    refine ⟨text, ⟨1, Nat.one_pos⟩, ?_, hbase, rfl⟩
    rw [stepOf, splitOnce_singleton_eq_none_iff.mpr hnot]
  | @step left right base step hnot hbase hnumber hpos =>
    refine ⟨trimmed left, ⟨step, hpos⟩, ?_, hbase, rfl⟩
    have hsplit : splitOnce ['/'] (left ++ '/' :: right) = some (left, right) :=
      splitOnce_singleton_eq_some_iff.mpr ⟨rfl, hnot⟩
    rw [stepOf, hsplit]
    simp only [hnumber, dif_pos hpos]

theorem reads_of_stepOf {range : List Char} {step : { step : ℕ // 0 < step }}
    (h : stepOf f field text = .ok (range, step))
    (hbase : ReadsBase f range base) : ∃ item, ReadsItem f text item := by
  rw [stepOf] at h
  rcases hsplit : splitOnce ['/'] text with _ | ⟨left, right⟩
  · simp only [hsplit] at h
    cases h
    exact ⟨_, .plain (splitOnce_singleton_eq_none_iff.mp hsplit) hbase⟩
  · rcases hnumber : parseU8 (trimmed right) with _ | n
    · simp only [hsplit, hnumber] at h
      cases h
    · simp only [hsplit, hnumber] at h
      split_ifs at h with hpos
      cases h
      obtain ⟨rfl, hnot⟩ := splitOnce_singleton_eq_some_iff.mp hsplit
      exact ⟨_, .step hnot hbase hnumber hpos⟩

theorem parseItem_of_reads (field : List Char) (h : ReadsItem f (trimmed text) item) (hnodup : values.Nodup) :
    ∃ values', parseItem f field values text = .ok values' ∧ values'.Nodup ∧
      ∀ v, v ∈ values' ↔ v ∈ values ∨ item.Taken f v := by
  obtain ⟨range, step, hstep, hbase, hstride⟩ := stepOf_of_reads field h
  have hle := not_lt.mpr (hbase.bounds_le step.val)
  refine ⟨pushValues values (item.base.bounds f step).1 (item.base.bounds f step).2 step step.property, ?_,
    nodup_pushValues _ hnodup, fun v => ?_⟩
  · rw [parseItem, if_neg h.ne_nil]
    simp only [bind, Except.bind, pure, Except.pure, hstep, boundsOf_of_reads hbase, if_neg hle]
  · rw [mem_pushValues, taken_iff h.step_pos, hstride]

theorem reads_of_parseItem (h : parseItem f field values text = .ok values') :
    ∃ item, ReadsItem f (trimmed text) item := by
  rw [parseItem] at h
  by_cases hempty : trimmed text = []
  · rw [if_pos hempty] at h
    cases h
  rw [if_neg hempty] at h
  rcases hstep : stepOf f field (trimmed text) with err | ⟨range, step⟩
  · simp only [bind, Except.bind, hstep] at h
    cases h
  rcases hbounds : boundsOf f field range step with err | ⟨start, stop⟩
  · simp only [bind, Except.bind, hstep, hbounds] at h
    cases h
  by_cases hlt : stop < start
  · simp only [bind, Except.bind, pure, Except.pure, hstep, hbounds, if_pos hlt] at h
    cases h
  · obtain ⟨base, hbase⟩ := reads_of_boundsOf hbounds (not_lt.mp hlt)
    exact reads_of_stepOf hstep hbase

theorem parseItems_of_reads {parts : List (List Char)}
    (h : List.Forall₂ (fun part item => ReadsItem f (trimmed part) item) parts items) (field : List Char)
    (hnodup : values.Nodup) :
    ∃ values', parts.foldlM (parseItem f field) values = .ok values' ∧ values'.Nodup ∧
      ∀ v, v ∈ values' ↔ v ∈ values ∨ ∃ item ∈ items, item.Taken f v := by
  induction h generalizing values with
  | nil => exact ⟨values, rfl, hnodup, by simp⟩
  | @cons part item parts items hitem _ ih =>
    obtain ⟨next, hnext, hnodup, hmem⟩ := parseItem_of_reads field hitem hnodup
    obtain ⟨values', hvalues', hnodup', hmem'⟩ := ih hnodup
    refine ⟨values', ?_, hnodup', fun v => ?_⟩
    · rw [List.foldlM_cons, hnext]
      exact hvalues'
    · rw [hmem', hmem, or_assoc, List.exists_mem_cons_iff]

theorem reads_of_parseItems {parts : List (List Char)} (h : parts.foldlM (parseItem f field) values = .ok values') :
    ∃ items, List.Forall₂ (fun part item => ReadsItem f (trimmed part) item) parts items := by
  induction parts generalizing values with
  | nil => exact ⟨[], .nil⟩
  | cons part parts ih =>
    rw [List.foldlM_cons] at h
    rcases hnext : parseItem f field values part with err | next
    · rw [hnext] at h
      cases h
    rw [hnext] at h
    obtain ⟨item, hitem⟩ := reads_of_parseItem hnext
    obtain ⟨items, hitems⟩ := ih h
    exact ⟨item :: items, .cons hitem hitems⟩

theorem parseField_of_reads (h : ReadsField f field items) :
    ∃ values, parseField f field = .ok values ∧ values.Pairwise (· < ·) ∧
      ∀ v, v ∈ values ↔ ∃ item ∈ items, item.Taken f v := by
  obtain ⟨values, hvalues, hnodup, hmem⟩ := parseItems_of_reads h field List.nodup_nil
  have hne : values ≠ [] := by
    obtain ⟨part, parts, hparts⟩ := List.exists_cons_of_ne_nil (List.splitOn_ne_nil ',' field)
    rw [ReadsField, hparts] at h
    cases h with
    | cons hitem =>
      obtain ⟨v, hv⟩ := hitem.exists_taken
      exact List.ne_nil_of_mem ((hmem v).mpr (.inr ⟨_, List.mem_cons_self, hv⟩))
  refine ⟨sortBy id values, ?_, ?_, fun v => ?_⟩
  · rw [parseField, hvalues]
    simp only [bind, Except.bind, if_neg hne]
    rfl
  · have hdistinct : (sortBy id values).Nodup := (sortBy_perm id values).nodup_iff.mpr hnodup
    exact (pairwise_sortBy id values).imp₂ (fun _ _ hle hne => lt_of_le_of_ne hle hne) hdistinct
  · rw [mem_sortBy, hmem]
    simp

theorem reads_of_parseField (h : parseField f field = .ok values) : ∃ items, ReadsField f field items := by
  rw [parseField] at h
  rcases hvalues : (field.splitOn ',').foldlM (parseItem f field) [] with err | values'
  · rw [hvalues] at h
    cases h
  · exact reads_of_parseItems hvalues

theorem ReadsField.exists_reads (h : ReadsField f field items) (hitem : item ∈ items) :
    ∃ text, ReadsItem f text item := by
  rw [ReadsField] at h
  generalize field.splitOn ',' = parts at h
  induction h with
  | nil => cases hitem
  | cons hreads _ ih =>
    rcases List.mem_cons.mp hitem with rfl | hitem
    · exact ⟨_, hreads⟩
    · exact ih hitem

theorem parseField_bounded (h : parseField f field = .ok values) :
    values.Pairwise (· < ·) ∧ ∀ v ∈ values, f.min ≤ v ∧ v ≤ f.max := by
  obtain ⟨items, hitems⟩ := reads_of_parseField h
  obtain ⟨values', hvalues', hsorted, hmem⟩ := parseField_of_reads hitems
  obtain rfl := Except.ok.inj (h.symm.trans hvalues')
  refine ⟨hsorted, fun v hv => ?_⟩
  obtain ⟨item, hitem, htaken⟩ := (hmem v).mp hv
  obtain ⟨text, hreads⟩ := hitems.exists_reads hitem
  exact hreads.bounded htaken

/-! ### Both spellings -/

/-- A character that stands in numbers and names. -/
def Solid (c : Char) : Prop := isWhitespace c = false ∧ c ∉ ['+', ',', '/', '-']

theorem solid_of_toNat {c : Char} (h : 48 ≤ c.toNat ∧ c.toNat ≤ 57 ∨ 65 ≤ c.toNat ∧ c.toNat ≤ 90 ∨
    97 ≤ c.toNat ∧ c.toNat ≤ 122) : Solid c := by
  constructor
  · simp only [isWhitespace, Bool.or_eq_false_iff, Bool.and_eq_false_iff, decide_eq_false_iff_not, beq_eq_false_iff_ne]
    omega
  · intro hmark
    simp only [List.mem_cons, List.not_mem_nil, or_false] at hmark
    rcases hmark with rfl | rfl | rfl | rfl <;> exact absurd h (by decide)

theorem solid_of_digits (h : Digits text) : ∀ c ∈ text, Solid c :=
  fun c hc => solid_of_toNat (.inl (isAsciiDigit_toNat (h.2 c hc)))

theorem letters_of_lookup (h : f.names.lookup (asciiLowercase text) = some v) :
    text ≠ [] ∧ ∀ c ∈ text, 65 ≤ c.toNat ∧ c.toNat ≤ 90 ∨ 97 ≤ c.toNat ∧ c.toNat ≤ 122 := by
  have hall : (f.names.all fun entry => decide (entry.1.toList ≠ []) &&
      entry.1.toList.all fun c => decide (97 ≤ c.toNat ∧ c.toNat ≤ 122)) = true := by
    cases f <;> decide
  have hnames : ∀ entry ∈ f.names, entry.1.toList ≠ [] ∧ ∀ c ∈ entry.1.toList, 97 ≤ c.toNat ∧ c.toNat ≤ 122 := by
    simpa only [List.all_eq_true, Bool.and_eq_true, decide_eq_true_eq] using hall
  obtain ⟨before, after, hsplit, -⟩ := List.lookup_eq_some_iff.mp h
  obtain ⟨hne, hletters⟩ := hnames _ (hsplit ▸ List.mem_append_right before List.mem_cons_self)
  rw [asciiLowercase, String.toList_ofList] at hne hletters
  refine ⟨fun hnil => hne (by rw [hnil, List.map_nil]), fun c hc => ?_⟩
  have hlower := hletters _ (List.mem_map_of_mem hc)
  by_cases hupper : c.val ≥ 'A'.val ∧ c.val ≤ 'Z'.val
  · exact .inl ⟨UInt32.le_iff_toNat_le.mp hupper.1, UInt32.le_iff_toNat_le.mp hupper.2⟩
  · have hsame : c.toLower = c := dif_neg hupper
    exact .inr (hsame ▸ hlower)

theorem SpellsValue.solid (h : SpellsValue f text v) : ∀ c ∈ text, Solid c := by
  rcases h with ⟨hdigits, -⟩ | hname
  · exact solid_of_digits hdigits
  · exact fun c hc => solid_of_toNat (.inr ((letters_of_lookup hname).2 c hc))

theorem trimmed_of_forall (h : ∀ c ∈ text, isWhitespace c = false) : trimmed text = text :=
  (Words.bare_of_forall h).trim

theorem SpellsValue.reads (h : SpellsValue f text v) : ReadsValue f text v := by
  rw [ReadsValue, trimmed_of_forall fun c hc => (h.solid c hc).1]
  rcases h with ⟨hdigits, rfl, hmin, hmax⟩ | hname
  · have hbyte : decimal text ≤ 255 := hmax.trans (by cases f <;> decide)
    exact .inl ⟨parseU8_eq_some.mpr ⟨text, .inl rfl, hdigits, rfl, hbyte⟩, hmin, hmax⟩
  · refine .inr ⟨Option.eq_none_iff_forall_not_mem.mpr fun n hn => ?_, hname⟩
    obtain ⟨hne, hletters⟩ := letters_of_lookup hname
    obtain ⟨c, rest, rfl⟩ := List.exists_cons_of_ne_nil hne
    have hletter := hletters c List.mem_cons_self
    obtain ⟨digits, hsame | hplus, hdigits, -, -⟩ := parseU8_eq_some.mp hn
    · have := isAsciiDigit_toNat (hdigits.2 c (hsame ▸ List.mem_cons_self))
      omega
    · rw [(List.cons.inj hplus).1] at hletter
      exact absurd hletter (by decide)

theorem spellsValue_of_reads (h : ReadsValue f text v) (hplain : ∀ c ∈ text, isWhitespace c = false ∧ c ≠ '+') :
    SpellsValue f text v := by
  rw [ReadsValue, trimmed_of_forall fun c hc => (hplain c hc).1] at h
  rcases h with ⟨hnumber, hbounds⟩ | ⟨-, hname⟩
  · obtain ⟨digits, rfl | rfl, hdigits, hvalue, -⟩ := parseU8_eq_some.mp hnumber
    · exact .inl ⟨hdigits, hvalue, hbounds⟩
    · exact absurd rfl (hplain '+' List.mem_cons_self).2
  · exact .inr hname

theorem SpellsBase.chars (h : SpellsBase f text base) : ∀ c ∈ text, isWhitespace c = false ∧ c ∉ ['+', ',', '/'] := by
  have hsolid : ∀ {c : Char}, Solid c → isWhitespace c = false ∧ c ∉ ['+', ',', '/'] := fun h =>
    ⟨h.1, fun hmark => h.2 (List.mem_append_left ['-'] hmark)⟩
  cases h with
  | all => exact List.forall_mem_singleton.mpr (by decide)
  | single hvalue => exact fun c hc => hsolid (hvalue.solid c hc)
  | range hfirst hlast _ =>
    intro c hc
    rcases List.mem_append.mp hc with hc | hc
    · exact hsolid (hfirst.solid c hc)
    · rcases List.mem_cons.mp hc with rfl | hc
      · decide
      · exact hsolid (hlast.solid c hc)

theorem SpellsItem.chars (h : SpellsItem f text item) : ∀ c ∈ text, isWhitespace c = false ∧ c ∉ ['+', ','] := by
  have hbase : ∀ {range : List Char}, SpellsBase f range item.base →
      ∀ c ∈ range, isWhitespace c = false ∧ c ∉ ['+', ','] := fun h c hc =>
    ⟨(h.chars c hc).1, fun hmark => (h.chars c hc).2 (List.mem_append_left ['/'] hmark)⟩
  cases h with
  | plain h => exact hbase h
  | @step left right base h hdigits hpos =>
    intro c hc
    rcases List.mem_append.mp hc with hc | hc
    · exact hbase h c hc
    · rcases List.mem_cons.mp hc with rfl | hc
      · decide
      · have hsolid := solid_of_digits hdigits c hc
        exact ⟨hsolid.1, fun hmark => hsolid.2 (List.mem_append_left ['/', '-'] hmark)⟩

theorem SpellsBase.reads (h : SpellsBase f text base) : ReadsBase f text base := by
  have hdash : ∀ {range : List Char} {n : ℕ}, SpellsValue f range n → '-' ∉ range :=
    fun h hmark => (h.solid '-' hmark).2 (by decide)
  cases h with
  | all => exact .all
  | single hvalue => exact .single (hdash hvalue) hvalue.reads
  | range hfirst hlast hle => exact .range (hdash hfirst) hfirst.reads hlast.reads hle

theorem spellsBase_of_reads (h : ReadsBase f text base) (hplain : ∀ c ∈ text, isWhitespace c = false ∧ c ≠ '+') :
    SpellsBase f text base := by
  cases h with
  | all => exact .all
  | single _ hvalue => exact .single (spellsValue_of_reads hvalue hplain)
  | @range left right _ _ _ hfirst hlast hle =>
    refine .range (spellsValue_of_reads hfirst fun c hc => hplain c (List.mem_append_left _ hc))
      (spellsValue_of_reads hlast fun c hc => hplain c ?_) hle
    exact List.mem_append_right left (List.mem_cons_of_mem '-' hc)

theorem SpellsItem.reads (h : SpellsItem f text item) (hbyte : ∀ step ∈ item.step, step ≤ 255) :
    ReadsItem f (trimmed text) item := by
  rw [trimmed_of_forall fun c hc => (h.chars c hc).1]
  cases h with
  | plain h => exact .plain (fun hmark => (h.chars '/' hmark).2 (by decide)) h.reads
  | step h hdigits hpos =>
    refine .step (fun hmark => (h.chars '/' hmark).2 (by decide)) ?_ ?_ hpos
    · rw [trimmed_of_forall fun c hc => (h.chars c hc).1]
      exact h.reads
    · rw [trimmed_of_forall fun c hc => (solid_of_digits hdigits c hc).1]
      exact parseU8_eq_some.mpr ⟨_, .inl rfl, hdigits, rfl, hbyte _ rfl⟩

theorem spellsItem_of_reads (h : ReadsItem f (trimmed text) item)
    (hplain : ∀ c ∈ text, isWhitespace c = false ∧ c ≠ '+') : SpellsItem f text item := by
  have htrimmed := trimmed_of_forall fun c hc => (hplain c hc).1
  rw [htrimmed] at h
  clear htrimmed
  cases h with
  | plain _ h => exact .plain (spellsBase_of_reads h hplain)
  | @step left right base step _ h hnumber hpos =>
    have hleft : ∀ c ∈ left, isWhitespace c = false ∧ c ≠ '+' := fun c hc => hplain c (List.mem_append_left _ hc)
    have hright : ∀ c ∈ right, isWhitespace c = false ∧ c ≠ '+' := fun c hc =>
      hplain c (List.mem_append_right left (List.mem_cons_of_mem '/' hc))
    rw [trimmed_of_forall fun c hc => (hleft c hc).1] at h
    rw [trimmed_of_forall fun c hc => (hright c hc).1] at hnumber
    obtain ⟨digits, rfl | rfl, hdigits, rfl, -⟩ := parseU8_eq_some.mp hnumber
    · exact .step (spellsBase_of_reads h hleft) hdigits hpos
    · exact absurd rfl (hright '+' List.mem_cons_self).2

theorem SpellsItem.step_le (h : SpellsItem f text item) {other : Item} (hread : ReadsItem f (trimmed text) other) :
    ∀ step ∈ item.step, step ≤ 255 := by
  rw [trimmed_of_forall fun c hc => (h.chars c hc).1] at hread
  cases h with
  | plain => nofun
  | @step left right base h hdigits hpos =>
    rintro step ⟨⟩
    generalize htext : left ++ '/' :: right = text at hread
    cases hread with
    | plain hnot => exact absurd (htext ▸ List.mem_append_right left List.mem_cons_self) hnot
    | @step left' right' _ step' hnot _ hnumber =>
      have hslash : '/' ∉ left := fun hmark => (h.chars '/' hmark).2 (by decide)
      have hsplit := splitOnce_singleton_eq_some_iff.mpr ⟨htext.symm, hslash⟩
      obtain ⟨rfl, rfl⟩ := Prod.mk.inj (Option.some.inj
        (hsplit.symm.trans (splitOnce_singleton_eq_some_iff.mpr ⟨rfl, hnot⟩)))
      rw [trimmed_of_forall fun c hc => (solid_of_digits hdigits c hc).1] at hnumber
      obtain ⟨digits, rfl | rfl, -, hvalue, hbyte⟩ := parseU8_eq_some.mp hnumber
      · rwa [hvalue]
      · exact absurd (by decide) (solid_of_digits hdigits '+' List.mem_cons_self).2

theorem spellsField_iff : SpellsField f field items ↔ List.Forall₂ (SpellsItem f) (field.splitOn ',') items := by
  constructor
  · rintro ⟨parts, hne, rfl, hitems⟩
    have hparts : ∀ part ∈ parts, ',' ∉ part := by
      intro part hpart hcomma
      obtain ⟨n, hn, rfl⟩ := List.getElem_of_mem hpart
      have hitem := (List.forall₂_iff_get.mp hitems).2 n hn (hitems.length_eq ▸ hn)
      exact (hitem.chars ',' hcomma).2 (by decide)
    rwa [List.splitOn_intercalate ',' hparts hne]
  · exact fun h => ⟨_, List.splitOn_ne_nil ',' field, (List.intercalate_splitOn ',').symm, h⟩

theorem SpellsField.chars (h : SpellsField f field items) : ∀ c ∈ field, isWhitespace c = false ∧ c ≠ '+' := by
  obtain ⟨parts, -, rfl, hitems⟩ := h
  refine (Words.forall_mem_intercalate (List.forall_mem_singleton.mpr (by decide))).mpr fun part hpart c hc => ?_
  obtain ⟨n, hn, rfl⟩ := List.getElem_of_mem hpart
  have hchars := ((List.forall₂_iff_get.mp hitems).2 n hn (hitems.length_eq ▸ hn)).chars c hc
  exact ⟨hchars.1, fun hplus => hchars.2 (by simp [hplus])⟩

/-- **A field of the grammar** is read when its steps are bytes. -/
theorem SpellsField.reads (h : SpellsField f field items)
    (hbytes : ∀ item ∈ items, ∀ step ∈ item.step, step ≤ 255) : ReadsField f field items := by
  rw [spellsField_iff] at h
  rw [ReadsField]
  generalize field.splitOn ',' = parts at h ⊢
  induction h with
  | nil => exact .nil
  | cons hitem _ ih =>
    obtain ⟨hfirst, hrest⟩ := List.forall_mem_cons.mp hbytes
    exact .cons (hitem.reads hfirst) (ih hrest)

/-- **A field that is read** is one of the grammar when it has no blank and no plus sign. -/
theorem spellsField_of_reads (h : ReadsField f field items) (hplain : ∀ c ∈ field, isWhitespace c = false ∧ c ≠ '+') :
    SpellsField f field items := by
  rw [spellsField_iff]
  have hparts : ∀ part ∈ field.splitOn ',', ∀ c ∈ part, isWhitespace c = false ∧ c ≠ '+' := by
    intro part hpart c hc
    rw [List.splitOn_eq_splitOnP] at hpart
    exact hplain c (Words.mem_splitOnP hpart hc).1
  rw [ReadsField] at h
  exact ((List.forall₂_and_left ..).mpr ⟨hparts, h⟩).imp fun part item h => spellsItem_of_reads h.2 h.1

theorem SpellsField.steps_le {others : List Item} (h : SpellsField f field items) (hread : ReadsField f field others) :
    ∀ item ∈ items, ∀ step ∈ item.step, step ≤ 255 := by
  rw [spellsField_iff] at h
  rw [ReadsField] at hread
  generalize field.splitOn ',' = parts at h hread
  induction h generalizing others with
  | nil => nofun
  | cons hitem _ ih =>
    cases hread with
    | cons hother hread => exact List.forall_mem_cons.mpr ⟨hitem.step_le hother, ih hread⟩

/-! ### When a field is read right -/

/-- **A field is read right**: it is accepted just when it is a list of items, and the
values are those the items denote. -/
def Right (f : Field) (field : List Char) : Prop :=
  ((∃ values, parseField f field = .ok values) ↔ ∃ items, SpellsField f field items) ∧
    ∀ values items, parseField f field = .ok values → SpellsField f field items →
      ∀ v, v ∈ values ↔ ∃ item ∈ items, item.Denotes f v

/-- The fields that are read right. -/
structure Regular (f : Field) (field : List Char) : Prop where
  /-- No field that is read with blanks or plus signs has any. -/
  plain : ∀ items, ReadsField f field items → ∀ c ∈ field, isWhitespace c = false ∧ c ≠ '+'
  /-- The steps are bytes. -/
  steps : ∀ items, SpellsField f field items → ∀ item ∈ items, ∀ step ∈ item.step, step ≤ 255
  /-- What the values with the step `1` stand for is denoted by the other items, or by such
  values themselves. -/
  covered : ∀ items, SpellsField f field items → ∀ item ∈ items, ∀ n, item.StepOne n → ∀ v, n ≤ v → v ≤ f.max →
    ∃ item ∈ items, item.StepOne v ∨ (∀ n, ¬ item.StepOne n) ∧ item.Denotes f v

theorem ReadsItem.denotes_of_taken (h : ReadsItem f text item) (hv : item.Taken f v) : item.Denotes f v := by
  have hbounded := h.bounded hv
  rcases hv with rfl | ⟨-, hv⟩
  · exact ⟨le_rfl, hbounded.2, by simp⟩
  · exact hv

theorem right_iff (f : Field) (field : List Char) : Right f field ↔ Regular f field := by
  constructor
  · rintro ⟨haccepts, hvalues⟩
    have hsteps : ∀ items, SpellsField f field items → ∀ item ∈ items, ∀ step ∈ item.step, step ≤ 255 := by
      intro items hitems
      obtain ⟨values, hparse⟩ := haccepts.mpr ⟨items, hitems⟩
      obtain ⟨others, hread⟩ := reads_of_parseField hparse
      exact hitems.steps_le hread
    refine ⟨fun items hread => ?_, hsteps, ?_⟩
    · obtain ⟨values, hparse, -⟩ := parseField_of_reads hread
      obtain ⟨spelled, hspelled⟩ := haccepts.mp ⟨values, hparse⟩
      exact hspelled.chars
    · rintro items hitems item hitem n rfl v hfrom hto
      obtain ⟨values, hparse, -, hmem⟩ := parseField_of_reads (hitems.reads (hsteps items hitems))
      refine (hmem v).mp ((hvalues values items hparse hitems v).mpr ⟨_, hitem, hfrom, hto, ?_⟩)
      simp
  · rintro ⟨hplain, hsteps, hcovered⟩
    refine ⟨⟨fun ⟨values, h⟩ => ?_, fun ⟨items, h⟩ => ?_⟩, fun values items hparse hitems v => ?_⟩
    · obtain ⟨items, hread⟩ := reads_of_parseField h
      exact ⟨items, spellsField_of_reads hread (hplain items hread)⟩
    · obtain ⟨values, hparse, -⟩ := parseField_of_reads (h.reads (hsteps items h))
      exact ⟨values, hparse⟩
    have hread := hitems.reads (hsteps items hitems)
    obtain ⟨values', hparse', -, hmem⟩ := parseField_of_reads hread
    obtain rfl := Except.ok.inj (hparse.symm.trans hparse')
    rw [hmem]
    constructor
    · rintro ⟨item, hitem, htaken⟩
      obtain ⟨text, hreads⟩ := hread.exists_reads hitem
      exact ⟨item, hitem, hreads.denotes_of_taken htaken⟩
    · rintro ⟨item, hitem, hdenotes⟩
      by_cases hone : ∃ n, item.StepOne n
      · obtain ⟨n, hn⟩ := hone
        obtain rfl := hn
        exact hcovered items hitems _ hitem n rfl v hdenotes.1 hdenotes.2.1
      · exact ⟨item, hitem, .inr ⟨not_exists.mp hone, hdenotes⟩⟩

/-! ### Schedules -/

/-- The weekday of a value: `7` is Sunday too. -/
def weekdayOf (value : ℕ) : ℕ := if value = 7 then 0 else value

theorem parse_eq_ok {expression : String} {schedule : CronSchedule} (h : CronSchedule.parse expression = .ok schedule) :
    ∃ minute hour dayOfMonth month dayOfWeek weekdays,
      Words.words isWhitespace expression.toList = [minute, hour, dayOfMonth, month, dayOfWeek] ∧
        parseField .minute minute = .ok schedule.minutes ∧ parseField .hour hour = .ok schedule.hours ∧
          parseField .dayOfMonth dayOfMonth = .ok schedule.days ∧ parseField .month month = .ok schedule.months ∧
            parseField .dayOfWeek dayOfWeek = .ok weekdays ∧
              schedule.weekdays = (sortBy id (weekdays.map weekdayOf)).destutter (· ≠ ·) ∧
              schedule.dayWildcard = (trimmed dayOfMonth = ['*'] : Bool) ∧
                schedule.weekdayWildcard = (trimmed dayOfWeek = ['*'] : Bool) := by
  rw [CronSchedule.parse] at h
  split at h
  next minute hour dayOfMonth month dayOfWeek hwords =>
    rcases hminutes : parseField .minute minute with err | minutes
    · simp only [hminutes] at h
      cases h
    rcases hhours : parseField .hour hour with err | hours
    · simp only [hminutes, hhours] at h
      cases h
    rcases hdays : parseField .dayOfMonth dayOfMonth with err | days
    · simp only [hminutes, hhours, hdays] at h
      cases h
    rcases hmonths : parseField .month month with err | months
    · simp only [hminutes, hhours, hdays, hmonths] at h
      cases h
    rcases hweekdays : parseField .dayOfWeek dayOfWeek with err | weekdays
    · simp only [hminutes, hhours, hdays, hmonths, hweekdays] at h
      cases h
    simp only [hminutes, hhours, hdays, hmonths, hweekdays] at h
    cases h
    exact ⟨minute, hour, dayOfMonth, month, dayOfWeek, weekdays, hwords, hminutes, hhours, hdays, hmonths, hweekdays,
      rfl, rfl, rfl⟩
  next => cases h

/-- **Fields and schedules**: a field is read right just when it is regular, and the weekdays of a
schedule are those of its values. -/
theorem parse_right_iff (f : Field) (field : List Char) :
    (Right f field ↔ Regular f field) ∧
      ∀ expression schedule, CronSchedule.parse expression = .ok schedule →
        ∃ minute hour dayOfMonth month dayOfWeek values,
          Words.words isWhitespace expression.toList = [minute, hour, dayOfMonth, month, dayOfWeek] ∧
            parseField .dayOfWeek dayOfWeek = .ok values ∧
              ∀ v, v ∈ schedule.weekdays ↔ ∃ value ∈ values, v = if value = 7 then 0 else value := by
  refine ⟨right_iff f field, fun expression schedule h => ?_⟩
  obtain ⟨minute, hour, dayOfMonth, month, dayOfWeek, values, hwords, -, -, -, -, hvalues,
    hweekdays, -⟩ := parse_eq_ok h
  refine ⟨minute, hour, dayOfMonth, month, dayOfWeek, values, hwords, hvalues, fun v => ?_⟩
  rw [hweekdays, mem_destutter_ne, mem_sortBy, List.mem_map]
  simp only [weekdayOf, eq_comm]

/-- The field `5/1` of minutes is taken for the minute 5 alone. -/
theorem minutes_from_five : ¬ Right .minute "5/1".toList := by
  rintro ⟨-, hvalues⟩
  have hspells : SpellsField .minute "5/1".toList [⟨.single 5, some 1⟩] := by
    have hbase : SpellsBase .minute ['5'] (.single 5) := .single (.inl ⟨by decide, by decide, by decide, by decide⟩)
    have hitem : SpellsItem .minute (['5'] ++ '/' :: ['1']) ⟨.single 5, some 1⟩ := .step hbase (by decide) (by decide)
    exact spellsField_iff.mpr (.cons hitem .nil)
  obtain ⟨values, hparse, -, hmem⟩ := parseField_of_reads (hspells.reads (by decide))
  have hsix : 6 ∈ values := by
    refine (hvalues values _ hparse hspells 6).mpr ⟨_, List.mem_cons_self, ?_⟩
    exact ⟨by decide, by decide, by decide⟩
  obtain ⟨item, hitem, htaken⟩ := (hmem 6).mp hsix
  obtain rfl := List.mem_singleton.mp hitem
  rcases htaken with hone | ⟨hnone, -⟩
  · exact absurd (show (⟨.single 5, some 1⟩ : Item) = ⟨.single 6, some 1⟩ from hone) (by decide)
  · exact hnone 5 rfl

end Omnion.Workflows.Cron
