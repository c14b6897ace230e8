import Mathlib.Algebra.Order.Ring.Abs
import Mathlib.Data.Rat.Floor
import Omnion.Core.Json
import Omnion.Core.Text
import Omnion.Library.Fallible
import Omnion.Library.Keyed
import Omnion.Library.Table

/-!
# The threshold policy

`Threshold::new`, `parse_thresholds`, `save_settings`, `parsed_thresholds` and `thresholds` of
`crates/health/src/incidents.rs`, with the tables `health_settings` (`0188`) and `health_thresholds` (`0190`, `0191`).

A policy is kept twice: as the document of the settings row, by the keys it was written with, and as rows, by the names
in the thresholds. A key is trimmed to a name.

## The model

Limits are exact rationals. How the code prints one in a message is a parameter (`display`). A row that a constraint of
its table refuses is refused here, and with it the transaction; text and JSON columns hold no NUL character.

## What is proved

* `saveSettings_kept_iff` — a policy that was read is stored, and read the same from the document and from the rows,
  just when no key of it has blanks at its ends or a NUL character, and no limit is at the bound.

## Honest scope

Emptying `health_thresholds` also empties `health_breaches`, which is not modelled here. A document is not too large for
its column.
-/

namespace Omnion.Health.Settings

open Std (TreeMap)

/-- What can go wrong. -/
inductive HealthError where
  | database
  /-- The caller sent something the platform will not store. -/
  | invalid (message : String)
  deriving DecidableEq

/-! ### Thresholds -/

/-- One metric's warn/critical pair. -/
structure Threshold where
  metric : String
  warn : ℚ
  crit : ℚ
  /-- `above` or `below`. -/
  direction : String
  deriving DecidableEq

/-- The threshold document, keyed by metric. -/
abbrev Thresholds := TreeMap String Threshold

/-- The upper bound on a value's magnitude. -/
def MAX_ABS_VALUE : ℚ := 1000000000000000

/-- A numeric value within the bound. -/
def isFinite (value : ℚ) : Prop := |value| ≤ MAX_ABS_VALUE

instance (value : ℚ) : Decidable (isFinite value) := inferInstanceAs (Decidable (_ ≤ _))

/-- A `below` pair runs downward, any other upward. -/
def ordered (direction : String) (warn crit : ℚ) : Prop := if direction = "below" then crit < warn else warn < crit

instance (direction : String) (warn crit : ℚ) : Decidable (ordered direction warn crit) :=
  inferInstanceAs (Decidable (if direction = "below" then crit < warn else warn < crit))

/-- Build a pair, refusing what the migration refuses. -/
def Threshold.new (display : ℚ → String) (metric : String) (warn crit : ℚ) (direction : String) :
    Except HealthError Threshold :=
  let metric := Text.trim metric
  if metric = "" ∨ 64 < metric.length then
    .error (.invalid "a threshold needs a metric name of 1 to 64 characters")
  else if ¬ isFinite warn ∨ ¬ isFinite crit then
    .error (.invalid (metric ++ ": the limits must be real numbers"))
  else if warn < 0 ∨ crit < 0 then
    .error (.invalid (metric ++ ": limits cannot be negative — a negative threshold is crossed at zero"))
  else if ¬ ordered direction warn crit then
    .error (.invalid (metric ++ ": the warn limit (" ++ display warn ++ ") must be " ++
      (if direction = "below" then "above" else "below") ++ " the critical limit (" ++ display crit ++ ") for a `" ++
      direction ++ "` threshold"))
  else if direction ≠ "above" ∧ direction ≠ "below" then
    .error (.invalid (metric ++ ": direction must be `above` or `below`"))
  else .ok { metric, warn, crit, direction }

/-! ### Documents -/

def readLimit (metric : String) (pair : Json) (key : String) : Except HealthError ℚ :=
  match pair.get key with
  | none => .error (.invalid (metric ++ ": the " ++ key ++ " limit is missing"))
  | some raw =>
    match raw.asF64 with
    | none => .error (.invalid (metric ++ ": the " ++ key ++ " limit must be a number"))
    | some value => .ok value

/-- A key of the document and its pair. -/
def parsePair (display : ℚ → String) (field : String × Json) : Except HealthError Threshold :=
  match field.2 with
  | .object pair => do
    let warn ← readLimit field.1 (.object pair) "warn"
    let crit ← readLimit field.1 (.object pair) "crit"
    let direction := (((Json.object pair).get "direction").bind Json.asStr).getD "above"
    Threshold.new display field.1 warn crit direction
  | _ => .error (.invalid (field.1 ++ ": the limits must be an object"))

/-- Parse a threshold document, refusing anything the store would refuse. -/
def parseThresholds (display : ℚ → String) : Json → Except HealthError Thresholds
  | .object fields => Keyed.readAll Prod.fst (parsePair display) fields
  | .null => .ok ∅
  | _ => .error (.invalid "the thresholds must be an object keyed by metric")

/-- A pair as JSON, without its metric. -/
def Threshold.toValue (threshold : Threshold) : Json :=
  .object [("crit", .number (.float threshold.crit)), ("direction", .string threshold.direction),
    ("warn", .number (.float threshold.warn))]

/-- A policy as JSON. -/
def toValue (map : Thresholds) : Json := .object (map.toList.map fun entry => (entry.1, entry.2.toValue))

/-! ### Rows -/

/-- A text that a column may hold. -/
def storable (text : String) : Bool := text.toList.all fun c => c.toNat ≠ 0

mutual

/-- A document that a column may hold. -/
def storableJson : Json → Bool
  | .string s => storable s
  | .array items => storableItems items
  | .object fields => storableFields fields
  | _ => true

/-- An array. -/
def storableItems : List Json → Bool
  | [] => true
  | item :: items => storableJson item && storableItems items

/-- An object. -/
def storableFields : List (String × Json) → Bool
  | [] => true
  | (key, value) :: fields => storable key && storableJson value && storableFields fields

end

/-- `jsonb_typeof(…) = 'object'`. -/
def isObject : Json → Bool
  | .object _ => true
  | _ => false

/-- The platform's health policy, as stored. -/
structure HealthSettings where
  checkIntervalSeconds : ℤ
  /-- After how long a silent worker counts as stale. -/
  workerStaleSeconds : ℤ
  thresholds : Json
  notifications : Json
  updatedBy : Option Uuid
  updatedAt : Instant

/-- The bounds of the check interval. -/
def MIN_CHECK_INTERVAL_SECONDS : ℤ := 5

def MAX_CHECK_INTERVAL_SECONDS : ℤ := 600

/-- The bounds of the worker stale window. -/
def MIN_WORKER_STALE_SECONDS : ℤ := 30

def MAX_WORKER_STALE_SECONDS : ℤ := 3600

/-- The interval lies in its bounds. -/
def intervalFits (seconds : ℤ) : Prop := MIN_CHECK_INTERVAL_SECONDS ≤ seconds ∧ seconds ≤ MAX_CHECK_INTERVAL_SECONDS

/-- The stale window does. -/
def staleFits (seconds : ℤ) : Prop := MIN_WORKER_STALE_SECONDS ≤ seconds ∧ seconds ≤ MAX_WORKER_STALE_SECONDS

instance (seconds : ℤ) : Decidable (intervalFits seconds) := inferInstanceAs (Decidable (_ ∧ _))

instance (seconds : ℤ) : Decidable (staleFits seconds) := inferInstanceAs (Decidable (_ ∧ _))

/-- The constraints of `health_settings`, but for the reference to a user. -/
def HealthSettings.Checked (settings : HealthSettings) : Prop :=
  intervalFits settings.checkIntervalSeconds ∧ staleFits settings.workerStaleSeconds ∧
    (isObject settings.thresholds = true ∧ storableJson settings.thresholds = true) ∧
    isObject settings.notifications = true ∧ storableJson settings.notifications = true

instance (settings : HealthSettings) : Decidable settings.Checked :=
    inferInstanceAs (Decidable (_ ∧ _ ∧ (_ ∧ _) ∧ _ ∧ _))

/-- `btrim`. -/
def btrim (s : String) : String := String.ofList ((s.toList.dropWhile (· = ' ')).rdropWhile (· = ' '))

/-- The constraints of `health_thresholds`, but for the key and the reference to a user. -/
def Threshold.Checked (threshold : Threshold) : Prop :=
  (threshold.direction = "above" ∨ threshold.direction = "below") ∧
    (threshold.direction = "above" ∧ threshold.warn < threshold.crit ∨
      threshold.direction = "below" ∧ threshold.crit < threshold.warn) ∧
    (0 ≤ threshold.warn ∧ threshold.warn < 1000000000000000) ∧
    (0 ≤ threshold.crit ∧ threshold.crit < 1000000000000000) ∧
    (1 ≤ (btrim threshold.metric).length ∧ (btrim threshold.metric).length ≤ 64) ∧ storable threshold.metric = true

instance (threshold : Threshold) : Decidable threshold.Checked :=
  inferInstanceAs (Decidable (_ ∧ _ ∧ (_ ∧ _) ∧ (_ ∧ _) ∧ (_ ∧ _) ∧ _))

/-- A row of `health_thresholds`. -/
structure ThresholdRow where
  threshold : Threshold
  updatedBy : Option Uuid
  updatedAt : Instant
  checked : threshold.Checked

/-- The rows of `health_thresholds`. -/
abbrev ThresholdRows := Table ThresholdRow fun row => row.threshold.metric

structure Store where
  users : List Uuid
  /-- The row of `health_settings`. -/
  settings : Option {settings : HealthSettings // settings.Checked}
  thresholds : ThresholdRows

/-- A reference to a user. -/
def known (users : List Uuid) (updatedBy : Option Uuid) : Bool := updatedBy.all fun user => user ∈ users

/-! ### Saving -/

/-- What a settings save asks for. -/
structure SettingsUpdate where
  checkIntervalSeconds : Option ℤ := none
  workerStaleSeconds : Option ℤ := none
  thresholds : Option Thresholds := none
  notifications : Option Json := none
  updatedBy : Option Uuid := none

/-- The row a database is created with. -/
def defaultSettings (now : Instant) : {settings : HealthSettings // settings.Checked} :=
  ⟨{ checkIntervalSeconds := 60, workerStaleSeconds := 120, thresholds := .object [], notifications := .object [],
     updatedBy := none, updatedAt := now },
    (by decide : intervalFits 60), (by decide : staleFits 120), ⟨rfl, rfl⟩, rfl, rfl⟩

/-- The settings row, creating it if a database somehow has none. -/
def loadSettings (store : Store) (now : Instant) : {settings : HealthSettings // settings.Checked} × Store :=
  match store.settings with
  | some row => (row, store)
  | none => (defaultSettings now, { store with settings := some (defaultSettings now) })

def insertThreshold (users : List Uuid) (updatedBy : Option Uuid) (now : Instant) (rows : ThresholdRows)
    (threshold : Threshold) : Except HealthError ThresholdRows :=
  if h : threshold.Checked then
    if known users updatedBy then
      match rows.insert? { threshold, updatedBy, updatedAt := now, checked := h } with
      | some rows => .ok rows
      | none => .error .database
    else .error .database
  else .error .database

/-- Write the settings row, and rewrite the thresholds when there are new ones. -/
def writeSettings (store : Store) (row : HealthSettings) (map : Option Thresholds) (now : Instant) :
    Except HealthError Store :=
  if h : row.Checked then
    if known store.users row.updatedBy then
      match map with
      | some map => do
        let rows ← (map.toList.map Prod.snd).foldlM (insertThreshold store.users row.updatedBy now) Table.empty
        return { store with settings := some ⟨row, h⟩, thresholds := rows }
      | none => .ok { store with settings := some ⟨row, h⟩ }
    else .error .database
  else .error .database

/-- The policy of an update, through the parser. -/
def reparse (display : ℚ → String) (map : Option Thresholds) : Except HealthError Unit :=
  match map with
  | some map => (fun _ => ()) <$> parseThresholds display (toValue map)
  | none => .ok ()

/-- The row a save writes. -/
def SettingsUpdate.row (update : SettingsUpdate) (current : HealthSettings) (now : Instant) : HealthSettings where
  checkIntervalSeconds := update.checkIntervalSeconds.getD current.checkIntervalSeconds
  workerStaleSeconds := update.workerStaleSeconds.getD current.workerStaleSeconds
  thresholds := (update.thresholds.map toValue).getD current.thresholds
  notifications := update.notifications.getD current.notifications
  updatedBy := update.updatedBy
  updatedAt := now

/-- Save the policy, folding onto whatever the row already holds. -/
def saveSettings (display : ℚ → String) (now : Instant) (store : Store) (update : SettingsUpdate) :
    Except HealthError HealthSettings × Store :=
  let (current, store) := loadSettings store now
  let row := update.row current now
  if ¬ intervalFits row.checkIntervalSeconds then
    (.error (.invalid ("the check interval must be between " ++ toString MIN_CHECK_INTERVAL_SECONDS ++ " and " ++
      toString MAX_CHECK_INTERVAL_SECONDS ++ " seconds")), store)
  else if ¬ staleFits row.workerStaleSeconds then
    (.error (.invalid ("a worker counts as stale after between " ++ toString MIN_WORKER_STALE_SECONDS ++ " and " ++
      toString MAX_WORKER_STALE_SECONDS ++ " seconds")), store)
  else
    match reparse display update.thresholds with
    | .error error => (.error error, store)
    | .ok () =>
      match writeSettings store row update.thresholds now with
      | .ok written => (.ok row, written)
      | .error error => (.error error, store)

/-! ### Reading -/

/-- The stored thresholds, parsed; a malformed document yields none. -/
def HealthSettings.parsedThresholds (display : ℚ → String) (settings : HealthSettings) : Thresholds :=
  match parseThresholds display settings.thresholds with
  | .ok map => map
  | .error _ => ∅

/-- The rows, by their metrics. -/
def thresholds (display : ℚ → String) (store : Store) : Except HealthError Thresholds :=
  Keyed.readAll Threshold.metric
    (fun threshold => Threshold.new display threshold.metric threshold.warn threshold.crit threshold.direction)
    ((store.thresholds.rows.map ThresholdRow.threshold).mergeSort fun a b => a.metric ≤ b.metric)

/-! ### A pair is built -/

variable {display : ℚ → String} {metric direction key : String} {warn crit : ℚ} {t : Threshold} {map : Thresholds}

/-- What is asked of a pair with a trimmed name. -/
structure Threshold.Sound (t : Threshold) : Prop where
  trimmed : Text.trim t.metric = t.metric
  named : t.metric ≠ "" ∧ t.metric.length ≤ 64
  finite : isFinite t.warn ∧ isFinite t.crit
  nonneg : 0 ≤ t.warn ∧ 0 ≤ t.crit
  ordered : Settings.ordered t.direction t.warn t.crit
  direction : t.direction = "above" ∨ t.direction = "below"

/-- **A pair is built** just when it is sound, with the name trimmed. -/
theorem new_eq_ok : Threshold.new display metric warn crit direction = .ok t ↔
    t = ⟨Text.trim metric, warn, crit, direction⟩ ∧ t.Sound := by
  unfold Threshold.new
  dsimp only
  constructor
  · intro h
    split_ifs at h with hnamed hfinite hnonneg hordered hdirection
    cases h
    rw [not_or] at hnamed hfinite hnonneg
    refine ⟨rfl, Text.trim_trim metric, ⟨hnamed.1, not_lt.mp hnamed.2⟩, ⟨not_not.mp hfinite.1, not_not.mp hfinite.2⟩,
      ⟨not_lt.mp hnonneg.1, not_lt.mp hnonneg.2⟩, hordered, ?_⟩
    rwa [not_and_or, not_not, not_not] at hdirection
  · rintro ⟨rfl, -, hnamed, hfinite, hnonneg, hordered, hdirection⟩
    dsimp only at hnamed hfinite hnonneg hordered hdirection
    have hname : ¬ (Text.trim metric = "" ∨ 64 < (Text.trim metric).length) := not_or.mpr ⟨hnamed.1, hnamed.2.not_gt⟩
    have hbound : ¬ (¬ isFinite warn ∨ ¬ isFinite crit) := not_or.mpr (hfinite.imp not_not.mpr not_not.mpr)
    have hsign : ¬ (warn < 0 ∨ crit < 0) := not_or.mpr (hnonneg.imp not_lt.mpr not_lt.mpr)
    have hword : ¬ (direction ≠ "above" ∧ direction ≠ "below") :=
      not_and_or.mpr (hdirection.imp not_not.mpr not_not.mpr)
    rw [if_neg hname, if_neg hbound, if_neg hsign, if_neg (not_not.mpr hordered), if_neg hword]

/-- A pair that was built is built again, from its name or from a key that is trimmed to it. -/
theorem new_of_sound (h : t.Sound) (hkey : Text.trim key = t.metric) :
    Threshold.new display key t.warn t.crit t.direction = .ok t :=
  new_eq_ok.mpr ⟨by rw [hkey], h⟩

theorem btrim_of_trim {s : String} (h : Text.trim s = s) : btrim s = s := by
  have hblank : ∀ c : Char, decide (c = ' ') = true → Text.isWhitespace c = true := by
    intro c hc
    rw [of_decide_eq_true hc]
    decide
  rw [← String.ofList_toList (s := s), Text.trim_eq_self_iff] at h
  obtain ⟨hleft, hright⟩ := h
  rw [btrim, List.dropWhile_eq_self_iff.mpr, List.rdropWhile_eq_self_iff.mpr, String.ofList_toList]
  · intro hne hc
    exact List.rdropWhile_eq_self_iff.mp hright hne (hblank _ hc)
  · intro hlength hc
    exact List.dropWhile_eq_self_iff.mp hleft hlength (hblank _ hc)

/-- **A pair that was built may be stored** just when its limits are below the bound and its name has no NUL. -/
theorem checked_iff (h : t.Sound) : t.Checked ↔
    t.warn < MAX_ABS_VALUE ∧ t.crit < MAX_ABS_VALUE ∧ storable t.metric = true := by
  have hlength : 1 ≤ (btrim t.metric).length ∧ (btrim t.metric).length ≤ 64 := by
    rw [btrim_of_trim h.trimmed]
    exact ⟨Nat.one_le_iff_ne_zero.mpr (by simpa using h.named.1), h.named.2⟩
  have hordered : t.direction = "above" ∧ t.warn < t.crit ∨ t.direction = "below" ∧ t.crit < t.warn := by
    have hpair := h.ordered
    unfold Settings.ordered at hpair
    split_ifs at hpair with hbelow
    · exact .inr ⟨hbelow, hpair⟩
    · exact .inl ⟨h.direction.resolve_right hbelow, hpair⟩
  constructor
  · rintro ⟨-, -, hwarn, hcrit, -, hstorable⟩
    exact ⟨hwarn.2, hcrit.2, hstorable⟩
  · rintro ⟨hwarn, hcrit, hstorable⟩
    exact ⟨h.direction, hordered, ⟨h.nonneg.1, hwarn⟩, ⟨h.nonneg.2, hcrit⟩, hlength, hstorable⟩

/-! ### Documents are read -/

theorem sound_of_parsePair {field : String × Json} (h : parsePair display field = .ok t) :
    t.Sound ∧ t.metric = Text.trim field.1 := by
  unfold parsePair at h
  split at h
  · rename_i pair _
    obtain ⟨warn, -, h⟩ := Fallible.bind_eq_ok.mp h
    obtain ⟨crit, -, h⟩ := Fallible.bind_eq_ok.mp h
    obtain ⟨ht, hsound⟩ := new_eq_ok.mp h
    exact ⟨hsound, by rw [ht]⟩
  · cases h

/-- What a document is read as: sound pairs, each with the trimmed key. -/
def Read (map : Thresholds) : Prop := ∀ (key : String) (t : Threshold), map[key]? = some t →
  t.Sound ∧ t.metric = Text.trim key

theorem read_of_parse {document : Json} (h : parseThresholds display document = .ok map) : Read map := by
  intro key t hkey
  unfold parseThresholds at h
  split at h
  · obtain ⟨field, -, rfl, hread⟩ := Keyed.read_of_readAll h hkey
    exact sound_of_parsePair hread
  · cases h
    simp at hkey
  · cases h

theorem parsePair_toValue (h : t.Sound) (hkey : t.metric = Text.trim key) :
    parsePair display (key, t.toValue) = .ok t := by
  have hwarn : readLimit key t.toValue "warn" = .ok t.warn := rfl
  have hcrit : readLimit key t.toValue "crit" = .ok t.crit := rfl
  have hdirection : ((t.toValue.get "direction").bind Json.asStr).getD "above" = t.direction := rfl
  rw [Threshold.toValue] at hwarn hcrit hdirection ⊢
  simp only [parsePair, hwarn, hcrit, hdirection, bind, Except.bind]
  exact new_of_sound h hkey.symm

/-- **The document of a policy is read as the policy.** -/
theorem parse_toValue (display : ℚ → String) (h : Read map) :
    ∃ map' : Thresholds, parseThresholds display (toValue map) = .ok map' ∧ map'.toList = map.toList := by
  refine ⟨Keyed.ofAll Prod.fst Prod.snd map.toList, ?_, Keyed.toList_ofAll_entries (.refl _)⟩
  rw [toValue, parseThresholds, Keyed.readAll_map]
  refine Keyed.readAll_of_read fun entry hentry => ?_
  obtain ⟨hsound, hmetric⟩ := h entry.1 entry.2 (TreeMap.mem_toList_iff_getElem?_eq_some.mp hentry)
  exact parsePair_toValue hsound hmetric

theorem Read.entry (h : Read map) {entry : String × Threshold} (hentry : entry ∈ map.toList) :
    entry.2.Sound ∧ entry.2.metric = Text.trim entry.1 :=
  h entry.1 entry.2 (TreeMap.mem_toList_iff_getElem?_eq_some.mp hentry)

theorem storableJson_toValue (h : Read map) :
    storableJson (toValue map) = true ↔ ∀ entry ∈ map.toList, storable entry.1 = true := by
  have hpair : ∀ t : Threshold, t.Sound → storableJson t.toValue = true := by
    intro t ht
    have hkeys : storable "crit" = true ∧ storable "direction" = true ∧ storable "warn" = true := by decide
    have hword : storable t.direction = true := by
      rcases ht.direction with hword | hword <;> rw [hword] <;> decide
    simp [Threshold.toValue, storableJson, storableFields, hkeys, hword]
  have hfields : ∀ l : List (String × Threshold), (∀ entry ∈ l, entry.2.Sound) →
      (storableFields (l.map fun entry => (entry.1, entry.2.toValue)) = true ↔
        ∀ entry ∈ l, storable entry.1 = true) := by
    intro l
    induction l with
    | nil => simp [storableFields]
    | cons entry l ih =>
      intro hl
      rw [List.forall_mem_cons] at hl
      simp [storableFields, hpair entry.2 hl.1, ih hl.2]
  rw [toValue, storableJson]
  exact hfields _ fun entry hentry => (h.entry hentry).1

/-! ### Rows are written -/

variable {users : List Uuid} {updatedBy : Option Uuid} {now : Instant} {rows rows' : ThresholdRows}
variable {ts : List Threshold}

theorem insertThreshold_eq_ok (h : insertThreshold users updatedBy now rows t = .ok rows') :
    t.Checked ∧ rows'.rows.map ThresholdRow.threshold = rows.rows.map ThresholdRow.threshold ++ [t] := by
  unfold insertThreshold at h
  split_ifs at h with hchecked hknown
  split at h
  · rename_i written hinsert
    cases h
    rw [(Table.insert?_eq_some hinsert).2, List.map_append]
    exact ⟨hchecked, rfl⟩
  · cases h

theorem insertThreshold_of_checked (hchecked : t.Checked) (hknown : known users updatedBy = true)
    (hnew : t.metric ∉ rows.rows.map fun row => row.threshold.metric) :
    ∃ rows', insertThreshold users updatedBy now rows t = .ok rows' := by
  simp only [insertThreshold, dif_pos hchecked, if_pos hknown, Table.insert?, dif_neg hnew]
  exact ⟨_, rfl⟩

/-- **What is written**: the thresholds, each of which the table allows. -/
theorem insertAll_eq_ok (h : ts.foldlM (insertThreshold users updatedBy now) rows = .ok rows') :
    (∀ t ∈ ts, t.Checked) ∧
      rows'.rows.map ThresholdRow.threshold = rows.rows.map ThresholdRow.threshold ++ ts := by
  induction ts generalizing rows with
  | nil =>
    cases h
    simp
  | cons t ts ih =>
    rw [List.foldlM_cons] at h
    obtain ⟨next, hinsert, h⟩ := Fallible.bind_eq_ok.mp h
    obtain ⟨hchecked, hrow⟩ := insertThreshold_eq_ok hinsert
    obtain ⟨hrest, hrows⟩ := ih h
    rw [List.forall_mem_cons, hrows, hrow, List.append_assoc]
    exact ⟨⟨hchecked, hrest⟩, rfl⟩

theorem insertAll_of_checked (rows : ThresholdRows) (now : Instant) (hchecked : ∀ t ∈ ts, t.Checked)
    (hknown : known users updatedBy = true)
    (hnodup : (rows.rows.map (fun row => row.threshold.metric) ++ ts.map Threshold.metric).Nodup) :
    ∃ rows', ts.foldlM (insertThreshold users updatedBy now) rows = .ok rows' := by
  induction ts generalizing rows with
  | nil => exact ⟨rows, rfl⟩
  | cons t ts ih =>
    rw [List.forall_mem_cons] at hchecked
    have hnew : t.metric ∉ rows.rows.map fun row => row.threshold.metric := by
      intro hmem
      exact (List.disjoint_of_nodup_append hnodup) hmem (by simp)
    obtain ⟨next, hnext⟩ : ∃ next, insertThreshold users updatedBy now rows t = .ok next :=
      insertThreshold_of_checked hchecked.1 hknown hnew
    have hrow := congrArg (List.map Threshold.metric) (insertThreshold_eq_ok hnext).2
    rw [List.map_append, List.map_map, List.map_map] at hrow
    rw [List.foldlM_cons, hnext]
    refine ih _ hchecked.2 ?_
    have hsame : (next.rows.map fun row => row.threshold.metric) =
        (rows.rows.map fun row => row.threshold.metric) ++ [t.metric] := hrow
    rw [hsame, List.append_assoc]
    exact hnodup

/-! ### A save -/

variable {store : Store} {update : SettingsUpdate}

/-- The rest of an update is in order: its intervals, its toggles, and who made it. -/
structure SettingsUpdate.Fits (update : SettingsUpdate) (store : Store) : Prop where
  interval : ∀ seconds ∈ update.checkIntervalSeconds, intervalFits seconds
  stale : ∀ seconds ∈ update.workerStaleSeconds, staleFits seconds
  notifications : ∀ toggles ∈ update.notifications, isObject toggles = true ∧ storableJson toggles = true
  user : known store.users update.updatedBy = true

theorem fits_thresholds (map : Thresholds) (store : Store) : SettingsUpdate.Fits { thresholds := some map } store := by
  constructor <;> simp [known]

/-- **A save of a policy is kept**: it succeeds, so that its rows meet the constraints of their table; the rows and the
document are read as the same map; and no two keys have become one metric. -/
structure Kept (display : ℚ → String) (now : Instant) (store : Store) (update : SettingsUpdate) (map : Thresholds) :
    Prop where
  same : ∃ settings store' fromRows, saveSettings display now store update = (.ok settings, store') ∧
    thresholds display store' = .ok fromRows ∧ fromRows.toList = (settings.parsedThresholds display).toList
  apart : ∀ (key key' : String) (t t' : Threshold), map[key]? = some t → map[key']? = some t' →
    t.metric = t'.metric → key = key'

theorem SettingsUpdate.Fits.row (hfits : update.Fits store) {current : HealthSettings} (hcurrent : current.Checked)
    (now : Instant) : intervalFits (update.row current now).checkIntervalSeconds ∧
      staleFits (update.row current now).workerStaleSeconds ∧
      isObject (update.row current now).notifications = true ∧
      storableJson (update.row current now).notifications = true := by
  obtain ⟨hinterval, hstale, -, htoggles⟩ := hcurrent
  have hkeep : ∀ {α : Type} {p : α → Prop} {o : Option α} {a : α}, (∀ b ∈ o, p b) → p a → p (o.getD a) := by
    intro α p o a ho ha
    cases o with
    | none => exact ha
    | some b => exact ho b rfl
  exact ⟨hkeep (p := intervalFits) hfits.interval hinterval, hkeep (p := staleFits) hfits.stale hstale,
    hkeep (p := fun toggles => isObject toggles = true ∧ storableJson toggles = true) hfits.notifications htoggles⟩

/-- The row that a fitting update writes is allowed when the keys of the policy are. -/
theorem row_checked (now : Instant) (hfits : update.Fits store) (hmap : update.thresholds = some map) (hread : Read map)
    {current : HealthSettings} (hcurrent : current.Checked) : (update.row current now).Checked ↔
      ∀ entry ∈ map.toList, storable entry.1 = true := by
  have hdocument : (update.row current now).thresholds = toValue map := by simp [SettingsUpdate.row, hmap]
  obtain ⟨hinterval, hstale, htoggles⟩ := hfits.row hcurrent now
  rw [HealthSettings.Checked, hdocument, storableJson_toValue hread]
  constructor
  · exact fun h => h.2.2.1.2
  · exact fun h => ⟨hinterval, hstale, ⟨rfl, h⟩, htoggles⟩

theorem saveSettings_of_fits (display : ℚ → String) (now : Instant) (hfits : update.Fits store)
    (hmap : update.thresholds = some map) (hread : Read map) :
    ∃ (current : {settings : HealthSettings // settings.Checked}) (loaded : Store), loaded.users = store.users ∧
      saveSettings display now store update =
        match writeSettings loaded (update.row current.1 now) (some map) now with
        | .ok written => (.ok (update.row current.1 now), written)
        | .error error => (.error error, loaded) := by
  refine ⟨(loadSettings store now).1, (loadSettings store now).2, ?_, ?_⟩
  · unfold loadSettings
    split <;> rfl
  · obtain ⟨hinterval, hstale, -⟩ := hfits.row (loadSettings store now).1.2 now
    obtain ⟨map', hparse, -⟩ := parse_toValue display hread
    have hagain : reparse display update.thresholds = .ok () := by
      rw [hmap, reparse, hparse]
      rfl
    simp only [saveSettings]
    rw [if_neg (not_not.mpr hinterval), if_neg (not_not.mpr hstale), hagain, hmap]

theorem writeSettings_eq_ok {row : HealthSettings} {written : Store}
    (h : writeSettings store row (some map) now = .ok written) : row.Checked ∧
      (∀ entry ∈ map.toList, entry.2.Checked) ∧
      written.thresholds.rows.map ThresholdRow.threshold = map.toList.map Prod.snd := by
  unfold writeSettings at h
  split_ifs at h with hchecked hknown
  dsimp only at h
  obtain ⟨rows, hrows, h⟩ := Fallible.bind_eq_ok.mp h
  cases h
  obtain ⟨hall, hwritten⟩ := insertAll_eq_ok hrows
  exact ⟨hchecked, fun entry hentry => hall _ (List.mem_map_of_mem hentry), hwritten⟩

theorem writeSettings_of_checked (store : Store) (now : Instant) {row : HealthSettings} (hchecked : row.Checked)
    (hknown : known store.users row.updatedBy = true) (hall : ∀ entry ∈ map.toList, entry.2.Checked)
    (hnodup : (map.toList.map fun entry => entry.2.metric).Nodup) :
    ∃ written, writeSettings store row (some map) now = .ok written := by
  have hts : ∀ t ∈ map.toList.map Prod.snd, t.Checked := by
    intro t ht
    obtain ⟨entry, hentry, rfl⟩ := List.mem_map.mp ht
    exact hall entry hentry
  obtain ⟨rows, hrows⟩ := insertAll_of_checked Table.empty now hts hknown
    (by simpa [Table.empty, List.map_map, Function.comp_def] using hnodup)
  refine ⟨{ store with settings := some ⟨row, hchecked⟩, thresholds := rows }, ?_⟩
  rw [writeSettings, dif_pos hchecked, if_pos hknown]
  dsimp only
  rw [hrows]
  rfl

/-- What a policy is to be, to be kept. -/
def Keepable (map : Thresholds) : Prop := ∀ entry ∈ map.toList,
  (Text.trim entry.1 = entry.1 ∧ storable entry.1 = true) ∧ entry.2.warn < MAX_ABS_VALUE ∧ entry.2.crit < MAX_ABS_VALUE

theorem kept_of_keepable (hfits : update.Fits store) (hmap : update.thresholds = some map) (hread : Read map)
    (h : Keepable map) : Kept display now store update map := by
  obtain ⟨current, loaded, husers, hsave⟩ := saveSettings_of_fits display now hfits hmap hread
  -- A name is its key.
  have hname : ∀ entry ∈ map.toList, entry.2.metric = entry.1 := fun entry hentry => by
    rw [(hread.entry hentry).2, (h entry hentry).1.1]
  have hnames : (map.toList.map fun entry => entry.2.metric) = map.toList.map Prod.fst := List.map_congr_left hname
  have hchecked : ∀ entry ∈ map.toList, entry.2.Checked := by
    intro entry hentry
    obtain ⟨⟨-, hstorable⟩, hwarn, hcrit⟩ := h entry hentry
    exact (checked_iff (hread.entry hentry).1).mpr ⟨hwarn, hcrit, hname entry hentry ▸ hstorable⟩
  have hrow := (row_checked now hfits hmap hread current.2).mpr fun entry hentry => (h entry hentry).1.2
  obtain ⟨written, hwritten⟩ := writeSettings_of_checked loaded now hrow
    (husers.symm ▸ hfits.user) hchecked (hnames ▸ Keyed.nodup_keys map)
  rw [hwritten] at hsave
  refine ⟨⟨_, written, Keyed.ofAll Threshold.metric id
    ((map.toList.map Prod.snd).mergeSort fun a b => a.metric ≤ b.metric), hsave, ?_, ?_⟩, ?_⟩
  · rw [thresholds, (writeSettings_eq_ok hwritten).2.2]
    refine Keyed.readAll_of_read fun t ht => ?_
    obtain ⟨entry, hentry, rfl⟩ := List.mem_map.mp ((List.mergeSort_perm _ _).mem_iff.mp ht)
    have hsound := (hread.entry hentry).1
    exact new_of_sound hsound hsound.trimmed
  · obtain ⟨map', hparse, hsame⟩ := parse_toValue display hread
    have hdocument : (update.row current.1 now).thresholds = toValue map := by simp [SettingsUpdate.row, hmap]
    rw [HealthSettings.parsedThresholds, hdocument, hparse]
    dsimp only
    rw [hsame]
    refine Keyed.toList_ofAll ?_ fun key t => ?_
    · rw [((List.mergeSort_perm _ _).map _).nodup_iff, List.map_map]
      exact hnames ▸ Keyed.nodup_keys map
    · rw [← TreeMap.mem_toList_iff_getElem?_eq_some]
      constructor
      · intro hentry
        exact ⟨t, (List.mergeSort_perm _ _).mem_iff.mpr (List.mem_map.mpr ⟨(key, t), hentry, rfl⟩),
          hname (key, t) hentry, rfl⟩
      · rintro ⟨t', ht', rfl, rfl⟩
        obtain ⟨entry, hentry, rfl⟩ := List.mem_map.mp ((List.mergeSort_perm _ _).mem_iff.mp ht')
        rw [id, hname entry hentry]
        exact hentry
  · intro key key' t t' hkey hkey' hsame
    have hfirst := hname (key, t) (TreeMap.mem_toList_iff_getElem?_eq_some.mpr hkey)
    have hsecond := hname (key', t') (TreeMap.mem_toList_iff_getElem?_eq_some.mpr hkey')
    exact hfirst.symm.trans (hsame.trans hsecond)

theorem keepable_of_kept (hfits : update.Fits store) (hmap : update.thresholds = some map) (hread : Read map)
    (h : Kept display now store update map) : Keepable map := by
  obtain ⟨current, loaded, husers, hsave⟩ := saveSettings_of_fits display now hfits hmap hread
  obtain ⟨⟨settings, store', fromRows, hok, hrows, hsame⟩, -⟩ := h
  rw [hsave] at hok
  cases hwrite : writeSettings loaded (update.row current.1 now) (some map) now with
  | error e =>
    rw [hwrite] at hok
    cases hok
  | ok written =>
    rw [hwrite] at hok
    obtain ⟨hsettings, rfl⟩ := Prod.mk.inj hok
    cases hsettings
    obtain ⟨hrow, hchecked, hwritten⟩ := writeSettings_eq_ok hwrite
    have hstorable := (row_checked now hfits hmap hread current.2).mp hrow
    obtain ⟨map', hparse, hmap'⟩ := parse_toValue display hread
    have hdocument : (update.row current.1 now).thresholds = toValue map := by simp [SettingsUpdate.row, hmap]
    rw [HealthSettings.parsedThresholds, hdocument, hparse] at hsame
    dsimp only at hsame
    rw [hmap'] at hsame
    intro entry hentry
    obtain ⟨hsound, hmetric⟩ := hread.entry hentry
    have hlimits := (checked_iff hsound).mp (hchecked entry hentry)
    refine ⟨⟨?_, hstorable entry hentry⟩, hlimits.1, hlimits.2.1⟩
    -- The key was read from a row, so it is the name of a threshold.
    have hfound : fromRows[entry.1]? = some entry.2 :=
      TreeMap.mem_toList_iff_getElem?_eq_some.mp (hsame ▸ hentry)
    rw [thresholds, hwritten] at hrows
    obtain ⟨t, ht, hkey, -⟩ := Keyed.read_of_readAll hrows hfound
    obtain ⟨entry', hentry', rfl⟩ := List.mem_map.mp ((List.mergeSort_perm _ _).mem_iff.mp ht)
    rw [← hkey]
    exact (hread.entry hentry').1.trimmed

/-- **A policy that was read is kept when it is saved** just when its keys have no blanks at their ends and no NUL
character, and its limits are below the bound. -/
theorem saveSettings_kept_iff (display : ℚ → String) (now : Instant) (store : Store) (document : Json)
    (map : Thresholds) (hparse : parseThresholds display document = .ok map) (update : SettingsUpdate)
    (hmap : update.thresholds = some map) (hfits : update.Fits store) :
    Kept display now store update map ↔ Keepable map := by
  have hread := read_of_parse hparse
  exact ⟨keepable_of_kept hfits hmap hread, kept_of_keepable hfits hmap hread⟩

/-- A warn and a critical limit, as a form sends them. -/
def limits (warn crit : ℚ) : Json := .object [("crit", .number (.float crit)), ("warn", .number (.float warn))]

/-- A database without a user and without a settings row. -/
def freshStore : Store := ⟨[], none, Table.empty⟩

def diskPolicy : Thresholds := (∅ : Thresholds).insert "disk_percent" ⟨"disk_percent", 80, 90, "above"⟩

/-- Disks are to be looked after at 80, and at 90. -/
theorem saveSettings_kept_iff_disk :
    Kept (fun _ => "") 0 freshStore { thresholds := some diskPolicy } diskPolicy ↔ Keepable diskPolicy := by
  have hpair : parsePair (fun _ => "") ("disk_percent", limits 80 90) = .ok ⟨"disk_percent", 80, 90, "above"⟩ := by
    decide +kernel
  have hparse : parseThresholds (fun _ => "") (.object [("disk_percent", limits 80 90)]) = .ok diskPolicy := by
    simp only [parseThresholds, Keyed.readAll, List.foldlM_cons, hpair]
    rfl
  exact saveSettings_kept_iff _ 0 freshStore _ diskPolicy hparse { thresholds := some diskPolicy } rfl
    (fits_thresholds _ _)

/-- **Two keys become one metric**: the document is accepted, and cannot be saved. -/
theorem blank_key_collapses : ¬ ∀ (display : ℚ → String) (now : Instant) (store : Store) (document : Json)
    (map : Thresholds), parseThresholds display document = .ok map → ∀ update : SettingsUpdate,
      update.thresholds = some map → update.Fits store → Kept display now store update map := by
  intro h
  have hblank : parsePair (fun _ => "") (" cpu_percent", limits 70 80) = .ok ⟨"cpu_percent", 70, 80, "above"⟩ := by
    decide +kernel
  have hplain : parsePair (fun _ => "") ("cpu_percent", limits 85 95) = .ok ⟨"cpu_percent", 85, 95, "above"⟩ := by
    decide +kernel
  have hparse : parseThresholds (fun _ => "")
      (.object [(" cpu_percent", limits 70 80), ("cpu_percent", limits 85 95)]) =
        .ok (((∅ : Thresholds).insert " cpu_percent" ⟨"cpu_percent", 70, 80, "above"⟩).insert "cpu_percent"
          ⟨"cpu_percent", 85, 95, "above"⟩) := by
    simp only [parseThresholds, Keyed.readAll, List.foldlM_cons, hblank, hplain]
    rfl
  have hkept := h _ 0 freshStore _ _ hparse { thresholds := some _ } rfl
    (fits_thresholds _ _)
  have hsame := hkept.apart " cpu_percent" "cpu_percent" ⟨"cpu_percent", 70, 80, "above"⟩
    ⟨"cpu_percent", 85, 95, "above"⟩ (by rw [TreeMap.getElem?_insert, if_neg (by decide), TreeMap.getElem?_insert_self])
    (by rw [TreeMap.getElem?_insert_self]) rfl
  exact absurd hsame (by decide)

end Omnion.Health.Settings
