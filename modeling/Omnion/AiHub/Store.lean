import Mathlib.Data.Prod.Lex
import Mathlib.Data.String.Basic
import Omnion.Core.Text
import Omnion.Library.Run
import Omnion.Library.Sorting
import Omnion.Library.Table

/-!
# The default model

`crates/ai-hub/src/store.rs` and the default route of `router.rs`: providers serve models, one of
which answers the requests that name none. Calls that change models or providers repair that
choice in the same transaction.

## The model

Each call is a function of the tables, one transaction after the other. The rows a call is asked
to leave (`withProvider`, `withoutProvider`, `replaced`, `flagged`) are kept apart from the repair.

## What is proved

* `run_sound_iff` — over any run.

## Honest scope

Texts are ordered by code points; how the database puts a name in lower case is a parameter. Of models of one
age and key the one first stored is taken. `updated_at` is left out. A new row's id and time are arguments.
-/

namespace Omnion.AiHub

open Transition

/-! ### Rows -/

/-- Wire protocols an installation can connect. -/
def SUPPORTED_PROTOCOLS : List String := ["openai_compatible"]

/-- Longest provider name. -/
def MAX_NAME_LEN : ℕ := 64

/-- Longest model key. -/
def MAX_MODEL_KEY_LEN : ℕ := 200

/-- Longest base URL. -/
def MAX_BASE_URL_LEN : ℕ := 512

/-- What can go wrong. -/
inductive AiHubError where
  | database
  | providerNotFound
  | providerNameTaken (name : String)
  | modelNotFound
  | noDefaultModel
  | providerDisabled (name : String)
  | invalidProvider (message : String)
  | invalidModel (message : String)

/-- One connected AI provider. -/
structure Provider where
  id : Uuid
  name : String
  protocol : String
  baseUrl : String
  apiKey : Option String
  enabled : Bool
  isDefault : Bool

/-- One model of one provider. -/
structure AiModel where
  id : Uuid
  providerId : Uuid
  modelKey : String
  displayName : Option String
  contextWindow : Option ℤ
  supportsTools : Bool
  supportsVision : Bool
  supportsStreaming : Bool
  supportsEmbeddings : Bool
  enabled : Bool
  isDefault : Bool
  createdAt : Instant

/-- What models are ordered by. -/
def AiModel.age (m : AiModel) : Instant ×ₗ String := toLex (m.createdAt, m.modelKey)

/-- The same model, with or without the mark of the default. -/
def AiModel.withDefault (m : AiModel) (isDefault : Bool) : AiModel := { m with isDefault }

@[simp] theorem AiModel.withDefault_self (m : AiModel) : m.withDefault m.isDefault = m := rfl

@[simp] theorem AiModel.isDefault_withDefault (m : AiModel) (b : Bool) : (m.withDefault b).isDefault = b := rfl

@[simp] theorem AiModel.id_withDefault (m : AiModel) (b : Bool) : (m.withDefault b).id = m.id := rfl

@[simp] theorem AiModel.enabled_withDefault (m : AiModel) (b : Bool) : (m.withDefault b).enabled = m.enabled := rfl

@[simp] theorem AiModel.providerId_withDefault (m : AiModel) (b : Bool) :
    (m.withDefault b).providerId = m.providerId := rfl

/-- A provider to be created. -/
structure NewProvider where
  name : String
  protocol : String
  baseUrl : String
  apiKey : Option String
  enabled : Bool
  isDefault : Bool

/-- What an update does with the stored key. -/
inductive ApiKeyChange where
  | keep
  | set (key : String)
  | clear

structure ProviderChanges where
  name : Option String := none
  baseUrl : Option String := none
  apiKey : ApiKeyChange := .keep
  enabled : Option Bool := none
  isDefault : Option Bool := none

/-- A model of a list. -/
structure NewAiModel where
  modelKey : String
  displayName : Option String := none
  contextWindow : Option ℤ := none
  supportsTools : Option Bool := none
  supportsVision : Option Bool := none
  supportsStreaming : Option Bool := none
  supportsEmbeddings : Option Bool := none

structure ModelChanges where
  enabled : Option Bool := none
  isDefault : Option Bool := none

/-! ### Checks -/

/-- `char::is_control`. -/
def isControl (c : Char) : Bool := c.toNat < 0x20 || 0x7f ≤ c.toNat && c.toNat < 0xa0

/-- Check a provider name. -/
def validateName (name : String) : Except AiHubError Unit :=
  let trimmed := Text.trim name
  if trimmed = "" then .error (.invalidProvider "a provider needs a name")
  else if MAX_NAME_LEN < trimmed.length then
    .error (.invalidProvider ("a provider name may carry at most " ++ toString MAX_NAME_LEN ++ " characters"))
  else if trimmed.toList.any isControl then .error (.invalidProvider "a provider name may not carry control characters")
  else .ok ()

/-- Check a protocol key. -/
def validateProtocol (protocol : String) : Except AiHubError Unit :=
  if protocol ∈ SUPPORTED_PROTOCOLS then .ok ()
  else .error (.invalidProvider ("protocol \"" ++ protocol ++ "\" is not supported yet (supported: " ++
    ", ".intercalate SUPPORTED_PROTOCOLS ++ ")"))

/-- What follows the scheme. -/
def afterScheme (url : List Char) : Option (List Char) :=
  if "https://".toList.isPrefixOf url then some (url.drop 8)
  else if "http://".toList.isPrefixOf url then some (url.drop 7)
  else none

/-- Check and normalize a base URL. -/
def normalizeBaseUrl (baseUrl : String) : Except AiHubError String :=
  let trimmed := Text.trim baseUrl
  if trimmed = "" then .error (.invalidProvider "a provider needs a base URL")
  else if MAX_BASE_URL_LEN < trimmed.length then
    .error (.invalidProvider ("a base URL may carry at most " ++ toString MAX_BASE_URL_LEN ++ " characters"))
  else if trimmed.toList.any Text.isWhitespace then .error (.invalidProvider "a base URL may not carry whitespace")
  else
    match afterScheme trimmed.toList with
    | none => .error (.invalidProvider "a base URL must start with http:// or https://")
    | some rest =>
      if rest.head?.all (· = '/') then .error (.invalidProvider "a base URL needs a host")
      else .ok (String.ofList (trimmed.toList.rdropWhile (· = '/')))

/-- Check a model key. -/
def validateModelKey (modelKey : String) : Except AiHubError Unit :=
  let trimmed := Text.trim modelKey
  if trimmed = "" then .error (.invalidModel "a model needs a key")
  else if MAX_MODEL_KEY_LEN < trimmed.length then
    .error (.invalidModel ("a model key may carry at most " ++ toString MAX_MODEL_KEY_LEN ++ " characters"))
  else if trimmed.toList.any fun c => Text.isWhitespace c || isControl c then
    .error (.invalidModel "a model key may not carry whitespace or control characters")
  else .ok ()

/-! ### Rows that change -/

/-- The row of a provider to be created, checked. -/
def NewProvider.checked (new : NewProvider) (id : Uuid) : Except AiHubError Provider := do
  validateName new.name
  validateProtocol new.protocol
  let baseUrl ← normalizeBaseUrl new.baseUrl
  return {
    id, name := Text.trim new.name, protocol := new.protocol, baseUrl
    apiKey := new.apiKey.filter fun key => Text.trim key ≠ ""
    enabled := new.enabled, isDefault := new.isDefault }

/-- The new name and base URL, checked. -/
def ProviderChanges.checked (changes : ProviderChanges) : Except AiHubError (Option String × Option String) := do
  let name ← changes.name.mapM fun name => (fun _ => Text.trim name) <$> validateName name
  let baseUrl ← changes.baseUrl.mapM normalizeBaseUrl
  return (name, baseUrl)

/-- The changed row of a provider. -/
def Provider.changed (p : Provider) (name baseUrl : Option String) (changes : ProviderChanges) : Provider :=
  { p with
    name := name.getD p.name
    baseUrl := baseUrl.getD p.baseUrl
    apiKey := match changes.apiKey with
      | .keep => p.apiKey
      | .set key => some key
      | .clear => none
    enabled := changes.enabled.getD p.enabled
    isDefault := changes.isDefault.getD p.isDefault }

/-- What a listed model leaves of the one that is there. -/
def AiModel.merged (m : AiModel) (new : NewAiModel) : AiModel :=
  { m with
    displayName := new.displayName.or m.displayName
    contextWindow := new.contextWindow.or m.contextWindow
    supportsTools := new.supportsTools.getD m.supportsTools
    supportsVision := new.supportsVision.getD m.supportsVision
    supportsStreaming := new.supportsStreaming.getD m.supportsStreaming
    supportsEmbeddings := new.supportsEmbeddings.getD m.supportsEmbeddings }

def AiModel.listed (providerId : Uuid) (new : NewAiModel) (id : Uuid) (now : Instant) : AiModel where
  id := id
  providerId := providerId
  modelKey := Text.trim new.modelKey
  displayName := new.displayName
  contextWindow := new.contextWindow
  supportsTools := new.supportsTools.getD false
  supportsVision := new.supportsVision.getD false
  supportsStreaming := new.supportsStreaming.getD true
  supportsEmbeddings := new.supportsEmbeddings.getD false
  enabled := true
  isDefault := false
  createdAt := now

/-! ### The tables -/

/-- The tables. -/
structure Hub where
  providers : Table Provider Provider.id := .empty
  models : Table AiModel AiModel.id := .empty

namespace Hub

/-- The unique index over the name; `lower` is that of the database. -/
def nameTaken (lower : String → String) (s : Hub) (id : Uuid) (name : String) : Bool :=
  s.providers.rows.any fun p => p.id ≠ id && lower p.name = lower name

/-! ### The repair -/

/-- The first of some models by age and key. -/
def oldest (models : List AiModel) : Option AiModel :=
  (Sorting.sortBy AiModel.age models).head?

/-- Clear defaults that are switched off. -/
def clearDisabled (s : Hub) : Hub :=
  { s with models := s.models.update (fun m => m.isDefault && !m.enabled) (·.withDefault false) fun _ => rfl }

/-- Promote the oldest enabled model when there is no default. -/
def promoteOldest (s : Hub) : Hub :=
  if s.models.rows.any (·.isDefault) then s
  else
    match oldest (s.models.rows.filter (·.enabled)) with
    | none => s
    | some m => { s with models := s.models.update (·.id = m.id) (·.withDefault true) fun _ => rfl }

/-- Keep the default model honest. -/
def repairDefaultModel (s : Hub) : Hub := s.clearDisabled.promoteOldest

/-! ### Providers -/

/-- Clear the installation's default provider. -/
def clearDefaultProvider (s : Hub) : Hub :=
  { s with providers := s.providers.update (·.isDefault) (fun p => { p with isDefault := false }) fun _ => rfl }

/-- Connect a provider. -/
def createProvider (lower : String → String) (s : Hub) (new : NewProvider) (id : Uuid) :
    Except AiHubError (Provider × Hub) :=
  match new.checked id with
  | .error error => .error error
  | .ok provider =>
    let s := if new.isDefault then s.clearDefaultProvider else s
    if s.nameTaken lower id provider.name then .error (.providerNameTaken provider.name)
    else
      match s.providers.insert? provider with
      | none => .error .database
      | some providers => .ok (provider, { s with providers })

/-- The tables with the changed row. -/
def withProvider (s : Hub) (provider : Provider) (changes : ProviderChanges) : Hub :=
  let s := if changes.isDefault = some true then s.clearDefaultProvider else s
  { s with providers := s.providers.update (·.id = provider.id) (fun p => { provider with id := p.id }) fun _ => rfl }

def updateProvider (lower : String → String) (s : Hub) (id : Uuid) (changes : ProviderChanges) :
    Except AiHubError (Provider × Hub) :=
  match changes.checked with
  | .error error => .error error
  | .ok (name, baseUrl) =>
    match s.providers.find? id with
    | none => .error .providerNotFound
    | some p =>
      if name.any (s.nameTaken lower id) then .error (.providerNameTaken (name.getD ""))
      else
        let provider := p.changed name baseUrl changes
        let s := s.withProvider provider changes
        -- Switching a provider off must not leave the installation pointing at it.
        .ok (provider, if !provider.enabled || provider.isDefault then s.repairDefaultModel else s)

/-- The tables without a provider and its models. -/
def withoutProvider (s : Hub) (id : Uuid) : Hub where
  providers := s.providers.delete (·.id = id)
  models := s.models.delete (·.providerId = id)

/-- Remove a provider and every model it serves. -/
def deleteProvider (s : Hub) (id : Uuid) : Except AiHubError (Unit × Hub) :=
  if (s.providers.find? id).isNone then .error .providerNotFound
  else .ok ((), (s.withoutProvider id).repairDefaultModel)

/-! ### Models -/

/-- The keys of a list, checked. -/
def checkKeys : List NewAiModel → List String → Except AiHubError (List String)
  | [], keys => .ok keys
  | model :: rest, keys => do
    validateModelKey model.modelKey
    let key := Text.trim model.modelKey
    if key ∈ keys then throw (.invalidModel ("\"" ++ key ++ "\" is listed twice"))
    checkKeys rest (keys ++ [key])

/-- Insert a listed model, or change the one that is there. -/
def upsertModel (models : Table AiModel AiModel.id) (providerId : Uuid) (new : NewAiModel) (id : Uuid) (now : Instant) :
    Option (Table AiModel AiModel.id) :=
  let there := fun m : AiModel => m.providerId = providerId && m.modelKey = Text.trim new.modelKey
  if new.contextWindow.any (· ≤ 0) then none
  else if models.rows.any there then some (models.update there (AiModel.merged · new) fun _ => rfl)
  else models.insert? (.listed providerId new id now)

/-- The loop over the list. -/
def upsertModels (providerId : Uuid) (now : Instant) :
    List (NewAiModel × Uuid) → Table AiModel AiModel.id → Option (Table AiModel AiModel.id)
  | [], models => some models
  | (new, id) :: rest, models => (upsertModel models providerId new id now).bind (upsertModels providerId now rest)

/-- The models when the set of one provider agrees with a list. -/
def replaced (s : Hub) (providerId : Uuid) (models : List (NewAiModel × Uuid)) (now : Instant) :
    Except AiHubError Hub :=
  match checkKeys (models.map (·.1)) [] with
  | .error error => .error error
  | .ok keys =>
    if (s.providers.find? providerId).isNone then .error .providerNotFound
    else
      match upsertModels providerId now models
          (s.models.delete fun m => m.providerId = providerId && !keys.contains m.modelKey) with
      | none => .error .database
      | some models => .ok { s with models }

/-- Make a provider's model set agree with a list. -/
def replaceModels (s : Hub) (providerId : Uuid) (models : List (NewAiModel × Uuid)) (now : Instant) :
    Except AiHubError (List AiModel × Hub) :=
  match s.replaced providerId models now with
  | .error error => .error error
  | .ok s => .ok (Sorting.sortBy (·.modelKey) (s.models.rows.filter (·.providerId = providerId)), s.repairDefaultModel)

def flagged (s : Hub) (current : AiModel) (changes : ModelChanges) : Hub :=
  let enabled := changes.enabled.getD current.enabled
  let isDefault := if enabled then changes.isDefault.getD current.isDefault else false
  let models := if changes.isDefault = some true then
      s.models.update (·.isDefault) (·.withDefault false) fun _ => rfl
    else s.models
  { s with models := models.update (·.id = current.id) (fun m => { m with enabled, isDefault }) fun _ => rfl }

def updateModel (s : Hub) (id : Uuid) (changes : ModelChanges) : Except AiHubError (Option AiModel × Hub) :=
  match s.models.find? id with
  | none => .error .modelNotFound
  | some current =>
    if changes.isDefault = some true ∧ changes.enabled.getD current.enabled = false then
      .error (.invalidModel "a switched-off model cannot be the default")
    else
      let s := (s.flagged current changes).repairDefaultModel
      .ok (s.models.find? id, s)

/-! ### The default route -/

/-- The installation's default model, if it has an enabled one. -/
def findDefaultModel (s : Hub) : Option AiModel := oldest (s.models.rows.filter fun m => m.isDefault && m.enabled)

/-- Check that a resolved pair is usable. -/
def ready (provider : Provider) (model : AiModel) : Except AiHubError (Provider × AiModel) :=
  if !provider.enabled then .error (.providerDisabled provider.name)
  else if !model.enabled then .error (.invalidModel ("\"" ++ model.modelKey ++ "\" is switched off"))
  else .ok (provider, model)

/-- What a request that names no model is answered by. -/
def defaultModel (s : Hub) : Except AiHubError (Provider × AiModel) :=
  match s.findDefaultModel with
  | none => .error .noDefaultModel
  | some model =>
    match s.providers.find? model.providerId with
    | none => .error .providerNotFound
    | some provider => ready provider model

/-! ### Calls -/

/-- A call of the store. -/
inductive HubCall where
  | createProvider (new : NewProvider) (id : Uuid)
  | updateProvider (id : Uuid) (changes : ProviderChanges)
  | deleteProvider (id : Uuid)
  | replaceModels (providerId : Uuid) (models : List (NewAiModel × Uuid)) (now : Instant)
  | updateModel (id : Uuid) (changes : ModelChanges)

/-- The tables after a call: those it commits, or the old ones. -/
def after {α : Type} (s : Hub) : Except AiHubError (α × Hub) → Hub
  | .error _ => s
  | .ok (_, t) => t

/-- One call. -/
def step (lower : String → String) (s : Hub) : HubCall → Option Hub
  | .createProvider new id => some (s.after (s.createProvider lower new id))
  | .updateProvider id changes => some (s.after (s.updateProvider lower id changes))
  | .deleteProvider id => some (s.after (s.deleteProvider id))
  | .replaceModels providerId models now => some (s.after (s.replaceModels providerId models now))
  | .updateModel id changes => some (s.after (s.updateModel id changes))

/-! ### The repair elects -/

variable {lower : String → String} {s t w : Hub} {m : AiModel} {models : List AiModel}

/-- The enabled default, or else the oldest enabled model. -/
def elect (models : List AiModel) : Option AiModel :=
  (models.find? fun m => m.isDefault && m.enabled).or (oldest (models.filter (·.enabled)))

theorem oldest_mem (h : oldest models = some m) : m ∈ models := (Sorting.of_head?_sortBy h).1

theorem oldest_eq_none : oldest models = none ↔ models = [] := Sorting.head?_sortBy_eq_none

theorem elect_mem (h : elect models = some m) : m ∈ models ∧ m.enabled = true := by
  rw [elect, Option.or_eq_some_iff] at h
  rcases h with h | ⟨-, h⟩
  · have hflags := List.find?_some h
    rw [Bool.and_eq_true] at hflags
    exact ⟨List.mem_of_find?_eq_some h, hflags.2⟩
  · exact List.mem_filter.mp (oldest_mem h)

theorem elect_eq_none : elect models = none ↔ ∀ m ∈ models, m.enabled = false := by
  rw [elect, Option.or_eq_none_iff, oldest_eq_none, List.filter_eq_nil_iff, List.find?_eq_none]
  constructor
  · exact fun h m hm => by simpa using h.2 m hm
  · exact fun h => ⟨fun m hm => by simp [h m hm], fun m hm => by simp [h m hm]⟩

/-- At most one model is the default. -/
def One (s : Hub) : Prop := ∀ m ∈ s.models, ∀ n ∈ s.models, m.isDefault = true → n.isDefault = true → m = n

@[simp] theorem repair_providers : s.repairDefaultModel.providers = s.providers := by
  unfold repairDefaultModel promoteOldest
  split_ifs
  · rfl
  · split <;> rfl

theorem clearDisabled_rows : s.clearDisabled.models.rows = s.models.rows.map fun m =>
    m.withDefault (m.isDefault && m.enabled) := by
  refine List.map_congr_left fun m _ => ?_
  by_cases h : (m.isDefault && !m.enabled) = true
  · rw [if_pos h]
    simp_all
  · have hsame : (m.isDefault && m.enabled) = m.isDefault := by
      cases hd : m.isDefault <;> simp_all
    rw [if_neg h, hsame, AiModel.withDefault_self]

theorem oldest_map {f : AiModel → AiModel} (h : ∀ m, (f m).age = m.age) :
    oldest (models.map f) = (oldest models).map f := by
  rw [oldest, oldest, ← Sorting.map_sortBy _ _ h, List.head?_map]

/-- **After a repair** the default is the elected model. -/
theorem repair_rows (hone : s.One) : s.repairDefaultModel.models.rows =
    s.models.rows.map fun m => m.withDefault ((elect s.models.rows).any (·.id = m.id)) := by
  unfold repairDefaultModel promoteOldest
  cases hfind : s.models.rows.find? fun m => m.isDefault && m.enabled with
  | some d =>
    have hd := List.mem_of_find?_eq_some hfind
    have hflags := List.find?_some hfind
    have helect : elect s.models.rows = some d := by rw [elect, hfind, Option.some_or]
    rw [Bool.and_eq_true] at hflags
    rw [if_pos, clearDisabled_rows, helect]
    · refine List.map_congr_left fun m hm => ?_
      rw [Option.any_some]
      by_cases hid : d.id = m.id
      · obtain rfl := Table.eq_of_key hd hm hid
        simp [hflags]
      · have hnot : (m.isDefault && m.enabled) = false := by
          rw [← Bool.not_eq_true, Bool.and_eq_true]
          exact fun hboth => hid (congrArg _ (hone d hd m hm hflags.1 hboth.1))
        simp [hnot, hid]
    · rw [List.any_eq_true, clearDisabled_rows]
      exact ⟨_, List.mem_map_of_mem hd, by simp [hflags]⟩
  | none =>
    have hcleared : s.clearDisabled.models.rows = s.models.rows.map (·.withDefault false) := by
      rw [clearDisabled_rows]
      refine List.map_congr_left fun m hm => ?_
      rw [Bool.eq_false_iff.mpr (List.find?_eq_none.mp hfind m hm)]
    have hold : oldest (s.clearDisabled.models.rows.filter (·.enabled)) =
        (oldest (s.models.rows.filter (·.enabled))).map (·.withDefault false) := by
      rw [hcleared, List.filter_map, oldest_map (f := (·.withDefault false)) fun _ => rfl]
      rfl
    have helect : elect s.models.rows = oldest (s.models.rows.filter (·.enabled)) :=
      by rw [elect, hfind, Option.none_or]
    rw [if_neg (by simp [hcleared]), hold, helect]
    cases oldest (s.models.rows.filter (·.enabled)) with
    | none => simp [hcleared]
    | some e =>
      change (s.clearDisabled.models.rows.map fun m => if decide
        (m.id = e.id) = true then m.withDefault true else m) = _
      rw [hcleared, List.map_map]
      refine List.map_congr_left fun m _ => ?_
      by_cases hid : m.id = e.id
      · simp [hid]
        rfl
      · simp [hid, Ne.symm hid]

/-! ### Sound tables -/

def providerEnabled (s : Hub) (id : Uuid) : Bool := (s.providers.find? id).any (·.enabled)

/-- The model can answer. -/
def serves (s : Hub) (m : AiModel) : Bool := m.enabled && s.providerEnabled m.providerId

/-- One model at most is the default, it can answer, and it is there when some model can. -/
structure Sound (s : Hub) : Prop where
  one : s.One
  serving : ∀ m ∈ s.models, m.isDefault = true → s.serves m = true
  present : (∃ m ∈ s.models, s.serves m = true) → ∃ m ∈ s.models, m.isDefault = true

theorem mem_repair (hone : w.One) : m ∈ w.repairDefaultModel.models ↔
    ∃ n ∈ w.models, n.withDefault ((elect w.models.rows).any (·.id = n.id)) = m := by
  rw [Table.mem_def, repair_rows hone, List.mem_map]
  rfl

theorem repair_marked (hone : w.One) (hm : m ∈ w.repairDefaultModel.models) (hdefault : m.isDefault = true) :
    ∃ n, elect w.models.rows = some n ∧ m = n.withDefault true := by
  obtain ⟨n, hn, rfl⟩ := (mem_repair hone).mp hm
  rw [AiModel.isDefault_withDefault, Option.any_eq_true] at hdefault
  obtain ⟨e, helect, hid⟩ := hdefault
  obtain rfl := Table.eq_of_key (elect_mem helect).1 hn (of_decide_eq_true hid)
  exact ⟨e, helect, by simp [helect]⟩

theorem One.repair (h : w.One) : w.repairDefaultModel.One := by
  intro m hm n hn hdm hdn
  obtain ⟨e, helect, rfl⟩ := repair_marked h hm hdm
  obtain ⟨e', helect', rfl⟩ := repair_marked h hn hdn
  rw [Option.some.inj (helect.symm.trans helect')]

/-- **A repair is sound** just when what it elects is of an enabled provider. -/
theorem repair_sound_iff (hone : w.One) :
    w.repairDefaultModel.Sound ↔ ∀ m, elect w.models.rows = some m → w.providerEnabled m.providerId = true := by
  have henabled : ∀ id, w.repairDefaultModel.providerEnabled id = w.providerEnabled id := fun id => by
    rw [providerEnabled, repair_providers, providerEnabled]
  constructor
  · intro hsound m helect
    obtain ⟨hm, -⟩ := elect_mem helect
    have hserves := hsound.serving _ ((mem_repair hone).mpr ⟨m, hm, rfl⟩) (by simp [helect])
    rw [serves, Bool.and_eq_true, henabled] at hserves
    exact hserves.2
  · intro hfit
    refine ⟨hone.repair, fun m hm hdefault => ?_, fun ⟨m, hm, hserves⟩ => ?_⟩
    · obtain ⟨e, helect, rfl⟩ := repair_marked hone hm hdefault
      rw [serves, henabled]
      simp [(elect_mem helect).2, hfit e helect]
    · obtain ⟨n, hn, rfl⟩ := (mem_repair hone).mp hm
      cases helect : elect w.models.rows with
      | none => simp [serves, elect_eq_none.mp helect n hn] at hserves
      | some e => exact ⟨_, (mem_repair hone).mpr ⟨e, (elect_mem helect).1, rfl⟩, by simp [helect]⟩

/-- **A request that names no model** is answered just when some model can answer. -/
theorem Sound.resolves (h : s.Sound) : (∃ r, s.defaultModel = .ok r) ↔ ∃ m ∈ s.models, s.serves m = true := by
  constructor
  · rintro ⟨⟨provider, model⟩, hresult⟩
    rw [defaultModel] at hresult
    split at hresult
    · cases hresult
    · rename_i m hfound
      have hm := List.mem_filter.mp (oldest_mem hfound)
      rw [Bool.and_eq_true] at hm
      exact ⟨m, hm.1, h.serving m hm.1 hm.2.1⟩
  · intro hserves
    obtain ⟨d, hd, hdefault⟩ := h.present hserves
    have hd' := h.serving d hd hdefault
    rw [serves, Bool.and_eq_true, providerEnabled, Option.any_eq_true] at hd'
    cases hfound : s.findDefaultModel with
    | none =>
      have hempty := oldest_eq_none.mp hfound
      rw [List.filter_eq_nil_iff] at hempty
      simpa [hdefault, hd'.1] using hempty d hd
    | some m =>
      have hm := List.mem_filter.mp (oldest_mem hfound)
      rw [Bool.and_eq_true] at hm
      obtain rfl := h.one m hm.1 d hd hm.2.1 hdefault
      obtain ⟨henabled, provider, hprovider, hon⟩ := hd'
      exact ⟨(provider, m), by simp [defaultModel, hfound, hprovider, ready, hon, henabled]⟩

/-! ### What the calls leave -/

/-- One model at most is the default, and every model belongs to a provider that is there. -/
structure Proper (s : Hub) : Prop where
  one : s.One
  owned : ∀ m ∈ s.models, (s.providers.find? m.providerId).isSome = true

theorem Proper.empty : Proper {} where
  one := fun _ hm => nomatch hm
  owned := fun _ hm => nomatch hm

theorem Proper.repair (h : w.Proper) : w.repairDefaultModel.Proper where
  one := h.one.repair
  owned := by
    intro m hm
    obtain ⟨n, hn, rfl⟩ := (mem_repair h.one).mp hm
    rw [repair_providers]
    exact h.owned n hn

theorem One.of_defaults (h : s.One) (hdefault : ∀ m ∈ t.models, m.isDefault = true → ∃ n ∈ s.models, n.id = m.id ∧
    n.isDefault = true) :
    t.One := by
  intro m hm n hn hdm hdn
  obtain ⟨m', hm', hidm, hdm'⟩ := hdefault m hm hdm
  obtain ⟨n', hn', hidn, hdn'⟩ := hdefault n hn hdn
  have hsame := h m' hm' n' hn' hdm' hdn'
  exact Table.eq_of_key hm hn (by rw [← hidm, ← hidn, hsame])

theorem sound_congr (hmodels : t.models = s.models)
    (henabled : ∀ m ∈ s.models, t.providerEnabled m.providerId = s.providerEnabled m.providerId)
      (h : s.Sound) : t.Sound := by
  have hserves : ∀ m ∈ s.models, t.serves m = s.serves m := fun m hm => by rw [serves, serves, henabled m hm]
  refine ⟨?_, ?_, ?_⟩
  · simpa only [One, hmodels] using h.one
  · intro m hm hdefault
    rw [hmodels] at hm
    rw [hserves m hm, h.serving m hm hdefault]
  · rintro ⟨m, hm, hm'⟩
    rw [hmodels] at hm ⊢
    exact h.present ⟨m, hm, by rw [← hserves m hm, hm']⟩

theorem find?_clearDefaultProvider (id : Uuid) : (s.clearDefaultProvider.providers.find? id).map (·.enabled) =
    (s.providers.find? id).map (·.enabled) := by
  rw [clearDefaultProvider, Table.find?_update, Option.map_map]
  congr 1
  funext p
  simp only [Function.comp]
  split <;> rfl

/-- A new provider changes nothing for those that are there. -/
theorem createProvider_spec {new : NewProvider} {id : Uuid} {p : Provider}
    (h : s.createProvider lower new id = .ok (p, t)) :
    t.models = s.models ∧ ∀ q, (s.providers.find? q).isSome = true →
      (t.providers.find? q).map (·.enabled) = (s.providers.find? q).map (·.enabled) := by
  rw [createProvider] at h
  split at h
  · cases h
  · rename_i provider _
    simp only at h
    -- the table before the insert has the same providers switched on
    obtain ⟨s', hs', hmodels, henabled⟩ : ∃ s', (if new.isDefault then s.clearDefaultProvider else s) = s' ∧
      s'.models = s.models ∧
        ∀ q, (s'.providers.find? q).map (·.enabled) = (s.providers.find? q).map (·.enabled) := by
      refine ⟨_, rfl, ?_, fun q => ?_⟩
      · split <;> rfl
      · split
        · exact find?_clearDefaultProvider q
        · rfl
    rw [hs'] at h
    split_ifs at h
    split at h
    · cases h
    · rename_i providers hinsert
      obtain ⟨-, rfl⟩ := Prod.mk.inj (Except.ok.inj h)
      refine ⟨hmodels, fun q hq => ?_⟩
      rw [Table.find?_insert? hinsert]
      split_ifs with hid
      · have hnone := (Table.insert?_eq_some hinsert).1
        rw [hid] at hnone
        have hmissing := henabled q
        rw [hnone, Option.map_none] at hmissing
        rw [Option.isSome_iff_exists] at hq
        obtain ⟨p, hp⟩ := hq
        simp [hp] at hmissing
      · exact henabled q

theorem providerEnabled_eq (id : Uuid) : s.providerEnabled id = ((s.providers.find? id).map
    (·.enabled)).any fun b => b := by
  rw [providerEnabled, Option.any_map]

theorem providerEnabled_withProvider {provider : Provider} {changes : ProviderChanges} {p : Provider}
    (hp : s.providers.find? provider.id = some p) (q : Uuid) :
    (s.withProvider provider changes).providerEnabled q = if q
      = provider.id then provider.enabled else s.providerEnabled q := by
  have hbefore : ∀ q, ((if changes.isDefault = some true then s.clearDefaultProvider else s).providers.find?
    q).map (·.enabled) =
      (s.providers.find? q).map (·.enabled) := by
    intro q
    split
    · exact find?_clearDefaultProvider q
    · rfl
  rw [providerEnabled_eq, providerEnabled_eq, withProvider, Table.find?_update, Option.map_map]
  by_cases hq : q = provider.id
  · subst hq
    have hthere := hbefore provider.id
    rw [hp] at hthere
    obtain ⟨p', hp', -⟩ := Option.map_eq_some_iff.mp hthere
    have hid := (Table.find?_eq_some.mp hp').2
    simp [hp', hid]
  · rw [if_neg hq, ← hbefore q]
    cases hfind : (if changes.isDefault = some true then s.clearDefaultProvider else s).providers.find? q with
    | none => rfl
    | some p' =>
      have hid := (Table.find?_eq_some.mp hfind).2
      simp [hid, hq]

theorem withProvider_models {provider : Provider} {changes : ProviderChanges} :
    (s.withProvider provider changes).models = s.models := by
  unfold withProvider
  split <;> rfl

theorem providerEnabled_withoutProvider {id q : Uuid} (hq : q ≠ id) :
    (s.withoutProvider id).providerEnabled q = s.providerEnabled q := by
  rw [providerEnabled, withoutProvider, Table.find?_delete, providerEnabled]
  rintro p rfl
  simpa using hq

/-- A row that a table was asked to keep, or one that it was asked to add. -/
def KeptOrListed (providerId : Uuid) (models : Table AiModel AiModel.id) (m : AiModel) : Prop :=
  (∃ n ∈ models, n.id = m.id ∧ n.isDefault = m.isDefault ∧ n.providerId = m.providerId) ∨ m.isDefault = false ∧
    m.providerId = providerId

theorem upsertModel_spec {models models' : Table AiModel AiModel.id} {providerId id : Uuid}
    {new : NewAiModel} {now : Instant}
    (h : upsertModel models providerId new id now = some models') : ∀ m ∈ models',
      KeptOrListed providerId models m := by
  simp only [upsertModel] at h
  split_ifs at h
  · cases h
    intro m hm
    obtain ⟨n, hn, rfl⟩ := Table.mem_update.mp hm
    refine .inl ⟨n, hn, ?_⟩
    split <;> exact ⟨rfl, rfl, rfl⟩
  · intro m hm
    rcases (Table.mem_insert? h).mp hm with hm | rfl
    · exact .inl ⟨m, hm, rfl, rfl, rfl⟩
    · exact .inr ⟨rfl, rfl⟩

theorem upsertModels_spec {providerId : Uuid} {now : Instant} {list : List (NewAiModel × Uuid)}
    {models models' : Table AiModel AiModel.id}
    (h : upsertModels providerId now list models = some models') : ∀ m ∈ models', KeptOrListed providerId models m := by
  induction list generalizing models with
  | nil =>
    cases h
    exact fun m hm => .inl ⟨m, hm, rfl, rfl, rfl⟩
  | cons entry rest ih =>
    obtain ⟨next, hnext, hrest⟩ := Option.bind_eq_some_iff.mp h
    intro m hm
    rcases ih hrest m hm with ⟨n, hn, hid, hdefault, hprovider⟩ | hlisted
    · rcases upsertModel_spec hnext n hn with ⟨k, hk, hid', hdefault', hprovider'⟩ | ⟨hdefault', hprovider'⟩
      · exact .inl ⟨k, hk, hid'.trans hid, hdefault'.trans hdefault, hprovider'.trans hprovider⟩
      · exact .inr ⟨hdefault ▸ hdefault', hprovider ▸ hprovider'⟩
    · exact .inr hlisted

theorem replaced_spec {providerId : Uuid} {models : List (NewAiModel × Uuid)} {now : Instant}
    (h : s.replaced providerId models now = .ok w) :
    w.providers = s.providers ∧ (s.providers.find? providerId).isSome = true ∧
      ∀ m ∈ w.models, KeptOrListed providerId s.models m := by
  rw [replaced] at h
  split at h
  · cases h
  · split_ifs at h with hprovider
    split at h
    · cases h
    · rename_i models' hmodels
      cases h
      refine ⟨rfl, by simpa [← Option.isNone_iff_eq_none] using hprovider, fun m hm => ?_⟩
      rcases upsertModels_spec hmodels m hm with ⟨n, hn, hsame⟩ | hlisted
      · exact Or.inl ⟨n, (Table.mem_delete.mp hn).1, hsame⟩
      · exact Or.inr hlisted

theorem flagged_spec {current : AiModel} {changes : ModelChanges} (hcurrent : current ∈ s.models) :
    (∀ m ∈ (s.flagged current changes).models, ∃ n ∈ s.models, n.id = m.id ∧ n.providerId = m.providerId) ∧
      (s.One → (s.flagged current changes).One) := by
  have hcleared : ∀ m, m ∈ (if changes.isDefault = some true then s.models.update (·.isDefault)
    (·.withDefault false) fun _ => rfl
      else s.models) → ∃ n ∈ s.models, n.id = m.id ∧ n.providerId = m.providerId ∧
        (m.isDefault = true → n.isDefault = true ∧ changes.isDefault ≠ some true) := by
    intro m hm
    split_ifs at hm with hasked
    · obtain ⟨n, hn, rfl⟩ := Table.mem_update.mp hm
      refine ⟨n, hn, ?_⟩
      cases hn' : n.isDefault <;> simp [hn']
    · exact ⟨m, hm, rfl, rfl, fun h => ⟨h, hasked⟩⟩
  constructor
  · intro m hm
    rw [flagged, Table.mem_update] at hm
    obtain ⟨k, hk, rfl⟩ := hm
    obtain ⟨n, hn, hid, hprovider, -⟩ := hcleared k hk
    refine ⟨n, hn, ?_⟩
    split <;> exact ⟨hid, hprovider⟩
  · intro hone m hm m' hm' hdefault hdefault'
    -- a default is the changed model, or one that was not cleared
    have hwho : ∀ m ∈ (s.flagged current changes).models, m.isDefault = true →
        (m.id = current.id ∧ changes.isDefault = some true) ∨
          changes.isDefault ≠ some true ∧ ∃ n ∈ s.models, n.id = m.id ∧ n.isDefault = true := by
      intro m hm hdefault
      rw [flagged, Table.mem_update] at hm
      obtain ⟨k, hk, rfl⟩ := hm
      obtain ⟨n, hn, hid, -, hkept⟩ := hcleared k hk
      split_ifs at hdefault ⊢ with hself
      · have hself := of_decide_eq_true hself
        by_cases hasked : changes.isDefault = some true
        · exact .inl ⟨hself, hasked⟩
        · refine .inr ⟨hasked, current, hcurrent, hself.symm, ?_⟩
          cases hchange : changes.isDefault with
          | none => simpa [hchange] using hdefault
          | some b => simp_all
      · exact .inr ⟨(hkept hdefault).2, n, hn, hid, (hkept hdefault).1⟩
    refine Table.eq_of_key hm hm' ?_
    rcases hwho m hm hdefault with ⟨hid, hasked⟩ | ⟨hasked, n, hn, hid, hn'⟩
    · rcases hwho m' hm' hdefault' with ⟨hid', -⟩ | ⟨hasked', -⟩
      · rw [hid, hid']
      · exact absurd hasked hasked'
    · rcases hwho m' hm' hdefault' with ⟨-, hasked'⟩ | ⟨-, k, hk, hid', hk'⟩
      · exact absurd hasked' hasked
      · rw [← hid, ← hid', hone n hn k hk hn' hk']

/-- Whether the changes of a provider are accepted. -/
def accepts (lower : String → String) (s : Hub) (id : Uuid) (changes : ProviderChanges) : Prop :=
  ∃ name baseUrl, changes.checked = .ok (name, baseUrl) ∧ name.any (s.nameTaken lower id) = false

/-- What a call elects is of an enabled provider, and what does not repair wakes no model while there is no default. -/
def Fit (lower : String → String) (s : Hub) : HubCall → Prop
  | .createProvider .. => True
  | .updateProvider id changes => ∀ p, s.providers.find? id = some p → s.accepts lower id changes →
    if changes.enabled.getD p.enabled = false ∨ changes.isDefault.getD p.isDefault = true then
      ∀ m, elect s.models.rows = some m →
        (if m.providerId = id then changes.enabled.getD p.enabled else s.providerEnabled m.providerId) = true
    else (∀ m ∈ s.models, m.isDefault = false) → ∀ m ∈ s.models, m.enabled = true → m.providerId ≠ id
  | .deleteProvider id => (s.providers.find? id).isSome = true →
    ∀ m, elect (s.models.rows.filter (·.providerId ≠ id)) = some m → s.providerEnabled m.providerId = true
  | .replaceModels providerId models now => ∀ w, s.replaced providerId models now = .ok w →
    ∀ m, elect w.models.rows = some m → s.providerEnabled m.providerId = true
  | .updateModel id changes => ∀ current, s.models.find? id = some current →
    ¬(changes.isDefault = some true ∧ changes.enabled.getD current.enabled = false) →
    ∀ m, elect (s.flagged current changes).models.rows = some m → s.providerEnabled m.providerId = true

/-- **Without a repair**, a provider that is switched on wakes no model while there is no default. -/
theorem kept_sound_iff {id : Uuid} (h : s.Sound) (hmodels : t.models = s.models)
    (hon : ∀ q, t.providerEnabled q = if q = id then true else s.providerEnabled q) :
    t.Sound ↔ ((∀ m ∈ s.models, m.isDefault = false) → ∀ m ∈ s.models, m.enabled = true → m.providerId ≠ id) := by
  have hserves : ∀ m, t.serves m = (m.enabled && if m.providerId = id then true else s.providerEnabled m.providerId) :=
    fun m => by rw [serves, hon]
  constructor
  · intro hsound hnone m hm henabled hid
    obtain ⟨d, hd, hdefault⟩ := hsound.present ⟨m, by rwa [hmodels], by rw [hserves, if_pos hid, henabled]; rfl⟩
    rw [hmodels] at hd
    rw [hnone d hd] at hdefault
    cases hdefault
  · intro hfit
    refine ⟨?_, fun m hm hdefault => ?_, fun ⟨m, hm, hm'⟩ => ?_⟩
    · simpa only [One, hmodels] using h.one
    · rw [hmodels] at hm
      have hbefore := h.serving m hm hdefault
      rw [serves, Bool.and_eq_true] at hbefore
      rw [hserves, hbefore.1, hbefore.2]
      split <;> rfl
    · rw [hmodels] at hm ⊢
      by_contra hnone
      have hnone' : ∀ n ∈ s.models, n.isDefault = false := fun n hn => by
        rw [← Bool.not_eq_true]
        exact fun hdefault => hnone ⟨n, hn, hdefault⟩
      rw [hserves, Bool.and_eq_true, if_neg (hfit hnone' m hm (by simp_all))] at hm'
      exact hnone (h.present ⟨m, hm, by rw [serves, hm'.1, hm'.2]; rfl⟩)

theorem updateProvider_sound_iff {id : Uuid} {changes : ProviderChanges} (h : s.Sound) :
    (s.after (s.updateProvider lower id changes)).Sound ↔ s.Fit lower (.updateProvider id changes) := by
  rw [updateProvider]
  split
  · rename_i error hchecked
    refine iff_of_true h fun p _ ⟨name, baseUrl, hok, _⟩ => ?_
    rw [hok] at hchecked
    cases hchecked
  · rename_i name baseUrl hchecked
    split
    · rename_i hfind
      refine iff_of_true h fun p hp => ?_
      rw [hfind] at hp
      cases hp
    · rename_i p hp
      have hid := (Table.find?_eq_some.mp hp).2
      split_ifs with htaken
      · refine iff_of_true h fun p' _ ⟨name', baseUrl', hok, hfree⟩ => ?_
        obtain ⟨rfl, rfl⟩ := Prod.mk.inj (Except.ok.inj (hchecked.symm.trans hok))
        rw [htaken] at hfree
        cases hfree
      · have haccepts : s.accepts lower id changes := ⟨name, baseUrl, hchecked, by simpa using htaken⟩
        -- the changed row, and who is switched on with it
        have hchanged : (p.changed name baseUrl changes).id = id := hid
        have hon : ∀ q, (s.withProvider (p.changed name baseUrl changes) changes).providerEnabled q =
            if q = id then changes.enabled.getD p.enabled else s.providerEnabled q := by
          intro q
          rw [providerEnabled_withProvider (hchanged ▸ hp), hchanged]
          rfl
        have hmodels : (s.withProvider (p.changed name baseUrl changes) changes).models
          = s.models := withProvider_models
        have hfit : s.Fit lower (.updateProvider id changes) ↔ _ :=
          ⟨fun hfit => hfit p hp haccepts, fun hfit p' hp' _ => Option.some.inj (hp.symm.trans hp') ▸ hfit⟩
        rw [hfit]
        simp only [after]
        by_cases hrepairs : changes.enabled.getD p.enabled = false ∨ changes.isDefault.getD p.isDefault = true
        · have hrepair : (!(p.changed name baseUrl changes).enabled ||
            (p.changed name baseUrl changes).isDefault) = true := by
            simpa [Provider.changed] using hrepairs
          rw [if_pos hrepairs, if_pos hrepair, repair_sound_iff (by simpa only [One, hmodels] using h.one), hmodels]
          simp only [hon]
        · have hrepair : ¬(!(p.changed name baseUrl changes).enabled ||
            (p.changed name baseUrl changes).isDefault) = true := by
            simpa [Provider.changed] using hrepairs
          rw [if_neg hrepairs, if_neg hrepair]
          obtain ⟨hon', -⟩ := not_or.mp hrepairs
          rw [Bool.not_eq_false] at hon'
          exact kept_sound_iff h hmodels fun q => by rw [hon, hon']

theorem withProvider_proper {provider : Provider} {changes : ProviderChanges} (h : s.Proper) :
    (s.withProvider provider changes).Proper where
  one := by simpa only [One, withProvider_models] using h.one
  owned := by
    intro m hm
    rw [withProvider_models] at hm
    rw [withProvider, Table.find?_update, Option.isSome_map]
    split_ifs
    · rw [clearDefaultProvider, Table.find?_update, Option.isSome_map]
      exact h.owned m hm
    · exact h.owned m hm

theorem withoutProvider_proper {id : Uuid} (h : s.Proper) : (s.withoutProvider id).Proper where
  one := fun m hm n hn => h.one m (Table.mem_delete.mp hm).1 n (Table.mem_delete.mp hn).1
  owned := by
    intro m hm
    obtain ⟨hm, hother⟩ := Table.mem_delete.mp hm
    rw [withoutProvider, Table.find?_delete]
    · exact h.owned m hm
    · rintro p hp
      rw [hp]
      exact hother

theorem replaced_proper {providerId : Uuid} {models : List (NewAiModel × Uuid)} {now : Instant} (h : s.Proper)
    (hw : s.replaced providerId models now = .ok w) : w.Proper := by
  obtain ⟨hproviders, hprovider, hrows⟩ := replaced_spec hw
  refine ⟨h.one.of_defaults fun m hm hdefault => ?_, fun m hm => ?_⟩
  · rcases hrows m hm with ⟨n, hn, hid, hn', -⟩ | ⟨hnot, -⟩
    · exact ⟨n, hn, hid, hn'.trans hdefault⟩
    · rw [hnot] at hdefault
      cases hdefault
  · rw [hproviders]
    rcases hrows m hm with ⟨n, hn, -, -, hsame⟩ | ⟨-, hsame⟩
    · exact hsame ▸ h.owned n hn
    · exact hsame ▸ hprovider

theorem flagged_proper {current : AiModel} {changes : ModelChanges} (h : s.Proper) (hcurrent : current ∈ s.models) :
    (s.flagged current changes).Proper where
  one := (flagged_spec hcurrent).2 h.one
  owned := by
    intro m hm
    obtain ⟨n, hn, -, hsame⟩ := (flagged_spec hcurrent).1 m hm
    exact hsame ▸ h.owned n hn

/-! ### Steps -/

theorem createProvider_proper {new : NewProvider} {id : Uuid} {p : Provider} (h : s.Proper)
    (ht : s.createProvider lower new id = .ok (p, t)) :
    t.Proper := by
  obtain ⟨hmodels, hproviders⟩ := createProvider_spec ht
  refine ⟨by simpa only [One, hmodels] using h.one, fun m hm => ?_⟩
  rw [hmodels] at hm
  have hthere := congrArg Option.isSome (hproviders _ (h.owned m hm))
  rw [Option.isSome_map, Option.isSome_map] at hthere
  rw [hthere, h.owned m hm]

theorem createProvider_sound {new : NewProvider} {id : Uuid} {p : Provider} (h : s.Proper) (hsound : s.Sound)
    (ht : s.createProvider lower new id = .ok (p, t)) : t.Sound := by
  obtain ⟨hmodels, hproviders⟩ := createProvider_spec ht
  refine sound_congr hmodels (fun m hm => ?_) hsound
  rw [providerEnabled_eq, providerEnabled_eq, hproviders _ (h.owned m hm)]

theorem after_ok {α : Type} {a : α} : s.after (.ok (a, t)) = t := rfl

theorem updateProvider_proper {id : Uuid} {changes : ProviderChanges} (h : s.Proper) :
    (s.after (s.updateProvider lower id changes)).Proper := by
  rw [updateProvider]
  split
  · exact h
  · split
    · exact h
    · split_ifs
      · exact h
      · rw [after_ok]
        split_ifs
        · exact (withProvider_proper h).repair
        · exact withProvider_proper h

theorem deleteProvider_proper {id : Uuid} (h : s.Proper) : (s.after (s.deleteProvider id)).Proper := by
  rw [deleteProvider]
  split_ifs
  · exact h
  · exact (withoutProvider_proper h).repair

theorem replaceModels_proper {providerId : Uuid} {models : List (NewAiModel × Uuid)} {now : Instant} (h : s.Proper) :
    (s.after (s.replaceModels providerId models now)).Proper := by
  rw [replaceModels]
  split
  · exact h
  · rename_i w hw
    exact (replaced_proper h hw).repair

theorem updateModel_proper {id : Uuid} {changes : ModelChanges} (h : s.Proper) :
    (s.after (s.updateModel id changes)).Proper := by
  rw [updateModel]
  split
  · exact h
  · rename_i current hcurrent
    split_ifs
    · exact h
    · exact (flagged_proper h (Table.find?_eq_some.mp hcurrent).1).repair

theorem step_proper {call : HubCall} (h : s.Proper) (hs : s.step lower call = some t) : t.Proper := by
  cases call with
  | createProvider new id =>
    cases hs
    cases hresult : s.createProvider lower new id with
    | error _ => exact h
    | ok r => exact createProvider_proper h hresult
  | updateProvider id changes => exact Option.some.inj hs ▸ updateProvider_proper h
  | deleteProvider id => exact Option.some.inj hs ▸ deleteProvider_proper h
  | replaceModels providerId models now => exact Option.some.inj hs ▸ replaceModels_proper h
  | updateModel id changes => exact Option.some.inj hs ▸ updateModel_proper h

theorem deleteProvider_sound_iff {id : Uuid} (h : s.Proper) (hsound : s.Sound) :
    (s.after (s.deleteProvider id)).Sound ↔ s.Fit lower (.deleteProvider id) := by
  rw [deleteProvider]
  split_ifs with hnone
  · refine iff_of_true hsound fun hsome => ?_
    rw [Option.isNone_iff_eq_none] at hnone
    rw [hnone] at hsome
    cases hsome
  · have hsome : (s.providers.find? id).isSome = true := by simpa [← Option.isSome_iff_ne_none] using hnone
    have hrows : (s.withoutProvider id).models.rows = s.models.rows.filter (·.providerId ≠ id) := by
      simp [withoutProvider, Table.delete]
    rw [after_ok, repair_sound_iff (withoutProvider_proper h).one, hrows]
    constructor
    · intro hfit _ m helect
      have hother := of_decide_eq_true (List.mem_filter.mp (elect_mem helect).1).2
      rw [← providerEnabled_withoutProvider hother]
      exact hfit m helect
    · intro hfit m helect
      have hother := of_decide_eq_true (List.mem_filter.mp (elect_mem helect).1).2
      rw [providerEnabled_withoutProvider hother]
      exact hfit hsome m helect

theorem replaceModels_sound_iff {providerId : Uuid} {models : List (NewAiModel × Uuid)} {now : Instant} (h : s.Proper)
    (hsound : s.Sound) :
    (s.after (s.replaceModels providerId models now)).Sound ↔ s.Fit lower (.replaceModels providerId models now) := by
  rw [replaceModels]
  split
  · rename_i error herror
    refine iff_of_true hsound fun w hw => ?_
    rw [hw] at herror
    cases herror
  · rename_i w hw
    have henabled : ∀ q, w.providerEnabled q = s.providerEnabled q := fun q => by
      rw [providerEnabled, (replaced_spec hw).1, providerEnabled]
    rw [after_ok, repair_sound_iff (replaced_proper h hw).one]
    simp only [henabled]
    constructor
    · intro hfit w' hw'
      obtain rfl := Except.ok.inj (hw.symm.trans hw')
      exact hfit
    · exact fun hfit => hfit w hw

theorem updateModel_sound_iff {id : Uuid} {changes : ModelChanges} (h : s.Proper) (hsound : s.Sound) :
    (s.after (s.updateModel id changes)).Sound ↔ s.Fit lower (.updateModel id changes) := by
  rw [updateModel]
  split
  · rename_i hnone
    refine iff_of_true hsound fun current hcurrent => ?_
    rw [hnone] at hcurrent
    cases hcurrent
  · rename_i current hcurrent
    split_ifs with hrefused
    · refine iff_of_true hsound fun current' hcurrent' haccepted => ?_
      obtain rfl := Option.some.inj (hcurrent.symm.trans hcurrent')
      exact absurd hrefused haccepted
    · have henabled : ∀ q, (s.flagged current changes).providerEnabled q = s.providerEnabled q := fun _ => rfl
      rw [after_ok, repair_sound_iff (flagged_proper h (Table.find?_eq_some.mp hcurrent).1).one]
      simp only [henabled]
      constructor
      · intro hfit current' hcurrent' _
        obtain rfl := Option.some.inj (hcurrent.symm.trans hcurrent')
        exact hfit
      · exact fun hfit => hfit current hcurrent hrefused

/-- **A call keeps the tables sound** just when it is fit. -/
theorem step_sound_iff {call : HubCall} (h : s.Proper) (hsound : s.Sound) (hs : s.step lower call = some t) :
    t.Sound ↔ s.Fit lower call := by
  cases call with
  | createProvider new id =>
    cases hs
    refine iff_of_true ?_ trivial
    cases hresult : s.createProvider lower new id with
    | error _ => exact hsound
    | ok r => exact createProvider_sound h hsound hresult
  | updateProvider id changes => exact Option.some.inj hs ▸ updateProvider_sound_iff hsound
  | deleteProvider id => exact Option.some.inj hs ▸ deleteProvider_sound_iff h hsound
  | replaceModels providerId models now => exact Option.some.inj hs ▸ replaceModels_sound_iff h hsound
  | updateModel id changes => exact Option.some.inj hs ▸ updateModel_sound_iff h hsound

theorem Sound.empty : Sound {} where
  one := Proper.empty.one
  serving := fun _ hm => nomatch hm
  present := fun ⟨_, hm, _⟩ => nomatch hm

/-- **All through a run** the default is the model that can answer, and requests that name none are
answered when one can be,
just when every call of it was fit. -/
theorem run_sound_iff (lower : String → String) (calls : List HubCall) (t : Hub)
    (h : Run (step lower) Any {} calls t) :
    (∀ calls' x, calls' <+: calls → Run (step lower) Any {} calls' x →
      x.Sound ∧ ((∃ r, x.defaultModel = .ok r) ↔ ∃ m ∈ x.models, x.serves m = true)) ↔
    Run (step lower) (Fit lower) {} calls t := by
  have hproper : ∀ {calls' : List HubCall} {x : Hub}, Run (step lower) Any {} calls' x → x.Proper :=
    fun hrun => hrun.invariant .empty fun _ _ _ hx _ hs => step_proper hx hs
  refine h.throughout_iff ⟨.empty, Sound.empty.resolves⟩ hproper fun x call y hx hsound _ hs => ?_
  rw [← step_sound_iff hx hsound.1 hs]
  exact ⟨And.left, fun hy => ⟨hy, hy.resolves⟩⟩

/-! ### Two providers -/

/-- A provider without a key. -/
def newProvider (name : String) : NewProvider where
  name := name
  protocol := "openai_compatible"
  baseUrl := "https://" ++ name ++ "/v1/"
  apiKey := none
  enabled := true
  isDefault := false

/-- Two providers of a model each. -/
def connected : List HubCall :=
  [.createProvider (newProvider "alpha") 1, .replaceModels 1 [({ modelKey := "small" }, 10)] 100,
    .createProvider (newProvider "beta") 2, .replaceModels 2 [({ modelKey := "large" }, 20)] 200]

/-- What calls on models elect is of an enabled provider. -/
def fitCheck (s : Hub) : HubCall → Bool
  | .createProvider .. => true
  | .updateProvider .. => false
  | .deleteProvider id => (elect (s.models.rows.filter (·.providerId ≠ id))).all fun m => s.providerEnabled m.providerId
  | .replaceModels providerId models now => match s.replaced providerId models now with
    | .error _ => true
    | .ok w => (elect w.models.rows).all fun m => s.providerEnabled m.providerId
  | .updateModel id changes => (s.models.find? id).all fun current =>
    (elect (s.flagged current changes).models.rows).all fun m => s.providerEnabled m.providerId

theorem fit_of_fitCheck (s : Hub) (call : HubCall) (h : fitCheck s call = true) : s.Fit Text.toLowercase call := by
  cases call with
  | createProvider => trivial
  | updateProvider => cases h
  | deleteProvider id =>
    intro _ m helect
    rwa [fitCheck, helect, Option.all_some] at h
  | replaceModels providerId models now =>
    intro w hw m helect
    rw [fitCheck, hw] at h
    simpa [helect] using h
  | updateModel id changes =>
    intro current hcurrent _ m helect
    rwa [fitCheck, hcurrent, Option.all_some, helect, Option.all_some] at h

/-- The default moves to the second provider, which is then removed. -/
theorem run_sound_iff_moved : ∃ t, Run (step Text.toLowercase) Any {} (connected ++
    [.updateModel 20 { isDefault := some true }, .deleteProvider 2]) t ∧
    t.Sound ∧ t.models.rows.map (fun m => (m.id, m.isDefault)) = [(10, true)] := by
  have hexec : (exec (fun s e => if fitCheck s e then step Text.toLowercase s e else none) {}
      (connected ++ [.updateModel 20 { isDefault := some true }, .deleteProvider 2])).map
      (fun t => t.models.rows.map fun m => (m.id, m.isDefault)) = some [(10, true)] := by decide +kernel
  obtain ⟨t, hrun, hrows⟩ := Run.of_exec_of_map fit_of_fitCheck hexec
  have hany : Run (step Text.toLowercase) Any {} _ t := hrun.mono fun _ _ _ => trivial
  exact ⟨t, hany, ((run_sound_iff _ _ t hany).mpr hrun _ t (List.prefix_refl _) hany).1, hrows⟩

/-- **The provider of the default is switched off**, and requests are refused although the other one can answer. -/
theorem default_switched_off : ∃ t,
    Run (step Text.toLowercase) Any {} (connected ++ [.updateProvider 1 { enabled := some false }]) t ∧
    (∃ m ∈ t.models, t.serves m = true) ∧ ¬∃ r, t.defaultModel = .ok r := by
  have hexec : (exec (step Text.toLowercase) {} (connected ++ [.updateProvider 1 { enabled := some false }])).map
      (fun t => t.models.rows.any t.serves && !t.defaultModel.isOk) = some true := by decide +kernel
  obtain ⟨t, hrun, hresult⟩ := Run.of_exec_map hexec
  rw [Bool.and_eq_true, List.any_eq_true, Bool.not_eq_true'] at hresult
  refine ⟨t, hrun, hresult.1, fun ⟨r, hr⟩ => ?_⟩
  have hfails := hresult.2
  rw [hr] at hfails
  cases hfails

end Hub

end Omnion.AiHub
