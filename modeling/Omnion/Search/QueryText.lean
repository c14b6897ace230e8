import Omnion.Core.NetText
import Omnion.Library.Calendar
import Omnion.Library.Words
import Omnion.Search.Indexer

/-!
# The query language

`Query::parse` of `crates/search/src/query.rs`: a search text is cut into tokens, and each is a term to look for, a
filter on the results, or a hint at what could not be used.

## The model

A query is the record that `parse` fills, token by token. How a text is put in lower case is a parameter. A date is the
instant of its midnight.

## What is proved

* `parse_accounts` — every token becomes a term, a filter or a hint, in order, and the query has no others; only a type
  that no provider answers is both, a filter that nothing matches and a hint that says so. A filter is applied unless a
  later token sets it anew.

## Honest scope

What follows the cap of `MAX_QUERY_LENGTH` characters is cut off. The statement that a query becomes is left out.
-/

namespace Omnion.Search

open Text Calendar

/-- Longest accepted query, in characters. -/
def MAX_QUERY_LENGTH : ℕ := 200

/-- Why a raw string cannot be searched. -/
inductive QueryError where
  | empty
  deriving DecidableEq

/-- One parsed query: the searchable terms and the scoped filters around them. -/
structure Query where
  raw : String
  terms : List String := []
  types : List String := []
  site : Option String := none
  ownerMe : Bool := false
  before : Option Instant := none
  after : Option Instant := none
  flags : List String := []
  hints : List String := []
  deriving DecidableEq

/-- Look one provider up by its document type. -/
def providerForEntityType (entityType : String) : Option ProviderSpec :=
  PROVIDERS.find? fun spec => spec.entityType = entityType

/-- Whether a name is that of a provider or of an entity type. -/
def isKnownType (name : String) : Bool := (provider name).isSome || (providerForEntityType name).isSome

/-- Every type name a `type:` filter may use, for the hint text. -/
def knownTypes : List String := PROVIDERS.flatMap fun spec => [spec.key, spec.entityType]

/-- Parse `YYYY-MM-DD` into midnight UTC. -/
def parseDate (value : String) : Option Instant :=
  match value.toList.splitOn '-' with
  | [year, month, day] => do
    let year ← parseI32 year
    let month ← parseU8 month
    let day ← parseU8 day
    if -9999 ≤ year ∧ year ≤ 9999 ∧ IsDate year month day then
      some (daysFromEpoch year month day * 86400000000)
    else none
  | _ => none

section

variable (lowercase : String → String)

/-- The hint at a type that no provider answers. -/
def unknownType (value : String) : String :=
  "no provider answers " ++ value ++ ": known types are " ++ ", ".intercalate knownTypes

def Query.addToken (query : Query) (token : String) : Query :=
  match splitOnce [':'] token.toList with
  | none => { query with terms := query.terms ++ [lowercase token] }
  | some (name, value) =>
    let name := lowercase (String.ofList name)
    let value := trim (String.ofList value)
    if value = "" then { query with terms := query.terms ++ [lowercase token] }
    else if name = "type" then
      let value := lowercase value
      let hints := if isKnownType value then query.hints else query.hints ++ [unknownType value]
      let types := if value ∈ query.types then query.types else query.types ++ [value]
      { query with hints := hints, types := types }
    else if name = "site" then { query with site := some (lowercase value) }
    else if name = "owner" then
      if eqIgnoreAsciiCase value.toList "me".toList then { query with ownerMe := true }
      else { query with hints := query.hints ++ ["owner: only answers \"me\" today"] }
    else if name = "before" ∨ name = "after" then
      match parseDate value with
      | some stamp =>
        if name = "before" then { query with before := some stamp } else { query with after := some stamp }
      | none =>
        { query with hints := query.hints ++ [name ++ ":" ++ value ++ " is not a date — write it as YYYY-MM-DD"] }
    else if name = "is" then
      let value := lowercase value
      if value = "draft" ∨ value = "published" then
        { query with flags := if value ∈ query.flags then query.flags else query.flags ++ [value] }
      else { query with hints := query.hints ++ ["is:" ++ value ++ " is not a known flag — draft, published"] }
    else { query with terms := query.terms ++ [lowercase token] }

/-- The tokens of a text, `split_whitespace`. -/
def tokensOf (text : String) : List String := (Words.words isWhitespace text.toList).map String.ofList

/-- Parse a raw string; an error when there is nothing to search for. -/
def Query.parse (raw : String) : Except QueryError Query :=
  let trimmed := String.ofList ((trim raw).toList.take MAX_QUERY_LENGTH)
  if trimmed = "" then .error .empty
  else
    let query := (tokensOf trimmed).foldl (Query.addToken lowercase) { raw := trimmed }
    if query.terms = [] ∧ query.types = [] ∧ query.site = none ∧ query.ownerMe = false ∧ query.before = none ∧
        query.after = none ∧ query.flags = [] ∧ query.hints = [] then .error .empty
    else .ok query

/-! ### What becomes of the tokens -/

/-- A filter on the results. -/
inductive Filter where
  | type (value : String)
  | site (value : String)
  | ownerMe
  | before (stamp : Instant)
  | after (stamp : Instant)
  | flag (value : String)
  deriving DecidableEq

def Query.Applies (query : Query) : Filter → Prop
  | .type value => value ∈ query.types
  | .site value => query.site = some value
  | .ownerMe => query.ownerMe = true
  | .before stamp => query.before = some stamp
  | .after stamp => query.after = some stamp
  | .flag value => value ∈ query.flags

/-- Two filters on what a query has one of: the site, the end or the beginning. -/
def Filter.Rival : Filter → Filter → Prop
  | .site _, .site _ => True
  | .before _, .before _ => True
  | .after _, .after _ => True
  | _, _ => False

/-- What a token becomes. -/
inductive Outcome where
  | term (text : String)
  | filter (filter : Filter)
  | hint (text : String)

def Outcome.term? : Outcome → Option String
  | .term text => some text
  | _ => none

def Outcome.hint? : Outcome → Option String
  | .hint text => some text
  | _ => none

/-- A token that is a name, a colon and a value. -/
def Names (token name value : String) : Prop :=
  ∃ before after, token.toList = before ++ ':' :: after ∧ ':' ∉ before ∧
    lowercase (String.ofList before) = name ∧ trim (String.ofList after) = value

/-- What a name and a value ask for. -/
inductive Asks : String → String → Filter → Prop where
  | type (h : isKnownType (lowercase value) = true) : Asks "type" value (.type (lowercase value))
  | site : Asks "site" value (.site (lowercase value))
  | ownerMe (h : eqIgnoreAsciiCase value.toList "me".toList = true) : Asks "owner" value .ownerMe
  | before (h : parseDate value = some stamp) : Asks "before" value (.before stamp)
  | after (h : parseDate value = some stamp) : Asks "after" value (.after stamp)
  | flag (h : lowercase value ∈ ["draft", "published"]) : Asks "is" value (.flag (lowercase value))

/-- What a name and a value are hinted at with. -/
inductive Hints : String → String → String → Prop where
  | owner (h : eqIgnoreAsciiCase value.toList "me".toList = false) :
      Hints "owner" value "owner: only answers \"me\" today"
  | date (hname : name ∈ ["before", "after"]) (h : parseDate value = none) :
      Hints name value (name ++ ":" ++ value ++ " is not a date — write it as YYYY-MM-DD")
  | flag (h : lowercase value ∉ ["draft", "published"]) :
      Hints "is" value ("is:" ++ lowercase value ++ " is not a known flag — draft, published")

def filterNames : List String := ["type", "site", "owner", "before", "after", "is"]

/-- What a token is to become. -/
inductive Reads : String → List Outcome → Prop where
  | plain (h : ':' ∉ token.toList) : Reads token [.term (lowercase token)]
  | valueless (h : Names lowercase token name "") : Reads token [.term (lowercase token)]
  | unnamed (h : Names lowercase token name value) (hname : name ∉ filterNames) :
      Reads token [.term (lowercase token)]
  | filter (h : Names lowercase token name value) (hvalue : value ≠ "") (hasks : Asks lowercase name value f) :
      Reads token [.filter f]
  | hint (h : Names lowercase token name value) (hvalue : value ≠ "") (hhints : Hints lowercase name value text) :
      Reads token [.hint text]
  | unmatched (h : Names lowercase token "type" value) (hvalue : value ≠ "")
      (hunknown : isKnownType (lowercase value) = false) :
      Reads token [.filter (.type (lowercase value)), .hint (unknownType (lowercase value))]

/-- What became of each token accounts for all that a query has. -/
structure Account (query : Query) (tokens : List String) (outcomes : List (List Outcome)) : Prop where
  reads : List.Forall₂ (Reads lowercase) tokens outcomes
  terms : query.terms = outcomes.flatten.filterMap Outcome.term?
  hints : query.hints = outcomes.flatten.filterMap Outcome.hint?
  /-- No filter is applied that no token asks for. -/
  asked : ∀ {f}, query.Applies f → .filter f ∈ outcomes.flatten
  /-- A filter is applied, unless a later token sets what it sets to something else. -/
  applied : ∀ {before f after}, outcomes.flatten = before ++ .filter f :: after →
    (∀ g, .filter g ∈ after → g.Rival f → g = f) → query.Applies f

/-- Every token becomes exactly one thing, and every filter is applied. -/
def Accounted (query : Query) (tokens : List String) : Prop :=
  ∃ outcomes, Account lowercase query tokens outcomes ∧ (∀ those ∈ outcomes, ∃ outcome, those = [outcome]) ∧
    ∀ f, .filter f ∈ outcomes.flatten → query.Applies f

end

/-! ### One token -/

section

variable {lowercase : String → String} {query : Query} {token name value : String} {f : Filter} {outcome : Outcome}
  {outcomes : List Outcome}

/-- A query with one filter more. -/
def Query.apply (query : Query) : Filter → Query
  | .type value => { query with types := if value ∈ query.types then query.types else query.types ++ [value] }
  | .site value => { query with site := some value }
  | .ownerMe => { query with ownerMe := true }
  | .before stamp => { query with before := some stamp }
  | .after stamp => { query with after := some stamp }
  | .flag value => { query with flags := if value ∈ query.flags then query.flags else query.flags ++ [value] }

/-- A query with one thing more. -/
def Query.record (query : Query) : Outcome → Query
  | .term text => { query with terms := query.terms ++ [text] }
  | .filter filter => query.apply filter
  | .hint text => { query with hints := query.hints ++ [text] }

/-- **What a token becomes** is what it adds to any query. -/
theorem exists_reads (lowercase : String → String) (token : String) : ∃ outcomes, Reads lowercase token outcomes ∧
    ∀ query : Query, query.addToken lowercase token = outcomes.foldl Query.record query := by
  rcases hsplit : splitOnce [':'] token.toList with _ | ⟨before, after⟩
  · exact ⟨_, .plain (splitOnce_singleton_eq_none_iff.mp hsplit), fun query => by rw [Query.addToken, hsplit]; rfl⟩
  · obtain ⟨htoken, hbefore⟩ := splitOnce_singleton_eq_some_iff.mp hsplit
    have hnames : Names lowercase token (lowercase (String.ofList before)) (trim (String.ofList after)) :=
      ⟨before, after, htoken, hbefore, rfl, rfl⟩
    simp only [Query.addToken, hsplit]
    generalize lowercase (String.ofList before) = name at hnames ⊢
    generalize trim (String.ofList after) = value at hnames ⊢
    by_cases hvalue : value = ""
    · subst hvalue
      exact ⟨_, .valueless hnames, fun query => if_pos rfl⟩
    simp only [if_neg hvalue]
    by_cases hname : name ∈ filterNames
    · simp only [filterNames, List.mem_cons, List.not_mem_nil, or_false] at hname
      rcases hname with rfl | rfl | rfl | rfl | rfl | rfl
      · cases hknown : isKnownType (lowercase value) with
        | true => exact ⟨_, .filter hnames hvalue (.type hknown), fun query => rfl⟩
        | false => exact ⟨_, .unmatched hnames hvalue hknown, fun query => rfl⟩
      · exact ⟨_, .filter hnames hvalue .site, fun query => rfl⟩
      · cases hme : eqIgnoreAsciiCase value.toList "me".toList with
        | true => exact ⟨_, .filter hnames hvalue (.ownerMe hme), fun query => rfl⟩
        | false => exact ⟨_, .hint hnames hvalue (.owner hme), fun query => rfl⟩
      · cases hdate : parseDate value with
        | some stamp => exact ⟨_, .filter hnames hvalue (.before hdate), fun query => rfl⟩
        | none => exact ⟨_, .hint hnames hvalue (.date (by simp) hdate), fun query => rfl⟩
      · cases hdate : parseDate value with
        | some stamp => exact ⟨_, .filter hnames hvalue (.after hdate), fun query => rfl⟩
        | none => exact ⟨_, .hint hnames hvalue (.date (by simp) hdate), fun query => rfl⟩
      · by_cases hflag : lowercase value ∈ ["draft", "published"]
        · exact ⟨_, .filter hnames hvalue (.flag hflag), fun query => if_pos (by simpa using hflag)⟩
        · exact ⟨_, .hint hnames hvalue (.flag hflag),
            fun query => if_neg (by simpa only [List.mem_cons, List.not_mem_nil, or_false] using hflag)⟩
    · refine ⟨_, .unnamed hnames hname, fun query => ?_⟩
      simp only [filterNames, List.mem_cons, List.not_mem_nil, or_false, not_or] at hname
      obtain ⟨htype, hsite, howner, hdate, hdate', his⟩ := hname
      rw [if_neg htype, if_neg hsite, if_neg howner, if_neg (not_or.mpr ⟨hdate, hdate'⟩), if_neg his]
      rfl

/-! ### The whole text -/

theorem exists_forall₂_reads (lowercase : String → String) (tokens : List String) :
    ∃ outcomes, List.Forall₂ (Reads lowercase) tokens outcomes ∧ ∀ query : Query,
      tokens.foldl (Query.addToken lowercase) query = outcomes.flatten.foldl Query.record query := by
  induction tokens with
  | nil => exact ⟨[], .nil, fun query => rfl⟩
  | cons token rest ih =>
    obtain ⟨first, hfirst, hadd⟩ := exists_reads lowercase token
    obtain ⟨others, hothers, hfold⟩ := ih
    refine ⟨first :: others, .cons hfirst hothers, fun query => ?_⟩
    rw [List.foldl_cons, hadd, hfold, List.flatten_cons, List.foldl_append]

theorem terms_record (query : Query) (outcome : Outcome) :
    (query.record outcome).terms = query.terms ++ outcome.term?.toList := by
  cases outcome with
  | filter f => cases f <;> simp [Query.record, Query.apply, Outcome.term?]
  | _ => simp [Query.record, Outcome.term?]

theorem hints_record (query : Query) (outcome : Outcome) :
    (query.record outcome).hints = query.hints ++ outcome.hint?.toList := by
  cases outcome with
  | filter f => cases f <;> simp [Query.record, Query.apply, Outcome.hint?]
  | _ => simp [Query.record, Outcome.hint?]

theorem foldl_record_of_step {part : Query → List String} {added : Outcome → Option String}
    (hstep : ∀ query outcome, part (query.record outcome) = part query ++ (added outcome).toList)
    (outcomes : List Outcome) (query : Query) :
    part (outcomes.foldl Query.record query) = part query ++ outcomes.filterMap added := by
  induction outcomes generalizing query with
  | nil => simp
  | cons outcome rest ih =>
    rw [List.foldl_cons, ih, hstep, List.append_assoc, List.filterMap_eq_flatMap_toList,
      List.filterMap_eq_flatMap_toList, List.flatMap_cons]

theorem applies_apply (query : Query) (f : Filter) : (query.apply f).Applies f := by
  cases f with
  | type value =>
    simp only [Query.apply, Query.Applies]
    split_ifs with h
    · exact h
    · simp
  | flag value =>
    simp only [Query.apply, Query.Applies]
    split_ifs with h
    · exact h
    · simp
  | _ => rfl

/-- A filter leaves the others as they are, without its rivals. -/
theorem applies_apply_iff {g : Filter} (hne : g ≠ f) :
    (query.apply g).Applies f ↔ query.Applies f ∧ ¬ g.Rival f := by
  cases g with
  | type value =>
    cases f with
    | type other =>
      have hother : other ≠ value := fun heq => hne (heq ▸ rfl)
      simp only [Query.apply, Query.Applies, Filter.Rival]
      split_ifs <;> simp [hother]
    | _ => simp [Query.apply, Query.Applies, Filter.Rival]
  | flag value =>
    cases f with
    | flag other =>
      have hother : other ≠ value := fun heq => hne (heq ▸ rfl)
      simp only [Query.apply, Query.Applies, Filter.Rival]
      split_ifs <;> simp [hother]
    | _ => simp [Query.apply, Query.Applies, Filter.Rival]
  | ownerMe =>
    cases f with
    | ownerMe => exact absurd rfl hne
    | _ => simp [Query.apply, Query.Applies, Filter.Rival]
  | _ => cases f <;> simp_all [Query.apply, Query.Applies, Filter.Rival]

theorem applies_record_iff : (query.record outcome).Applies f ↔
    outcome = .filter f ∨ query.Applies f ∧ ∀ g, outcome = .filter g → g.Rival f → g = f := by
  cases outcome with
  | filter g =>
    by_cases heq : g = f
    · subst heq
      simp [Query.record, applies_apply]
    · simp [Query.record, applies_apply_iff heq, heq]
  | term text => cases f <;> simp [Query.record, Query.Applies]
  | hint text => cases f <;> simp [Query.record, Query.Applies]

theorem applied_of_foldl (h : (outcomes.foldl Query.record query).Applies f) :
    query.Applies f ∨ .filter f ∈ outcomes := by
  induction outcomes generalizing query with
  | nil => exact .inl h
  | cons outcome rest ih =>
    rcases ih h with happlies | hmem
    · rcases applies_record_iff.mp happlies with rfl | ⟨happlies, -⟩
      · exact .inr List.mem_cons_self
      · exact .inl happlies
    · exact .inr (List.mem_cons_of_mem _ hmem)

theorem applies_foldl (happlies : query.Applies f) (hlater : ∀ g, .filter g ∈ outcomes → g.Rival f → g = f) :
    (outcomes.foldl Query.record query).Applies f := by
  induction outcomes generalizing query with
  | nil => exact happlies
  | cons outcome rest ih =>
    refine ih (applies_record_iff.mpr (.inr ⟨happlies, fun g hg => ?_⟩)) fun g hg => hlater g (List.mem_cons_of_mem _ hg)
    exact hlater g (hg ▸ List.mem_cons_self)

theorem not_applies_blank (raw : String) (f : Filter) : ¬ Query.Applies { raw := raw } f := by
  cases f <;> simp [Query.Applies]

/-- **What became of the tokens** accounts for the query. -/
theorem exists_account (lowercase : String → String) (raw : String) (tokens : List String) : ∃ outcomes,
    Account lowercase (tokens.foldl (Query.addToken lowercase) { raw := raw }) tokens outcomes := by
  obtain ⟨outcomes, hreads, hfold⟩ := exists_forall₂_reads lowercase tokens
  refine ⟨outcomes, hreads, ?_, ?_, ?_, ?_⟩
  · rw [hfold, foldl_record_of_step terms_record]
    rfl
  · rw [hfold, foldl_record_of_step hints_record]
    rfl
  · intro f happlies
    rw [hfold] at happlies
    exact (applied_of_foldl happlies).resolve_left (not_applies_blank raw f)
  · intro before f after hflatten hlater
    rw [hfold, hflatten, List.foldl_append, List.foldl_cons]
    exact applies_foldl (applies_apply _ f) hlater

/-- Where there is nothing to search for there are no tokens. -/
theorem Account.tokens_eq_nil {tokens : List String} {outcomes : List (List Outcome)}
    (h : Account lowercase query tokens outcomes)
    (hempty : query.terms = [] ∧ query.types = [] ∧ query.site = none ∧ query.ownerMe = false ∧ query.before = none ∧
      query.after = none ∧ query.flags = [] ∧ query.hints = []) : tokens = [] := by
  obtain ⟨hterms, htypes, hsite, howner, hbefore, hafter, hflags, hhints⟩ := hempty
  have hflatten : outcomes.flatten = [] := by
    rcases List.eq_nil_or_concat outcomes.flatten with hnil | ⟨before, last, hlast⟩
    · exact hnil
    · rw [List.concat_eq_append] at hlast
      -- The last thing that became of a token is in the query.
      cases last with
      | term text => simp [h.terms, hlast, Outcome.term?] at hterms
      | hint text => simp [h.hints, hlast, Outcome.hint?] at hhints
      | filter f =>
        have happlies := h.applied hlast (by simp)
        cases f <;> simp_all [Query.Applies]
  cases h.reads with
  | nil => rfl
  | cons hfirst _ =>
    rw [List.flatten_cons, List.append_eq_nil_iff] at hflatten
    rw [hflatten.1] at hfirst
    cases hfirst

end

theorem tokensOf_trim (raw : String) : tokensOf (trim raw) = tokensOf raw := by
  rw [tokensOf, tokensOf, trim, String.toList_ofList]
  exact congrArg (List.map String.ofList) Words.words_trim

/-- **Every token** becomes a term, a filter or a hint, in order, whatever is typed within the cap. A text is refused when
it has no tokens. -/
theorem parse_accounts (lowercase : String → String) {raw : String} (hcap : (trim raw).length ≤ MAX_QUERY_LENGTH) :
    (tokensOf raw = [] ∧ Query.parse lowercase raw = .error .empty) ∨
      ∃ query outcomes, Query.parse lowercase raw = .ok query ∧ Account lowercase query (tokensOf raw) outcomes := by
  have htake : String.ofList ((trim raw).toList.take MAX_QUERY_LENGTH) = trim raw := by
    rw [List.take_of_length_le hcap, String.ofList_toList]
  obtain ⟨outcomes, haccount⟩ := exists_account lowercase (trim raw) (tokensOf raw)
  rw [Query.parse]
  simp only [htake, tokensOf_trim]
  split_ifs with hblank hempty
  · refine .inl ⟨?_, rfl⟩
    rw [← tokensOf_trim, hblank]
    rfl
  · exact .inl ⟨haccount.tokens_eq_nil hempty, rfl⟩
  · exact .inr ⟨_, outcomes, rfl, haccount⟩

theorem parse_accounts_report :
    (tokensOf "Report type:page" = [] ∧ Query.parse toLowercase "Report type:page" = .error .empty) ∨
      ∃ query outcomes, Query.parse toLowercase "Report type:page" = .ok query ∧
        Account toLowercase query (tokensOf "Report type:page") outcomes :=
  parse_accounts toLowercase (by decide)

theorem Names.value_eq {lowercase : String → String} {token name value : String} {before after : List Char}
    (h : Names lowercase token name value)
    (hsplit : splitOnce [':'] token.toList = some (before, after)) : value = trim (String.ofList after) := by
  obtain ⟨before', after', htoken, hbefore, -, rfl⟩ := h
  rw [splitOnce_singleton_eq_some_iff.mpr ⟨htoken, hbefore⟩, Option.some.injEq, Prod.mk.injEq] at hsplit
  rw [hsplit.2]

theorem Reads.site {lowercase : String → String} {token text : String} (h : Reads lowercase token [.filter (.site text)]) :
    ∃ value, Names lowercase token "site" value ∧ text = lowercase value := by
  generalize houtcomes : [Outcome.filter (.site text)] = outcomes at h
  cases h with
  | @filter name value f hnames hvalue hasks =>
    simp only [List.cons.injEq, Outcome.filter.injEq, and_true] at houtcomes
    subst houtcomes
    generalize hsite : Filter.site text = f at hasks
    cases hasks with
    | site => exact ⟨value, hnames, Filter.site.inj hsite⟩
    | _ => cases hsite
  | _ => simp at houtcomes

/-- A type that no provider answers is a filter and a hint; of two sites the first is not applied. -/
theorem unknown_and_overridden :
    (∃ query, Query.parse toLowercase "type:ghost" = .ok query ∧
      ¬ Accounted toLowercase query (tokensOf "type:ghost")) ∧
    ∃ query, Query.parse toLowercase "site:acme site:globex" = .ok query ∧
      ¬ Accounted toLowercase query (tokensOf "site:acme site:globex") := by
  have htokens : tokensOf "type:ghost" = ["type:ghost"] := by decide
  have htokens' : tokensOf "site:acme site:globex" = ["site:acme", "site:globex"] := by decide
  rw [htokens, htokens']
  refine ⟨⟨{ raw := "type:ghost", types := ["ghost"], hints := [unknownType "ghost"] }, by decide, ?_⟩,
    ⟨{ raw := "site:acme site:globex", site := some "globex" }, by decide, ?_⟩⟩
  · rintro ⟨outcomes, haccount, hsingle, -⟩
    have hasked : .filter (.type "ghost") ∈ outcomes.flatten := haccount.asked (List.mem_singleton_self _)
    have hhints := haccount.hints
    obtain ⟨those, rfl⟩ := List.length_eq_one_iff.mp haccount.reads.length_eq.symm
    obtain ⟨outcome, rfl⟩ := hsingle those (List.mem_singleton_self _)
    rw [List.flatten_singleton, List.mem_singleton] at hasked
    rw [← hasked] at hhints
    cases hhints
  · rintro ⟨outcomes, haccount, hsingle, happlied⟩
    obtain ⟨those, others, hfirst, -, rfl⟩ := List.forall₂_cons_left_iff.mp haccount.reads
    obtain ⟨outcome, rfl⟩ := hsingle those List.mem_cons_self
    have hmem : outcome ∈ ([outcome] :: others).flatten := List.mem_cons_self
    have hterms := List.filterMap_eq_nil_iff.mp haccount.terms.symm outcome hmem
    have hhints := List.filterMap_eq_nil_iff.mp haccount.hints.symm outcome hmem
    cases outcome with
    | term text => cases hterms
    | hint text => cases hhints
    | filter f =>
      have happlies := happlied f hmem
      cases f with
      | site text =>
        obtain ⟨value, hnames, rfl⟩ := hfirst.site
        have hsplit : splitOnce [':'] "site:acme".toList = some ("site".toList, "acme".toList) := by decide
        rw [hnames.value_eq hsplit] at happlies
        revert happlies
        simp only [Query.Applies]
        decide
      | _ => simp [Query.Applies] at happlies

end Omnion.Search
