import Mathlib.Data.Prod.Lex
import Omnion.Core.Text
import Omnion.Library.Paging
import Omnion.Library.Sorting

/-!
# Reading an inbox page by page

`list` of `crates/notifications/src/store.rs` and the route around it, `GET /api/v1/notifications`: the notifications of
one person that a filter lets through, newest first, and the cursor to the next page.

## The model

The table of notifications is a list of rows without a repeated id, that of deliveries says over which channels each
went out. The cursor leaves as the text of an instant and comes back through the parser of another format; both are of
the crate `time`, and are parameters.

## What is proved

* `follows_wanted_iff` — the pages, followed by their cursors, come to every notification that the filter asks for just
  when it names one category and one priority at most, or nothing is asked for, and each cursor comes back as an instant
  between the rows on both sides of its border. Several names are all required of one row, and rows of one instant are
  not told apart.

## Honest scope

The inbox does not change between two pages.
-/

namespace Omnion.Notifications.Inbox

open Sorting (sortBy)

/-- The largest page. -/
def MAX_PAGE : ℤ := 100

/-- A row of `notifications`, with what the list looks at. -/
structure Notification where
  id : Uuid
  userId : Uuid
  category : String
  priority : String
  readAt : Option Instant
  archivedAt : Option Instant
  createdAt : Instant
  deriving DecidableEq

/-- The rows, and over which channel which went out. -/
structure Tables where
  notifications : List Notification
  deliveries : List (Uuid × String)
  /-- `id` is the primary key. -/
  nodup : (notifications.map Notification.id).Nodup

/-- What a reader asked for. -/
structure ListQuery where
  categories : List String
  /-- `true` for unread only, `false` for read only, `none` for both. -/
  unread : Option Bool
  priorities : List String
  channel : Option String
  includeArchived : Bool
  includeRead : Bool
  /-- The instant to page from, exclusive. -/
  before : Option Instant
  limit : ℤ

structure NotificationPage where
  notifications : List Notification
  hasMore : Bool

/-- The read filter, from either of the two ways of asking for it. -/
def readClause (query : ListQuery) (n : Notification) : Bool :=
  match query.unread with
  | some true => n.readAt.isNone
  | some false => n.readAt.isSome
  | none => if query.includeRead then true else n.readAt.isNone

/-- The scope, and the filters that are one clause each. -/
def pushScope (tables : Tables) (userId : Uuid) (query : ListQuery) (n : Notification) : Bool :=
  n.userId = userId && (query.includeArchived || n.archivedAt.isNone) && readClause query n &&
    query.channel.all fun channel => tables.deliveries.any fun d => d.1 = n.id && d.2 = channel

/-- `(created_at, id) < (before, nil)`: no id is less than the nil one. -/
def pushBefore (query : ListQuery) (n : Notification) : Bool :=
  query.before.all fun before => n.createdAt < before || (n.createdAt = before && n.id < 0)

/-- The scope and every filter. -/
def pushFilters (tables : Tables) (userId : Uuid) (query : ListQuery) (n : Notification) : Bool :=
  pushScope tables userId query n && (query.categories.all fun category => n.category = category) &&
    (query.priorities.all fun priority => n.priority = priority) && pushBefore query n

/-- `order by created_at desc, id desc`. -/
def newestFirst (n : Notification) : Instantᵒᵈ ×ₗ Uuidᵒᵈ := toLex (OrderDual.toDual n.createdAt, OrderDual.toDual n.id)

/-- `clamp(1, MAX_PAGE)`. -/
def pageSize (query : ListQuery) : ℕ := (max 1 (min query.limit MAX_PAGE)).toNat

/-- One page of one person's notifications, newest first. -/
def list (tables : Tables) (userId : Uuid) (query : ListQuery) : NotificationPage :=
  let rows := (sortBy newestFirst (tables.notifications.filter (pushFilters tables userId query))).take (pageSize query + 1)
  { notifications := rows.take (pageSize query), hasMore := pageSize query < rows.length }

/-- The cursor for the next page, or none at the end. -/
def nextBefore (display : Instant → String) (page : NotificationPage) : Option String :=
  if page.hasMore then page.notifications.getLast?.map fun last => display last.createdAt else none

/-! ### What the pages are to come to -/

/-- A filter that names several asks for any of them. -/
def anyOf (names : List String) (name : String) : Bool := names = [] || name ∈ names

/-- What the filter asks for, newest first. -/
def wanted (tables : Tables) (userId : Uuid) (query : ListQuery) : List Notification :=
  sortBy newestFirst (tables.notifications.filter fun n => pushScope tables userId query n &&
    anyOf query.categories n.category && anyOf query.priorities n.priority &&
    query.before.all fun before => n.createdAt < before)

/-- The pages from a query on, each but the first asked for with the cursor before it. -/
inductive Follows (display : Instant → String) (parse : String → Option Instant) (tables : Tables) (userId : Uuid) :
    ListQuery → List Notification → Prop where
  | last {query} (h : nextBefore display (list tables userId query) = none) :
      Follows display parse tables userId query (list tables userId query).notifications
  | more {query text before rest} (h : nextBefore display (list tables userId query) = some text)
      (hparse : parse text = some before)
      (hrest : Follows display parse tables userId { query with before := some before } rest) :
      Follows display parse tables userId query ((list tables userId query).notifications ++ rest)

/-- No two different names are given. -/
def NamesOne (names : List String) : Prop := ∀ name ∈ names, ∀ other ∈ names, name = other

section

variable {display : Instant → String} {parse : String → Option Instant} {tables : Tables} {userId : Uuid}
  {query : ListQuery} {rows : List Notification} {n : Notification}

/-- The cursor that a row becomes, and what comes back of it. -/
def cursorOf (display : Instant → String) (parse : String → Option Instant) (n : Notification) : Option Instant :=
  parse (display n.createdAt)

/-- The rows that the list takes a page of, whatever the cursor. -/
def listed (tables : Tables) (userId : Uuid) (query : ListQuery) : List Notification :=
  sortBy newestFirst (tables.notifications.filter fun n => pushScope tables userId query n &&
    (query.categories.all fun category => n.category = category) &&
      query.priorities.all fun priority => n.priority = priority)

theorem pageSize_pos (query : ListQuery) : 0 < pageSize query := by
  have hone : 1 ≤ max 1 (min query.limit MAX_PAGE) := le_max_left _ _
  rw [pageSize]
  omega

theorem pushBefore_eq (query : ListQuery) (n : Notification) :
    pushBefore query n = query.before.all fun before => decide (n.createdAt < before) := by
  cases hbefore : query.before <;> simp [pushBefore, hbefore]

/-- **A page of the list** is a page of all that is listed, from the cursor on. -/
theorem list_eq (tables : Tables) (userId : Uuid) (query : ListQuery) :
    ((list tables userId query).notifications, (list tables userId query).hasMore) =
      Paging.keysetPage Notification.createdAt (pageSize query) (listed tables userId query) query.before := by
  have hrows : sortBy newestFirst (tables.notifications.filter (pushFilters tables userId query)) =
      Paging.below Notification.createdAt query.before (listed tables userId query) := by
    rw [Paging.below, listed, Sorting.sortBy_filter, List.filter_filter]
    congr 2
    funext n
    rw [pushFilters, pushBefore_eq, Bool.and_comm]
  simp only [list, Paging.keysetPage, hrows, List.take_take, Nat.min_eq_left (Nat.le_succ _), List.length_take]
  congr 2
  simp

theorem nextBefore_eq (display : Instant → String) (tables : Tables) (userId : Uuid) (query : ListQuery) :
    ((list tables userId query).hasMore = false ∧ nextBefore display (list tables userId query) = none) ∨
      ∃ last, (list tables userId query).hasMore = true ∧
        (list tables userId query).notifications.getLast? = some last ∧
        nextBefore display (list tables userId query) = some (display last.createdAt) := by
  have hpos := pageSize_pos query
  cases hmore : (list tables userId query).hasMore with
  | false => exact .inl ⟨rfl, by simp [nextBefore, hmore]⟩
  | true =>
    have hne : (list tables userId query).notifications ≠ [] := by
      intro hnil
      simp only [list, decide_eq_true_eq] at hmore
      simp only [list, List.take_eq_nil_iff] at hnil
      rcases hnil with hzero | hzero | hnone
      · omega
      · omega
      · rw [hnone] at hmore
        cases hmore
    refine .inr ⟨_, rfl, List.getLast?_eq_some_getLast hne, ?_⟩
    rw [nextBefore, hmore, if_pos rfl, List.getLast?_eq_some_getLast hne, Option.map_some]

theorem follows_iff_paging : Follows display parse tables userId query rows ↔
    Paging.Follows (Paging.keysetPage Notification.createdAt (pageSize query) (listed tables userId query))
      (cursorOf display parse) query.before rows := by
  constructor
  · intro h
    induction h with
    | @last query h =>
      have hpage := list_eq tables userId query
      rw [Prod.ext_iff] at hpage
      rw [show (list tables userId query).notifications = _ from hpage.1]
      refine .last ?_
      rw [← hpage.2]
      rcases nextBefore_eq display tables userId query with ⟨hmore, -⟩ | ⟨last, -, -, hnext⟩
      · exact hmore
      · rw [hnext] at h
        cases h
    | @more query text before rest h hparse _ ih =>
      have hpage := list_eq tables userId query
      rw [Prod.ext_iff] at hpage
      rcases nextBefore_eq display tables userId query with ⟨-, hnone⟩ | ⟨last, hmore, hlast, hnext⟩
      · rw [hnone] at h
        cases h
      · rw [hnext, Option.some.injEq] at h
        rw [show (list tables userId query).notifications = _ from hpage.1] at hlast ⊢
        exact .more (by rw [← hpage.2]; exact hmore) hlast (by rw [cursorOf, h]; exact hparse) ih
  · intro h
    -- The cursor is all of the query that changes on the way.
    have hall : ∀ before rows, Paging.Follows (Paging.keysetPage Notification.createdAt (pageSize query)
        (listed tables userId query)) (cursorOf display parse) before rows →
          Follows display parse tables userId { query with before := before } rows := by
      intro before rows h
      induction h with
      | @last before h =>
        have hpage := list_eq tables userId { query with before := before }
        rw [Prod.ext_iff] at hpage
        have hmore : (list tables userId { query with before := before }).hasMore = false := hpage.2.trans h
        have hlast : Follows display parse tables userId { query with before := before }
            (list tables userId { query with before := before }).notifications := .last (by simp [nextBefore, hmore])
        rwa [show (list tables userId { query with before := before }).notifications = _ from hpage.1] at hlast
      | @more before last c rest h hlast hcursor _ ih =>
        have hpage := list_eq tables userId { query with before := before }
        rw [Prod.ext_iff] at hpage
        have hmore : (list tables userId { query with before := before }).hasMore = true := hpage.2.trans h
        have hrows : (list tables userId { query with before := before }).notifications.getLast? = some last := by
          rw [show (list tables userId { query with before := before }).notifications = _ from hpage.1]
          exact hlast
        have hnext : nextBefore display (list tables userId { query with before := before }) =
            some (display last.createdAt) := by rw [nextBefore, hmore, if_pos rfl, hrows, Option.map_some]
        have hfirst := Follows.more hnext hcursor ih
        rwa [show (list tables userId { query with before := before }).notifications = _ from hpage.1] at hfirst
    exact hall query.before rows h

theorem pairwise_listed (tables : Tables) (userId : Uuid) (query : ListQuery) :
    (listed tables userId query).Pairwise fun a b => b.createdAt ≤ a.createdAt := by
  refine (Sorting.pairwise_sortBy newestFirst _).imp fun {a b} h => ?_
  rw [newestFirst, newestFirst, Prod.Lex.toLex_le_toLex, OrderDual.toDual_lt_toDual, OrderDual.toDual_inj] at h
  rcases h with hlt | ⟨heq, -⟩
  · exact le_of_lt hlt
  · exact le_of_eq heq.symm

theorem nodup_listed (tables : Tables) (userId : Uuid) (query : ListQuery) : (listed tables userId query).Nodup :=
  (Sorting.sortBy_perm newestFirst _).nodup_iff.mpr (tables.nodup.of_map.filter _)

theorem anyOf_eq {names : List String} (h : NamesOne names) (name : String) :
    anyOf names name = names.all fun other => name = other := by
  cases names with
  | nil => rfl
  | cons first rest =>
    rw [Bool.eq_iff_iff]
    simp only [anyOf, reduceCtorEq, decide_false, Bool.false_or, decide_eq_true_eq, List.all_eq_true]
    constructor
    · exact fun hname other hother => h name hname other hother
    · intro hall
      rw [hall first List.mem_cons_self]
      exact List.mem_cons_self

theorem namesOne_of_all {names : List String} {name : String} (h : names.all (fun other => name = other) = true) :
    NamesOne names := by
  rw [List.all_eq_true] at h
  exact fun a ha b hb => (of_decide_eq_true (h a ha)).symm.trans (of_decide_eq_true (h b hb))

theorem wanted_eq (hcategories : NamesOne query.categories) (hpriorities : NamesOne query.priorities) :
    wanted tables userId query = Paging.below Notification.createdAt query.before (listed tables userId query) := by
  rw [wanted, listed, Paging.below, Sorting.sortBy_filter, List.filter_filter]
  congr 2
  funext n
  rw [anyOf_eq hcategories, anyOf_eq hpriorities, Bool.and_comm]

theorem listed_eq_nil (h : ¬ (NamesOne query.categories ∧ NamesOne query.priorities)) :
    listed tables userId query = [] := by
  have hnone : (tables.notifications.filter fun n => pushScope tables userId query n &&
      (query.categories.all fun category => n.category = category) &&
        query.priorities.all fun priority => n.priority = priority) = [] := by
    refine List.filter_eq_nil_iff.mpr fun n _ hn => h ?_
    rw [Bool.and_eq_true, Bool.and_eq_true] at hn
    exact ⟨namesOne_of_all hn.1.2, namesOne_of_all hn.2⟩
  rw [listed, hnone]
  rfl

theorem below_listed_eq_nil (h : wanted tables userId query = []) :
    Paging.below Notification.createdAt query.before (listed tables userId query) = [] := by
  by_cases hone : NamesOne query.categories ∧ NamesOne query.priorities
  · rw [← wanted_eq hone.1 hone.2, h]
  · rw [listed_eq_nil hone]
    rfl

theorem follows_iff_borders (hcategories : NamesOne query.categories) (hpriorities : NamesOne query.priorities) :
    Follows display parse tables userId query (wanted tables userId query) ↔
      Paging.Borders Notification.createdAt (pageSize query) (cursorOf display parse) (wanted tables userId query) := by
  rw [follows_iff_paging, wanted_eq hcategories hpriorities]
  exact Paging.follows_iff (pageSize_pos query) (pairwise_listed tables userId query) (nodup_listed tables userId query)

theorem not_follows (hone : ¬ (NamesOne query.categories ∧ NamesOne query.priorities))
    (hsome : wanted tables userId query ≠ []) :
    ¬ Follows display parse tables userId query (wanted tables userId query) := by
  intro h
  obtain ⟨first, rest, hwanted⟩ := List.exists_cons_of_ne_nil hsome
  rw [follows_iff_paging, hwanted, listed_eq_nil hone] at h
  cases Paging.head?_of_follows (pageSize_pos query) h

end

/-- **The pages come to what the filter asks for** just when it names one of each kind at most, or asks for nothing that
there is, and the cursor keeps each border. -/
theorem follows_wanted_iff (display : Instant → String) (parse : String → Option Instant) (tables : Tables) (userId : Uuid)
    (query : ListQuery) : Follows display parse tables userId query (wanted tables userId query) ↔
      (wanted tables userId query = [] ∨ NamesOne query.categories ∧ NamesOne query.priorities) ∧
        Paging.Borders Notification.createdAt (pageSize query) (cursorOf display parse) (wanted tables userId query) := by
  by_cases hone : NamesOne query.categories ∧ NamesOne query.priorities
  · rw [follows_iff_borders hone.1 hone.2]
    simp [hone]
  · by_cases hnone : wanted tables userId query = []
    · have hpages : Paging.Follows (Paging.keysetPage Notification.createdAt (pageSize query)
            (listed tables userId query)) (cursorOf display parse) query.before
            (Paging.below Notification.createdAt query.before (listed tables userId query)) ↔
          Paging.Borders Notification.createdAt (pageSize query) (cursorOf display parse)
            (Paging.below Notification.createdAt query.before (listed tables userId query)) :=
        Paging.follows_iff (pageSize_pos query) (pairwise_listed tables userId query) (nodup_listed tables userId query)
      rw [below_listed_eq_nil hnone] at hpages
      rw [follows_iff_paging, hnone, hpages]
      simp
    · simp only [hone, hnone, or_self, false_and, iff_false]
      exact not_follows hone hnone

/-- Two notifications of one instant. -/
def twoAtOnce : Tables :=
  ⟨[⟨1, 7, "approval", "normal", none, none, 5⟩, ⟨2, 7, "approval", "normal", none, none, 5⟩], [], by decide⟩

/-- Everything, one by one. -/
def oneByOne : ListQuery := ⟨[], none, [], none, false, true, none, 1⟩

/-- With two categories named nothing is listed; and the second of two notifications of one instant is on no page. -/
theorem names_and_ties :
    ¬ Follows toString String.toInt? twoAtOnce 7 { oneByOne with categories := ["approval", "ticket"] }
      (wanted twoAtOnce 7 { oneByOne with categories := ["approval", "ticket"] }) ∧
    ¬ Follows toString String.toInt? twoAtOnce 7 oneByOne (wanted twoAtOnce 7 oneByOne) := by
  have hnames : ¬ NamesOne ["approval", "ticket"] := by
    unfold NamesOne
    decide
  constructor
  · exact not_follows (fun h => hnames h.1) (by decide)
  · rw [follows_iff_borders (by simp [NamesOne, oneByOne]) (by simp [NamesOne, oneByOne])]
    intro h
    obtain ⟨c, -, hnext, hlast⟩ := h [] ⟨2, 7, "approval", "normal", none, none, 5⟩
      ⟨1, 7, "approval", "normal", none, none, 5⟩ [] (by decide) (by decide)
    exact absurd (hnext.trans_le hlast) (lt_irrefl _)

end Omnion.Notifications.Inbox
