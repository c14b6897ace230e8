import Mathlib.Logic.Function.Basic
import Omnion.Library.Cursor
import Omnion.Library.Run
import Omnion.Events.Model

/-!
# The matcher

`drain` of `crates/automation/src/matcher.rs`, any number of it at once, interleaved in
any order with the transactions that insert events. An event has its identifier when it
is inserted (`insert_event`), and is seen by others when its transaction commits, so
events do not come into sight in the order of their identifiers. The matcher reads on
from a cursor as if they did.

## The model

A drain is one transaction. It locks the row of the cursor, or finds it locked and has
nothing to do; it reads the events after the cursor, hands them to the rules one by one,
moves the cursor, and commits. What it wrote is not there before the commit, and never
if it stops: then its lock goes with it. What the rules make of an event is up to the
step. `evaluated` has the events whose evaluation is durable.

## What is proved

* `run_exactlyOnce` — in the runs where a transaction that commits does so before a
  drain has read past its events, every event committed is evaluated once when the cursor
  has passed it, and not before; and the matcher alone gets to it.
* `skipped` — an event committed late is never evaluated.

## Honest scope

The bus is empty at the start, and the cursor at `0`. No event is deleted. The audit
trail of the rules that fired is written after the commit, and left out.
-/

namespace Omnion.Automation

open Events (Event NewEvent)

/-! ### Drains -/

/-- Hard ceiling of one drain's batch. -/
def maxBatch : ℤ := 1000

/-- What one rule makes of one event. -/
inductive RuleOutcome where
  /-- The workflow is not an event rule. -/
  | notARule
  /-- The stored rule is not readable. -/
  | unreadable (reason : String)
  /-- A condition does not hold of the payload. -/
  | unmet
  /-- A placeholder cannot be filled from the payload. -/
  | unresolved (reason : String)
  | started (execution : Uuid)

/-- What one drain did. -/
structure MatchReport where
  cursor : ℤ := 0
  evaluated : ℕ := 0
  matched : ℕ := 0
  /-- Rules that were evaluated and did not fire. -/
  skipped : ℕ := 0
  runs : List Uuid := []
  idle : Bool := false

namespace MatchReport

/-- One rule is evaluated. -/
def rule (report : MatchReport) : RuleOutcome → MatchReport
  | .notARule => report
  | .unreadable _ | .unmet | .unresolved _ => { report with skipped := report.skipped + 1 }
  | .started execution =>
    { report with matched := report.matched + 1, runs := report.runs ++ [execution] }

/-- One event is evaluated. An event of no tenant reaches no rule. -/
def event (report : MatchReport) (e : Event) (outcomes : List RuleOutcome) : MatchReport :=
  let report := { report with evaluated := report.evaluated + 1 }
  match e.organizationId with
  | none => report
  | some _ => outcomes.foldl rule report

end MatchReport

/-- How far a drain has come. -/
inductive Drain where
  | idle
  | locked (cursor : ℤ) (batch : ℕ)
  /-- Events are read, up to `last`; `rest` are still to be evaluated. -/
  | evaluating (events rest : List Event) (last : ℤ) (report : MatchReport)

/-! ### The bus -/

/-- The events, the cursor, the drains and what they answered. -/
structure Bus where
  /-- The identity column of `events`. -/
  nextId : ℤ := 1
  /-- The events of open transactions. -/
  inflight : List (ℕ × Event) := []
  committed : List Event := []
  /-- `automation_cursor.last_event_id`. -/
  cursor : ℤ := 0
  /-- The drain that has the cursor's row locked. -/
  holder : Option ℕ := none
  drains : ℕ → Drain := fun _ => .idle
  /-- The events whose evaluation was committed. -/
  evaluated : List ℤ := []
  /-- The reports of the drains that ended. -/
  reports : List MatchReport := []

/-- What happens. -/
inductive BusStep where
  /-- A transaction inserts an event, -/
  | insert (tx : ℕ) (new : NewEvent) (now : Instant)
  /-- commits, -/
  | commit (tx : ℕ)
  /-- or is rolled back. -/
  | rollback (tx : ℕ)
  /-- A drain locks the cursor, -/
  | lock (i : ℕ) (batch : ℤ)
  /-- reads the events after it, -/
  | read (i : ℕ)
  /-- evaluates one, -/
  | evaluate (i : ℕ) (outcomes : List RuleOutcome)
  /-- and moves the cursor and commits. -/
  | finish (i : ℕ)
  /-- A drain stops. -/
  | crash (i : ℕ)

/-- The drain that takes the step. -/
def BusStep.drainer : BusStep → Option ℕ
  | .lock i _ | .read i | .evaluate i _ | .finish i | .crash i => some i
  | .insert .. | .commit _ | .rollback _ => none

namespace Bus

/-- Drain `i` goes on. -/
def move (s : Bus) (i : ℕ) (p : Drain) : Bus := { s with drains := Function.update s.drains i p }

/-- Drain `i` ends, and gives up its lock. -/
def release (s : Bus) (i : ℕ) : Bus :=
  { s.move i .idle with holder := if s.holder = some i then none else s.holder }

/-- Drain `i` has read the events after the cursor. -/
def readEvents (s : Bus) (i : ℕ) (cursor : ℤ) (events : List Event) : Bus :=
  match events.getLast? with
  | none => { s.release i with reports := s.reports ++ [{ cursor, idle := true }] }
  | some last => s.move i (.evaluating events events last.id { cursor })

end Bus

def busStep (s : Bus) : BusStep → Option Bus
  | .insert tx new now =>
    some { s with nextId := s.nextId + 1, inflight := s.inflight ++ [(tx, new.row s.nextId now)] }
  | .commit tx =>
    some { s with
      committed := s.committed ++ (s.inflight.filter (·.1 = tx)).map (·.2)
      inflight := s.inflight.filter (·.1 ≠ tx) }
  | .rollback tx => some { s with inflight := s.inflight.filter (·.1 ≠ tx) }
  | .lock i batch =>
    match s.drains i with
    | .idle =>
      match s.holder with
      | none => some { s.move i (.locked s.cursor (max 1 (min batch maxBatch)).toNat) with holder := some i }
      | some _ => some { s with reports := s.reports ++ [{ idle := true }] }
    | _ => none
  | .read i =>
    match s.drains i with
    | .locked cursor batch => some (s.readEvents i cursor (Cursor.next Event.id cursor batch s.committed))
    | _ => none
  | .evaluate i outcomes =>
    match s.drains i with
    | .evaluating events (e :: rest) last report =>
      some (s.move i (.evaluating events rest last (report.event e outcomes)))
    | _ => none
  | .finish i =>
    match s.drains i with
    | .evaluating events [] last report =>
      some { s.release i with
        cursor := last, evaluated := s.evaluated ++ events.map (·.id)
        reports := s.reports ++ [{ report with cursor := last }] }
    | _ => none
  | .crash i => some (s.release i)

namespace Bus

/-- The bus before anything happens. -/
def empty : Bus := {}

/-- The event is seen. -/
def Visible (s : Bus) (id : ℤ) : Prop := ∃ e ∈ s.committed, e.id = id

/-- **Every event is evaluated once**: when the cursor has passed it, and not before. -/
def ExactlyOnce (s : Bus) : Prop :=
  (∀ e ∈ s.committed, s.evaluated.count e.id = if e.id ≤ s.cursor then 1 else 0) ∧
    ∀ id ∈ s.evaluated, s.Visible id

/-- How far events are read, whether their evaluation is committed or not. -/
def horizon (s : Bus) : ℤ :=
  match s.holder.map s.drains with
  | some (.evaluating _ _ last _) => last
  | _ => s.cursor

/-- **The steps allowed**: a transaction commits before a drain has read past its events. -/
def InOrder (s : Bus) : BusStep → Prop
  | .commit tx => ∀ x ∈ s.inflight, x.1 = tx → s.horizon < x.2.id
  | _ => True

def Knows (s : Bus) : Drain → Prop
  | .idle => True
  | .locked cursor _ => cursor = s.cursor
  | .evaluating events _ last _ =>
    s.cursor < last ∧ (events.map (·.id)).Nodup ∧
      ∀ k, k ∈ events.map (·.id) ↔ s.Visible k ∧ s.cursor < k ∧ k ≤ last

/-- The identifiers in use. -/
def ids (s : Bus) : List ℤ := s.committed.map (·.id) ++ s.inflight.map (·.2.id)

/-- **The invariant**: what was evaluated are the events up to the cursor, and the drain
that holds the cursor has read the next ones. -/
structure Sound (s : Bus) : Prop where
  nodup : s.ids.Nodup
  below : ∀ k ∈ s.ids, k < s.nextId
  exact : Cursor.Exact s.Visible s.cursor s.evaluated
  held : ∀ i, s.drains i ≠ .idle → s.holder = some i
  knows : ∀ i, s.Knows (s.drains i)

end Bus

section Steps

variable {s t : Bus} {i : ℕ} {p : Drain} {e : BusStep}

/-! ### The inserting transactions -/

theorem Bus.Sound.holds (h : s.Sound) (hi : s.drains i = p) (hp : p ≠ .idle) : s.holder = some i :=
  h.held i (hi ▸ hp)

theorem Bus.Sound.knows_of (h : s.Sound) (hi : s.drains i = p) : s.Knows p := hi ▸ h.knows i

theorem Bus.Sound.horizon_eq (h : s.Sound) {events rest : List Event} {last : ℤ} {report : MatchReport}
    (hi : s.drains i = .evaluating events rest last report) : s.horizon = last := by
  have hheld := h.holds hi (by rintro ⟨⟩)
  simp [horizon, hheld, hi]

theorem Bus.Sound.cursor_le (h : s.Sound) : s.cursor ≤ s.horizon := by
  cases hholder : s.holder with
  | none => simp [horizon, hholder]
  | some i =>
    cases hdrain : s.drains i with
    | evaluating events rest last report =>
      obtain ⟨hlt, -⟩ := h.knows_of hdrain
      rw [h.horizon_eq hdrain]
      exact le_of_lt hlt
    | _ => simp [horizon, hholder, hdrain]

theorem Bus.Sound.insert (h : s.Sound) (tx : ℕ) (new : NewEvent) (now : Instant) :
    Bus.Sound { s with nextId := s.nextId + 1, inflight := s.inflight ++ [(tx, new.row s.nextId now)] } := by
  have hids : Bus.ids { s with nextId := s.nextId + 1, inflight := s.inflight ++ [(tx, new.row s.nextId now)] } =
      s.ids ++ [s.nextId] := by
    simp [Bus.ids, NewEvent.row]
  refine ⟨?_, fun k hk => ?_, h.exact, h.held, h.knows⟩
  · rw [hids]
    refine List.nodup_append.mpr ⟨h.nodup, List.nodup_singleton _, fun a ha b hb hab => ?_⟩
    have hlt := h.below a ha
    rw [hab, List.mem_singleton.mp hb] at hlt
    exact lt_irrefl _ hlt
  · rw [hids] at hk
    show k < s.nextId + 1
    rcases List.mem_append.mp hk with hk | hk
    · have := h.below k hk
      omega
    · have := List.mem_singleton.mp hk
      omega

theorem Bus.Sound.rollback (h : s.Sound) (tx : ℕ) :
    Bus.Sound { s with inflight := s.inflight.filter (·.1 ≠ tx) } := by
  have hsub : (Bus.ids { s with inflight := s.inflight.filter (·.1 ≠ tx) }).Sublist s.ids :=
    (List.Sublist.refl _).append (List.filter_sublist.map _)
  exact ⟨h.nodup.sublist hsub, fun k hk => h.below k (hsub.subset hk), h.exact, h.held, h.knows⟩

/-- Events that come into sight are above the horizon. -/
theorem Bus.Sound.commit (h : s.Sound) {tx : ℕ} (hok : s.InOrder (.commit tx))
    (ht : busStep s (.commit tx) = some t) : t.Sound := by
  cases ht
  have hperm : (Bus.ids { s with
      committed := s.committed ++ (s.inflight.filter (·.1 = tx)).map (·.2)
      inflight := s.inflight.filter (·.1 ≠ tx) }).Perm s.ids := by
    have hsplit :=
      (List.filter_append_perm (fun x : ℕ × Event => decide (x.1 = tx)) s.inflight).map (·.2.id)
    simp only [Bus.ids, List.map_append, List.map_map, List.append_assoc, decide_not] at hsplit ⊢
    exact hsplit.append_left _
  have hnew : ∀ k, Bus.Visible { s with
      committed := s.committed ++ (s.inflight.filter (·.1 = tx)).map (·.2)
      inflight := s.inflight.filter (·.1 ≠ tx) } k → s.Visible k ∨ s.horizon < k := by
    rintro k ⟨e, he, rfl⟩
    rcases List.mem_append.mp he with he | he
    · exact .inl ⟨e, he, rfl⟩
    · obtain ⟨x, hx, rfl⟩ := List.mem_map.mp he
      obtain ⟨hx, htx⟩ := List.mem_filter.mp hx
      exact .inr (hok x hx (of_decide_eq_true htx))
  have hgrow : ∀ k, s.Visible k → Bus.Visible { s with
      committed := s.committed ++ (s.inflight.filter (·.1 = tx)).map (·.2)
      inflight := s.inflight.filter (·.1 ≠ tx) } k := fun k ⟨e, he, hid⟩ => ⟨e, List.mem_append_left _ he, hid⟩
  refine ⟨hperm.nodup_iff.mpr h.nodup, fun k hk => h.below k (hperm.mem_iff.mp hk), ?_, h.held, fun i => ?_⟩
  · exact h.exact.appear hgrow fun k hk => (hnew k hk).imp_right (lt_of_le_of_lt h.cursor_le)
  · cases hdrain : s.drains i with
    | idle => trivial
    | locked cursor batch =>
      have hcursor : cursor = s.cursor := h.knows_of hdrain
      exact hcursor
    | evaluating events rest last report =>
      obtain ⟨hlt, hnodup, hevents⟩ := h.knows_of hdrain
      refine ⟨hlt, hnodup, fun k => (hevents k).trans ⟨fun ⟨hk, hle⟩ => ⟨hgrow k hk, hle⟩, fun ⟨hk, hle⟩ => ?_⟩⟩
      refine ⟨(hnew k hk).resolve_right fun hpast => ?_, hle⟩
      rw [h.horizon_eq hdrain] at hpast
      exact absurd hle.2 (not_le.mpr hpast)

/-! ### The drains -/

theorem Bus.Sound.move (h : s.Sound) (hi : s.holder = some i) (hp : s.Knows p) :
    (s.move i p).Sound := by
  refine ⟨h.nodup, h.below, h.exact, ?_, ?_⟩
  · exact (Function.forall_update_iff s.drains fun j p => p ≠ .idle → s.holder = some j).mpr
      ⟨fun _ => hi, fun j _ => h.held j⟩
  · exact (Function.forall_update_iff s.drains fun _ p => s.Knows p).mpr ⟨hp, fun j _ => h.knows j⟩

theorem Bus.Sound.release (h : s.Sound) (i : ℕ) : (s.release i).Sound := by
  refine ⟨h.nodup, h.below, h.exact, ?_, ?_⟩
  · refine (Function.forall_update_iff s.drains fun j p => p ≠ .idle → (s.release i).holder = some j).mpr
      ⟨fun hidle => absurd rfl hidle, fun j hj hbusy => ?_⟩
    have hheld := h.held j hbusy
    have hne : s.holder ≠ some i := by
      rw [hheld]
      exact fun hji => hj (Option.some.inj hji)
    show (if s.holder = some i then none else s.holder) = some j
    rw [if_neg hne, hheld]
  · exact (Function.forall_update_iff s.drains fun _ p => s.Knows p).mpr ⟨trivial, fun j _ => h.knows j⟩

theorem Bus.Sound.lock (h : s.Sound) (hfree : s.holder = none) (batch : ℕ) :
    Bus.Sound { s.move i (.locked s.cursor batch) with holder := some i } := by
  have hidle : ∀ j, s.drains j = .idle := fun j => by
    by_contra hbusy
    rw [h.held j hbusy] at hfree
    cases hfree
  refine ⟨h.nodup, h.below, h.exact, ?_, ?_⟩
  · exact (Function.forall_update_iff s.drains fun j p => p ≠ .idle → some i = some j).mpr
      ⟨fun _ => rfl, fun j _ hbusy => absurd (hidle j) hbusy⟩
  · exact (Function.forall_update_iff s.drains fun _ p => s.Knows p).mpr ⟨rfl, fun j _ => h.knows j⟩

theorem Bus.Sound.nodup_committed (h : s.Sound) : (s.committed.map (·.id)).Nodup :=
  (List.nodup_append.mp h.nodup).1

theorem Bus.Sound.readEvents (h : s.Sound) (hi : s.holder = some i) (batch : ℕ) :
    (s.readEvents i s.cursor (Cursor.next Event.id s.cursor batch s.committed)).Sound := by
  unfold Bus.readEvents
  split
  · obtain ⟨hnodup, hbelow, hexact, hheld, hknows⟩ := h.release i
    exact ⟨hnodup, hbelow, hexact, hheld, hknows⟩
  · rename_i last hlast
    have hinj : ∀ a ∈ s.committed, ∀ b ∈ s.committed, a.id = b.id → a = b := fun a ha b hb =>
      List.inj_on_of_nodup_map h.nodup_committed ha hb
    have hmem := Cursor.mem_next_iff (a := last) hinj hlast
    obtain ⟨-, hcursor, -⟩ := hmem.mp (List.mem_of_getLast? hlast)
    refine h.move hi ⟨hcursor, Cursor.nodup_next h.nodup_committed, fun k => ?_⟩
    rw [List.mem_map]
    constructor
    · rintro ⟨e, he, rfl⟩
      obtain ⟨hseen, hbetween⟩ := (Cursor.mem_next_iff hinj hlast).mp he
      exact ⟨⟨e, hseen, rfl⟩, hbetween⟩
    · rintro ⟨⟨e, hseen, rfl⟩, hbetween⟩
      exact ⟨e, (Cursor.mem_next_iff hinj hlast).mpr ⟨hseen, hbetween⟩, rfl⟩

theorem Bus.Sound.finish (h : s.Sound) {events rest : List Event} {last : ℤ} {report : MatchReport}
    (hi : s.drains i = .evaluating events rest last report) (reports : List MatchReport) :
    Bus.Sound { s.release i with
      cursor := last, evaluated := s.evaluated ++ events.map (·.id), reports } := by
  have hheld := h.holds hi (by rintro ⟨⟩)
  obtain ⟨hlt, hnodup, hevents⟩ := h.knows_of hi
  refine ⟨h.nodup, h.below, h.exact.advance (le_of_lt hlt) hnodup hevents, (h.release i).held, ?_⟩
  refine (Function.forall_update_iff s.drains fun _ p => Bus.Knows { s.release i with
    cursor := last, evaluated := s.evaluated ++ events.map (·.id), reports } p).mpr ⟨trivial, fun j hj => ?_⟩
  -- no other drain is under way
  have hidle : s.drains j = .idle := by
    by_contra hbusy
    exact hj (Option.some.inj ((h.held j hbusy).symm.trans hheld))
  rw [hidle]
  trivial

/-- **One step keeps the invariant.** -/
theorem Bus.Sound.step (h : s.Sound) (hok : s.InOrder e) (ht : busStep s e = some t) : t.Sound := by
  cases e with
  | insert tx new now =>
    cases ht
    exact h.insert tx new now
  | commit tx => exact h.commit hok ht
  | rollback tx =>
    cases ht
    exact h.rollback tx
  | lock i batch =>
    simp only [busStep] at ht
    split at ht
    · split at ht
      · cases ht
        exact h.lock ‹_› _
      · cases ht
        exact ⟨h.nodup, h.below, h.exact, h.held, h.knows⟩
    · cases ht
  | read i =>
    simp only [busStep] at ht
    split at ht
    · rename_i cursor batch hlocked
      cases ht
      have hcursor : cursor = s.cursor := h.knows_of hlocked
      rw [hcursor]
      exact h.readEvents (h.holds hlocked (by rintro ⟨⟩)) batch
    · cases ht
  | evaluate i outcomes =>
    simp only [busStep] at ht
    split at ht
    · rename_i events event rest last report hevaluating
      cases ht
      have hknows := h.knows_of hevaluating
      exact h.move (h.holds hevaluating (by rintro ⟨⟩)) hknows
    · cases ht
  | finish i =>
    simp only [busStep] at ht
    split at ht
    · rename_i events last report hevaluating
      cases ht
      exact h.finish hevaluating _
    · cases ht
  | crash i =>
    cases ht
    exact h.release i

theorem Bus.sound_empty : Bus.empty.Sound where
  nodup := List.nodup_nil
  below := fun _ hk => absurd hk List.not_mem_nil
  exact := ⟨List.nodup_nil, fun _ => ⟨fun hk => absurd hk List.not_mem_nil, fun ⟨⟨_, he, _⟩, _⟩ =>
    absurd he List.not_mem_nil⟩⟩
  held := fun _ hbusy => absurd rfl hbusy
  knows := fun _ => trivial

theorem run_sound {es : List BusStep} (h : Transition.Run busStep Bus.InOrder .empty es s) : s.Sound :=
  h.invariant Bus.sound_empty fun _ _ _ hx hok hs => hx.step hok hs

theorem Bus.Sound.exactlyOnce (h : s.Sound) : s.ExactlyOnce :=
  ⟨fun e he => h.exact.count ⟨e, he, rfl⟩, fun id hid => ((h.exact.2 id).mp hid).1⟩

/-! ### A drain alone -/

/-- Drain `i` goes by itself from `s` to `t`, and no event comes. -/
def Bus.Alone (i : ℕ) (s t : Bus) : Prop :=
  ∃ es, Transition.Run busStep Bus.InOrder s es t ∧ (∀ x ∈ es, x.drainer = some i) ∧ t.committed = s.committed

theorem Bus.Alone.refl (i : ℕ) (s : Bus) : Bus.Alone i s s :=
  ⟨[], .nil, fun _ hx => absurd hx List.not_mem_nil, rfl⟩

theorem Bus.Alone.trans {u : Bus} (h : Bus.Alone i s t) (h' : Bus.Alone i t u) : Bus.Alone i s u := by
  obtain ⟨es, hrun, hes, hcommitted⟩ := h
  obtain ⟨es', hrun', hes', hcommitted'⟩ := h'
  refine ⟨es ++ es', hrun.trans hrun', fun x hx => ?_, hcommitted'.trans hcommitted⟩
  rcases List.mem_append.mp hx with hx | hx
  · exact hes x hx
  · exact hes' x hx

theorem Bus.Alone.step (hs : busStep s e = some t) (he : e.drainer = some i)
    (hcommitted : t.committed = s.committed) : Bus.Alone i s t := by
  have hok : s.InOrder e := by
    cases e with
    | commit tx => cases he
    | _ => trivial
  refine ⟨[e], .cons hok hs .nil, fun x hx => ?_, hcommitted⟩
  rw [List.mem_singleton.mp hx]
  exact he

theorem Bus.drains_move (s : Bus) (i : ℕ) (p : Drain) : (s.move i p).drains i = p :=
  Function.update_self ..

theorem Bus.evaluate_all {events : List Event} {last : ℤ} :
    ∀ (rest : List Event) (s : Bus) (report : MatchReport),
    s.drains i = .evaluating events rest last report →
      ∃ t report', Bus.Alone i s t ∧ t.drains i = .evaluating events [] last report' ∧ t.holder = s.holder
  | [], s, report, hi => ⟨s, report, .refl i s, hi, rfl⟩
  | e :: rest, s, report, hi => by
    have hs : busStep s (.evaluate i []) = some (s.move i (.evaluating events rest last (report.event e []))) := by
      simp only [busStep, hi]
    obtain ⟨t, report', halone, hdone, hholder⟩ := evaluate_all rest _ _ (Bus.drains_move s i _)
    exact ⟨t, report', (Bus.Alone.step hs rfl rfl).trans halone, hdone, hholder⟩

/-- A drain alone moves the cursor, when there is an event after it. -/
theorem Bus.Sound.drain_alone (h : s.Sound) (hfree : s.holder = none) (i : ℕ) (batch : ℤ) {e : Event}
    (he : e ∈ s.committed) (hnext : s.cursor < e.id) :
    ∃ t, Bus.Alone i s t ∧ t.holder = none ∧ s.cursor < t.cursor := by
  have hidle : s.drains i = .idle := by
    by_contra hbusy
    rw [h.held i hbusy] at hfree
    cases hfree
  generalize hsize : (max 1 (min batch maxBatch)).toNat = size
  have hsome : Cursor.next Event.id s.cursor size s.committed ≠ [] :=
    Cursor.next_ne_nil (by omega) he hnext
  generalize hevents : Cursor.next Event.id s.cursor size s.committed = events at hsome
  obtain ⟨last, hlast⟩ := Option.ne_none_iff_exists'.mp (mt List.getLast?_eq_none_iff.mp hsome)
  have hpast : s.cursor < last.id :=
    (Cursor.mem_of_mem_next (l := s.committed) (hevents ▸ List.mem_of_getLast? hlast)).2
  obtain ⟨u, hu⟩ : ∃ u : Bus, u = { s.move i (.locked s.cursor size) with holder := some i } := ⟨_, rfl⟩
  have hcommitted : u.committed = s.committed := by
    rw [hu]
    rfl
  have hlock : busStep s (.lock i batch) = some u := by
    simp only [busStep, hidle, hfree, hsize, hu]
  have hread : busStep u (.read i) = some (u.move i (.evaluating events events last.id { cursor := s.cursor })) := by
    have hlocked : u.drains i = .locked s.cursor size := by
      rw [hu]
      exact Bus.drains_move s i _
    simp only [busStep, hlocked, hcommitted, hevents, Bus.readEvents, hlast]
  obtain ⟨t, report, halone, hdone, hholder⟩ := Bus.evaluate_all events _ _
    (Bus.drains_move u i (.evaluating events events last.id { cursor := s.cursor }))
  have hfinish : busStep t (.finish i) = some { t.release i with
      cursor := last.id, evaluated := t.evaluated ++ events.map (·.id)
      reports := t.reports ++ [{ report with cursor := last.id }] } := by
    simp only [busStep, hdone]
  refine ⟨_, (((Bus.Alone.step hlock rfl hcommitted).trans (.step hread rfl rfl)).trans halone).trans
    (.step hfinish rfl rfl), ?_, hpast⟩
  show (if t.holder = some i then none else t.holder) = none
  rw [hholder, hu]
  exact if_pos rfl

theorem Bus.Sound.reach (i : ℕ) (batch : ℤ) {e : Event} :
    ∀ (n : ℕ) (s : Bus), s.Sound → s.holder = none →
    e ∈ s.committed → e.id ≤ s.cursor + n → ∃ t, Bus.Alone i s t ∧ e.id ≤ t.cursor
  | 0, s, _, _, _, hle => ⟨s, .refl i s, by omega⟩
  | n + 1, s, h, hfree, he, hle => by
    by_cases hpast : e.id ≤ s.cursor
    · exact ⟨s, .refl i s, hpast⟩
    · obtain ⟨t, halone, hfree', hmoved⟩ := h.drain_alone hfree i batch he (not_le.mp hpast)
      obtain ⟨es, hrun, -, hcommitted⟩ := id halone
      have hsound : t.Sound := hrun.invariant h fun _ _ _ hx hok hs => hx.step hok hs
      obtain ⟨u, halone', hreached⟩ := reach i batch n t hsound hfree' (hcommitted ▸ he) (by omega)
      exact ⟨u, halone.trans halone', hreached⟩

/-- **Exactly once**: over any interleaving of inserting transactions, their commits and
drains in which a transaction commits before a drain has read past its events, every
event committed is evaluated once when the cursor has passed it and not before, and
drains alone bring the cursor to it. -/
theorem run_exactlyOnce {es : List BusStep} (h : Transition.Run busStep Bus.InOrder .empty es s) :
    s.ExactlyOnce ∧ (s.holder = none → ∀ i, ∀ e ∈ s.committed,
      ∃ t, Bus.Alone i s t ∧ t.evaluated.count e.id = 1) := by
  have hsound := run_sound h
  refine ⟨hsound.exactlyOnce, fun hfree i e he => ?_⟩
  obtain ⟨t, halone, hreached⟩ := hsound.reach i maxBatch (e.id - s.cursor).toNat s hfree he (by omega)
  obtain ⟨es, hrun, -, hcommitted⟩ := id halone
  have hsound' : t.Sound := hrun.invariant hsound fun _ _ _ hx hok hs => hx.step hok hs
  exact ⟨t, halone, (hsound'.exactlyOnce.1 e (hcommitted ▸ he)).trans (if_pos hreached)⟩

/-- Two transactions insert events `1` and `2`; the second commits and a drain reads
it; then the first commits. -/
def commitsLate : List BusStep :=
  [.insert 1 { name := "page.published" } 0, .insert 2 { name := "page.published" } 0, .commit 2, .lock 0 100,
    .read 0, .evaluate 0 [], .finish 0, .commit 1]

/-- Event `1` is behind the cursor, and was never evaluated. -/
theorem skipped :
    ¬ ∀ (es : List BusStep) (s : Bus), Transition.Run busStep Transition.Any .empty es s →
      s.ExactlyOnce ∧ (s.holder = none → ∀ i, ∀ e ∈ s.committed,
        ∃ t, Bus.Alone i s t ∧ t.evaluated.count e.id = 1) := by
  intro h
  have hexec : (Transition.exec busStep .empty commitsLate).map
      (fun s => (s.committed.map (·.id), s.cursor, s.evaluated)) = some ([2, 1], 2, [2]) := by decide
  obtain ⟨s, hs, hresult⟩ := Transition.Run.of_exec_map hexec
  obtain ⟨hcommitted, hcursor, hevaluated⟩ : _ ∧ s.cursor = 2 ∧ s.evaluated = [2] := by
    simpa only [Prod.mk.injEq] using hresult
  obtain ⟨e, he, hid⟩ : ∃ e ∈ s.committed, e.id = 1 := List.mem_map.mp (by rw [hcommitted]; decide)
  have honce := (h commitsLate s hs).1.1 e he
  rw [hid, hcursor, hevaluated] at honce
  exact absurd honce (by decide)

/-- Both transactions commit before the drain, the second first. -/
def commitsInTime : List BusStep :=
  [.insert 1 { name := "page.published" } 0, .insert 2 { name := "page.published" } 0, .commit 2, .commit 1,
    .lock 0 100, .read 0, .evaluate 0 [], .evaluate 0 [], .finish 0]

/-- The drain evaluates both, in the order of their identifiers. -/
theorem run_exactlyOnce_commitsInTime :
    ∃ s, Transition.Run busStep Bus.InOrder .empty commitsInTime s ∧ s.evaluated = [1, 2] ∧
      (s.ExactlyOnce ∧ (s.holder = none → ∀ i, ∀ e ∈ s.committed,
        ∃ t, Bus.Alone i s t ∧ t.evaluated.count e.id = 1)) := by
  have hpass : ∀ (s : Bus) (e : BusStep), (s.inflight.all fun x => s.horizon < x.2.id) = true → s.InOrder e := by
    intro s e hall
    cases e with
    | commit tx => exact fun x hx _ => of_decide_eq_true (List.all_eq_true.mp hall x hx)
    | _ => trivial
  have hexec : (Transition.exec (fun s e => if s.inflight.all fun x => s.horizon < x.2.id then busStep s e else none)
      .empty commitsInTime).map (·.evaluated) = some [1, 2] := by decide
  obtain ⟨s, hrun, hevaluated⟩ := Transition.Run.of_exec_of_map hpass hexec
  exact ⟨s, hrun, hevaluated, run_exactlyOnce hrun⟩

end Steps

end Omnion.Automation
