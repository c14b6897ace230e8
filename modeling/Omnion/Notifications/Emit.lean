import Mathlib.Logic.Function.Basic
import Omnion.Library.Run
import Omnion.Notifications.Delivery

/-!
# Recording a notification with its deliveries

`record_with_deliveries` of `crates/notifications/src/store.rs`: one insert of the notification, two
reads of the reader's preferences, and one insert for each delivery, each of them a transaction of
its own. An insert that finds the fact recorded ends the call.

## The model

Any number of calls make their statements in any order. A call may be lost before any of them; a
retry is another call. Preferences may change at any time.

## What is proved

* `run_reliable_iff` — every answer is of a notification with all its rows, all through a run, just
  when nobody finds a fact recorded by a call that has still to write the row of the panel.

## Honest scope

A statement the database refuses is a call that is lost.
-/

namespace Omnion.Notifications

open Transition

/-! ### Calls -/

/-- A notification as it is stored. -/
structure Notification extends NewNotification where
  id : Uuid
  organizationId : Option Uuid
  emittedBy : Option Uuid
  createdAt : Instant

/-- How far a call has come. -/
inductive Stage where
  /-- The draft did not validate. -/
  | refused (error : NotificationError)
  /-- It will insert the notification, -/
  | insert
  /-- read the channels that are allowed, -/
  | allowed (id : Uuid)
  /-- read those switched off, -/
  | disabled (id : Uuid) (allowed : List String)
  /-- and insert these rows. -/
  | enqueue (id : Uuid) (rows : List QueuedRow) (report : EnqueueReport)
  /-- It has answered: the new notification, or nothing when it was there. -/
  | answered (answer : Option (Uuid × EnqueueReport))

/-- The notification a call has recorded. -/
def Stage.recorded : Stage → Option Uuid
  | .allowed id | .disabled id _ | .enqueue id .. => some id
  | .answered answer => answer.map (·.1)
  | .refused _ | .insert => none

/-- The row of the panel is still to come. -/
def Stage.waiting : Stage → Bool
  | .allowed _ | .disabled .. => true
  | .enqueue _ rows _ => rows.any (·.channel = IN_APP)
  | .refused _ | .insert | .answered _ => false

/-- A call of `record_with_deliveries`. -/
structure Call where
  organizationId : Option Uuid
  emittedBy : Option Uuid
  draft : NewNotification
  stage : Stage
  lost : Bool := false

/-- The tables and the calls. -/
structure Outbox where
  notifications : Table Notification Notification.id := .empty
  deliveries : Table Delivery Delivery.id := .empty
  preferences : Uuid → List PreferenceCell := fun _ => []
  calls : List Call := []

namespace Outbox

/-- What a person may be reached over. -/
def preferencesOf (s : Outbox) (userId : Uuid) : Preferences := readPreferences (s.preferences userId)

/-- Call `i` goes on. -/
def goes (s : Outbox) (i : ℕ) (stage : Stage) : Outbox :=
    { s with calls := s.calls.modify i fun call => { call with stage } }

/-- The unique index over the reader and the key. -/
def collides (n : Notification) (draft : NewNotification) : Bool :=
  draft.dedupeKey.isSome && n.userId = draft.userId && n.dedupeKey = draft.dedupeKey

/-- The insert of call `i`. -/
def insertNotification (s : Outbox) (i : ℕ) (call : Call) (id : Uuid) (now : Instant) : Option Outbox :=
  if s.notifications.rows.any (collides · call.draft) then some (s.goes i (.answered none))
  else
    (s.notifications.insert? { call.draft with
      id, organizationId := call.organizationId, emittedBy := call.emittedBy, createdAt := now }).map
      fun notifications => { s.goes i (.allowed id) with notifications }

/-- The next statement of call `i`. -/
def statement (s : Outbox) (i : ℕ) (call : Call) (id : Uuid) (now : Instant) : Option Outbox :=
  match call.stage with
  | .refused _ => none
  | .insert => s.insertNotification i call id now
  | .allowed n => some (s.goes i (.disabled n ((s.preferencesOf call.draft.userId).allowedChannels
    call.draft.category)))
  | .disabled n allowed =>
    some (s.goes i (.enqueue n (enqueue allowed ((s.preferencesOf call.draft.userId).disabledChannels
      call.draft.category)) {}))
  | .enqueue n [] report => some (s.goes i (.answered (some (n, report))))
  | .enqueue n (row :: rows) report =>
    (insertDelivery s.deliveries (row.delivery id n now)).map fun (inserted, deliveries) =>
      { s.goes i (.enqueue n rows (report.count row inserted)) with deliveries }
  | .answered _ => none

end Outbox

/-- What happens. -/
inductive EmitEvent where
  | emit (organizationId emittedBy : Option Uuid) (draft : NewNotification)
  /-- A call makes its next statement, with the identifier the database gives a row. -/
  | statement (i : ℕ) (id : Uuid) (now : Instant)
  | lose (i : ℕ)
  | prefer (userId : Uuid) (stated : List PreferenceCell)

namespace Outbox

def step (s : Outbox) : EmitEvent → Option Outbox
  | .emit organizationId emittedBy draft =>
    let stage := match draft.build with
      | .error error => .refused error
      | .ok _ => .insert
    some { s with calls := s.calls ++ [{ organizationId, emittedBy, draft, stage }] }
  | .statement i id now =>
    match s.calls[i]? with
    | none => none
    | some call => if call.lost then none else s.statement i call id now
  | .lose i => some { s with calls := s.calls.modify i fun call => { call with lost := true } }
  | .prefer userId stated => some { s with preferences := Function.update s.preferences userId stated }

/-! ### What an answer promises -/

/-- The notification has a row for the channel. -/
def HasRow (s : Outbox) (id : Uuid) (channel : String) : Prop := ∃ d ∈ s.deliveries, d.isFor id channel = true

/-- The notification is the one an answer is about. -/
def IsOf (n : Notification) (draft : NewNotification) (answer : Option (Uuid × EnqueueReport)) : Prop :=
  n.userId = draft.userId ∧ n.dedupeKey = draft.dedupeKey ∧ ∀ r ∈ answer, n.id = r.1

/-- **Every answer** is of a notification that has a row for the panel and for every channel the
queue accepts and its reader
has on. -/
def Reliable (s : Outbox) : Prop := ∀ call ∈ s.calls, ∀ answer, call.stage = .answered answer →
  ∃ n ∈ s.notifications, IsOf n call.draft answer ∧ s.HasRow n.id IN_APP ∧
    ∀ channel ∈ QUEUEABLE, (s.preferencesOf n.userId).allows n.category channel = true → s.HasRow n.id channel

/-- **The reads agree**: what is on when a call reads what is off was on when it read what is allowed. -/
def Steady (s : Outbox) : EmitEvent → Prop
  | .statement i .. => ∀ call n allowed, s.calls[i]? = some call → call.stage = .disabled n allowed →
    ∀ channel ∈ QUEUEABLE, (s.preferencesOf call.draft.userId).allows call.draft.category channel
      = true → channel ∈ allowed
  | _ => True

/-- **Nobody is early**: a call finds a fact recorded only by a call that has written the row of the panel. -/
def Prompt (s : Outbox) : EmitEvent → Prop
  | .statement i .. => ∀ call, s.calls[i]? = some call → call.lost = false → call.stage = .insert →
    ∀ n ∈ s.notifications, collides n call.draft = true → ∀ other ∈ s.calls, other.stage.recorded = some n.id →
      other.stage.waiting = false
  | _ => True

/-! ### The invariant -/

/-- The notification has a row for the panel and for every channel the queue accepts. -/
def Full (s : Outbox) (id : Uuid) : Prop := s.HasRow id IN_APP ∧ ∀ channel ∈ QUEUEABLE, s.HasRow id channel

/-- What a call has written so far. -/
def Progress (s : Outbox) : Stage → Prop
  | .allowed n | .disabled n _ => ¬ s.HasRow n IN_APP
  | .enqueue n rows _ =>
    (∃ before, rows = before ++ inAppRow :: untransportedRows ∧ (∀ row ∈ before, row.channel ≠ IN_APP) ∧
      ¬ s.HasRow n IN_APP ∧
      ∀ channel ∈ QUEUEABLE, (∃ row ∈ before, row.channel = channel) ∨ s.HasRow n channel) ∨
      (∀ row ∈ rows, row.channel ≠ IN_APP) ∧ s.Full n
  | .answered (some (n, _)) => s.Full n
  | .answered none | .refused _ | .insert => True

/-- **The invariant.** -/
structure Sound (s : Outbox) : Prop where
  /-- A fact is recorded once. -/
  once : ∀ n ∈ s.notifications, ∀ m ∈ s.notifications, n.dedupeKey.isSome = true → n.userId = m.userId →
    n.dedupeKey = m.dedupeKey → n = m
  /-- Every notification was recorded by a call. -/
  created : ∀ n ∈ s.notifications, ∃ call ∈ s.calls, call.stage.recorded = some n.id
  /-- What a call has recorded is its own draft, -/
  recorded : ∀ call ∈ s.calls, ∀ id, call.stage.recorded = some id →
    ∃ n ∈ s.notifications, n.id = id ∧ n.userId = call.draft.userId ∧ n.dedupeKey = call.draft.dedupeKey
  /-- and nobody else's. -/
  own : ∀ (i j : ℕ) (call other : Call) (id : Uuid), s.calls[i]? = some call → s.calls[j]? = some other →
    call.stage.recorded = some id →
    other.stage.recorded = some id → i = j
  /-- Deliveries are of notifications. -/
  owned : ∀ d ∈ s.deliveries, ∃ n ∈ s.notifications, n.id = d.notificationId
  /-- Calls have written what they had to. -/
  progress : ∀ call ∈ s.calls, s.Progress call.stage

variable {s t : Outbox} {i : ℕ} {call : Call} {stage : Stage}

theorem Sound.empty : Sound {} where
  once := fun _ hn => nomatch hn
  created := fun _ hn => nomatch hn
  recorded := fun _ hcall => nomatch hcall
  own := fun _ _ _ _ _ hcall => nomatch hcall
  owned := fun _ hd => nomatch hd
  progress := fun _ hcall => nomatch hcall

theorem HasRow.mono {id : Uuid} {channel : String} (h : s.HasRow id channel)
    (hkept : ∀ d ∈ s.deliveries, d ∈ t.deliveries) :
    t.HasRow id channel := by
  obtain ⟨d, hd, hfor⟩ := h
  exact ⟨d, hkept d hd, hfor⟩

theorem Full.mono {id : Uuid} (h : s.Full id) (hkept : ∀ d ∈ s.deliveries, d ∈ t.deliveries) : t.Full id :=
  ⟨h.1.mono hkept, fun channel hchannel => (h.2 channel hchannel).mono hkept⟩

theorem Progress.congr (h : s.Progress stage) (hrows : ∀ id, stage.recorded = some id → ∀ channel, t.HasRow id channel ↔
    s.HasRow id channel) :
    t.Progress stage := by
  have hfull : ∀ id, stage.recorded = some id → s.Full id → t.Full id := fun id hid hfull =>
    ⟨(hrows id hid _).mpr hfull.1, fun channel hchannel => (hrows id hid _).mpr (hfull.2 channel hchannel)⟩
  cases stage with
  | refused error => trivial
  | insert => trivial
  | allowed n => exact fun hrow => h ((hrows n rfl _).mp hrow)
  | disabled n allowed => exact fun hrow => h ((hrows n rfl _).mp hrow)
  | enqueue n rows report =>
    rcases h with ⟨before, heq, hbefore, hnone, hqueued⟩ | ⟨hafter, hn⟩
    · refine .inl ⟨before, heq, hbefore, fun hrow => hnone ((hrows n rfl _).mp hrow), fun channel hchannel => ?_⟩
      exact (hqueued channel hchannel).imp_right (hrows n rfl channel).mpr
    · exact .inr ⟨hafter, hfull n rfl hn⟩
  | answered answer =>
    cases answer with
    | none => trivial
    | some r => exact hfull r.1 rfl h

/-- What lacks the row of the panel is waited for. -/
theorem Progress.waiting {id : Uuid} (h : s.Progress stage) (hid : stage.recorded = some id) :
    (stage.waiting = true → ¬ s.HasRow id IN_APP) ∧ (stage.waiting = false → s.Full id) := by
  cases stage with
  | refused error => cases hid
  | insert => cases hid
  | allowed n =>
    cases hid
    exact ⟨fun _ => h, nofun⟩
  | disabled n allowed =>
    cases hid
    exact ⟨fun _ => h, nofun⟩
  | enqueue n rows report =>
    cases hid
    rcases h with ⟨before, rfl, -, hnone, -⟩ | ⟨hafter, hfull⟩
    · exact ⟨fun _ => hnone, fun hwaiting => by simp [Stage.waiting, inAppRow] at hwaiting⟩
    · refine ⟨fun hwaiting => ?_, fun _ => hfull⟩
      obtain ⟨row, hrow, hpanel⟩ := List.any_eq_true.mp hwaiting
      exact absurd (of_decide_eq_true hpanel) (hafter row hrow)
  | answered answer =>
    obtain ⟨r, rfl, rfl⟩ := Option.map_eq_some_iff.mp hid
    exact ⟨nofun, fun _ => h⟩

/-- **What has the row of the panel** has all its rows. -/
theorem Sound.full_of_row (h : s.Sound) {n : Notification} (hn : n ∈ s.notifications)
    (hrow : s.HasRow n.id IN_APP) : s.Full n.id := by
  obtain ⟨call, hcall, hrecorded⟩ := h.created n hn
  have hprogress := (h.progress call hcall).waiting hrecorded
  cases hwaiting : call.stage.waiting with
  | true => exact absurd hrow (hprogress.1 hwaiting)
  | false => exact hprogress.2 hwaiting

/-! ### Steps -/

theorem mem_goes {other : Call} {j : ℕ} (hcall : s.calls[i]? = some call)
    (hj : (s.calls.modify i fun call => { call with stage })[j]? = some other) :
    j = i ∧ other = { call with stage } ∨ j ≠ i ∧ s.calls[j]? = some other := by
  by_cases hij : i = j
  · subst hij
    rw [List.getElem?_modify_eq, hcall] at hj
    exact .inl ⟨rfl, (Option.some.inj hj).symm⟩
  · rw [List.getElem?_modify_ne _ _ hij] at hj
    exact .inr ⟨Ne.symm hij, hj⟩

/-- **A call goes on** with what it has recorded, and writes rows of that. -/
theorem Sound.advance (h : s.Sound) (hcall : s.calls[i]? = some call) (hrecorded : stage.recorded = call.stage.recorded)
    (hcalls : t.calls = (s.goes i stage).calls) (hnotifications : t.notifications = s.notifications)
    (hkept : ∀ d ∈ s.deliveries, d ∈ t.deliveries)
    (hnew : ∀ d ∈ t.deliveries, d ∈ s.deliveries ∨ call.stage.recorded = some d.notificationId)
      (hprogress : t.Progress stage) :
    t.Sound := by
  have hmem : ∀ {j : ℕ} {other : Call}, t.calls[j]? = some other →
      j = i ∧ other = { call with stage } ∨ j ≠ i ∧ s.calls[j]? = some other :=
        fun hj => mem_goes hcall (by rwa [hcalls] at hj)
  -- a call of `t` has recorded what it had in `s`
  have hbefore : ∀ {j : ℕ} {other : Call}, t.calls[j]? = some other →
      ∃ before : Call, s.calls[j]? = some before ∧ before.draft = other.draft ∧
        before.stage.recorded = other.stage.recorded := by
    intro j other hj
    rcases hmem hj with ⟨rfl, rfl⟩ | ⟨-, hj⟩
    · exact ⟨call, hcall, rfl, hrecorded.symm⟩
    · exact ⟨other, hj, rfl, rfl⟩
  refine ⟨by rw [hnotifications]; exact h.once, fun n hn => ?_, fun other hother id hid => ?_,
    fun j k a b id hj hk ha hb => ?_, fun d hd => ?_,
    fun other hother => ?_⟩
  · rw [hnotifications] at hn
    obtain ⟨before, hmem', hid⟩ := h.created n hn
    obtain ⟨j, hj⟩ := List.mem_iff_getElem?.mp hmem'
    by_cases hij : i = j
    · subst hij
      obtain rfl := Option.some.inj (hcall.symm.trans hj)
      refine ⟨{ call with stage }, List.mem_iff_getElem?.mpr ⟨i, ?_⟩, hrecorded.trans hid⟩
      rw [hcalls, goes, List.getElem?_modify_eq, hcall]
      rfl
    · refine ⟨before, List.mem_iff_getElem?.mpr ⟨j, ?_⟩, hid⟩
      rw [hcalls, goes, List.getElem?_modify_ne _ _ hij, hj]
  · obtain ⟨j, hj⟩ := List.mem_iff_getElem?.mp hother
    obtain ⟨before, hj', hdraft, hsame⟩ := hbefore hj
    rw [hnotifications, ← hdraft]
    exact h.recorded before (List.mem_of_getElem? hj') id (hsame.trans hid)
  · obtain ⟨a', hj', -, ha'⟩ := hbefore hj
    obtain ⟨b', hk', -, hb'⟩ := hbefore hk
    exact h.own j k a' b' id hj' hk' (ha'.trans ha) (hb'.trans hb)
  · rw [hnotifications]
    rcases hnew d hd with hd | hd
    · exact h.owned d hd
    · obtain ⟨n, hn, hid, -⟩ := h.recorded call (List.mem_of_getElem? hcall) _ hd
      exact ⟨n, hn, hid⟩
  · obtain ⟨j, hj⟩ := List.mem_iff_getElem?.mp hother
    rcases hmem hj with ⟨-, rfl⟩ | ⟨hne, hj⟩
    · exact hprogress
    · refine (h.progress other (List.mem_of_getElem? hj)).congr fun id hid channel =>
        ⟨fun ⟨d, hd, hfor⟩ => ?_, fun hrow => hrow.mono hkept⟩
      rcases hnew d hd with hd | hd
      · exact ⟨d, hd, hfor⟩
      · -- the new row is of what another call has recorded
        rw [Delivery.isFor, Bool.and_eq_true, decide_eq_true_eq] at hfor
        rw [hfor.1] at hd
        exact absurd (h.own j i other call id hj hcall hid hd) hne

/-- A call that finds nothing recorded records its draft. -/
theorem Sound.inserted (h : s.Sound) (hcall : s.calls[i]? = some call) (hinsert : call.stage = .insert)
    {id : Uuid} {n : Notification} {notifications : Table Notification Notification.id}
    (hn : n.id = id ∧ n.userId = call.draft.userId ∧ n.dedupeKey = call.draft.dedupeKey)
    (hfree : ∀ m ∈ s.notifications, collides m call.draft = false)
      (hnotifications : s.notifications.insert? n = some notifications) :
    ({ s.goes i (.allowed id) with notifications } : Outbox).Sound := by
  have hfresh := (Table.insert?_eq_some hnotifications).1
  have hmem : ∀ m, m ∈ notifications ↔ m ∈ s.notifications ∨ m = n := fun m => Table.mem_insert? hnotifications
  have hother : ∀ m ∈ s.notifications, m.dedupeKey.isSome = true → m.userId = n.userId → m.dedupeKey ≠ n.dedupeKey := by
    intro m hm hkey huser hsame
    have hcollides := hfree m hm
    rw [hn.2.1] at huser
    rw [hn.2.2] at hsame
    simp [collides, ← hsame, hkey, huser] at hcollides
  have hnone : ∀ d ∈ s.deliveries, d.notificationId ≠ id := by
    intro d hd hid
    obtain ⟨m, hm, hm'⟩ := h.owned d hd
    exact Table.find?_eq_none.mp hfresh m hm (hm'.trans (hid.trans hn.1.symm))
  have hunused : ∀ other ∈ s.calls, other.stage.recorded ≠ some id := by
    intro other hother hid
    obtain ⟨m, hm, hm', -⟩ := h.recorded other hother id hid
    exact Table.find?_eq_none.mp hfresh m hm (hm'.trans hn.1.symm)
  refine ⟨fun m hm k hk hkey huser hsame => ?_, fun m hm => ?_, fun other hother id' hid => ?_,
    fun j k a b id' hj hk ha hb => ?_,
    fun d hd => ?_, fun other hother => ?_⟩
  · rcases (hmem m).mp hm with hm | rfl
    · rcases (hmem k).mp hk with hk | rfl
      · exact h.once m hm k hk hkey huser hsame
      · exact absurd hsame (hother m hm hkey huser)
    · rcases (hmem k).mp hk with hk | rfl
      · exact absurd hsame.symm (hother k hk (hsame ▸ hkey) huser.symm)
      · rfl
  · rcases (hmem m).mp hm with hm | rfl
    · obtain ⟨before, hbefore, hid⟩ := h.created m hm
      obtain ⟨j, hj⟩ := List.mem_iff_getElem?.mp hbefore
      refine ⟨before, List.mem_iff_getElem?.mpr ⟨j, ?_⟩, hid⟩
      rw [goes, List.getElem?_modify_ne]
      · exact hj
      · rintro rfl
        obtain rfl := Option.some.inj (hcall.symm.trans hj)
        rw [hinsert] at hid
        cases hid
    · refine ⟨{ call with stage := .allowed id }, List.mem_iff_getElem?.mpr ⟨i, ?_⟩, congrArg some hn.1.symm⟩
      rw [goes, List.getElem?_modify_eq, hcall]
      rfl
  · obtain ⟨j, hj⟩ := List.mem_iff_getElem?.mp hother
    rcases mem_goes hcall hj with ⟨-, rfl⟩ | ⟨-, hj⟩
    · cases hid
      exact ⟨n, (hmem n).mpr (.inr rfl), hn⟩
    · obtain ⟨m, hm, hsame⟩ := h.recorded other (List.mem_of_getElem? hj) id' hid
      exact ⟨m, (hmem m).mpr (.inl hm), hsame⟩
  · rcases mem_goes hcall hj with ⟨rfl, rfl⟩ | ⟨-, hj'⟩
    · cases ha
      rcases mem_goes hcall hk with ⟨rfl, -⟩ | ⟨-, hk'⟩
      · rfl
      · exact absurd hb (hunused b (List.mem_of_getElem? hk'))
    · rcases mem_goes hcall hk with ⟨rfl, rfl⟩ | ⟨-, hk'⟩
      · cases hb
        exact absurd ha (hunused a (List.mem_of_getElem? hj'))
      · exact h.own j k a b id' hj' hk' ha hb
  · obtain ⟨m, hm, hid⟩ := h.owned d hd
    exact ⟨m, (hmem m).mpr (.inl hm), hid⟩
  · obtain ⟨j, hj⟩ := List.mem_iff_getElem?.mp hother
    rcases mem_goes hcall hj with ⟨-, rfl⟩ | ⟨-, hj⟩
    · rintro ⟨d, hd, hfor⟩
      rw [Delivery.isFor, Bool.and_eq_true, decide_eq_true_eq] at hfor
      exact hnone d hd hfor.1
    · exact (h.progress other (List.mem_of_getElem? hj)).congr fun _ _ _ => Iff.rfl

theorem progress_enqueue {n : Uuid} {allowed : List String} (report : EnqueueReport) (h : ¬ s.HasRow n IN_APP)
    (hsteady : ∀ channel ∈ QUEUEABLE, (s.preferencesOf call.draft.userId).allows call.draft.category channel = true →
      channel ∈ allowed) :
    s.Progress (.enqueue n (enqueue allowed ((s.preferencesOf call.draft.userId).disabledChannels call.draft.category))
      report) := by
  refine .inl ⟨_, rfl, fun row hrow => readerRows_ne hrow, h, fun channel hchannel => .inl (mem_readerRows hchannel ?_)⟩
  have hclosed : ∀ c ∈ QUEUEABLE, c ∈ CHANNELS := by decide
  cases hallows : (s.preferencesOf call.draft.userId).allows call.draft.category channel with
  | true => exact .inl (hsteady channel hchannel hallows)
  | false => exact .inr (mem_disabledChannels.mpr ⟨hclosed channel hchannel, hallows⟩)

/-- One more row. -/
theorem Progress.insert {n id : Uuid} {row : QueuedRow} {rows : List QueuedRow}
    {report report' : EnqueueReport} {now : Instant}
    {inserted : Bool} {deliveries : Table Delivery Delivery.id} (h : s.Progress (.enqueue n (row :: rows) report))
    (hinsert : insertDelivery s.deliveries (row.delivery id n now) = some (inserted, deliveries))
      (ht : t.deliveries = deliveries) :
    t.Progress (.enqueue n rows report') := by
  subst ht
  have hspec := fun d => mem_insertDelivery (d := d) hinsert
  have hkept : ∀ d ∈ s.deliveries, d ∈ t.deliveries := fun d hd => (hspec d).2.2 hd
  have hrow : t.HasRow n row.channel := (hspec (row.delivery id n now)).1
  rcases h with ⟨before, heq, hbefore, hnone, hqueued⟩ | ⟨hafter, hfull⟩
  · cases before with
    | nil =>
      -- the row of the panel
      obtain ⟨rfl, rfl⟩ := List.cons.inj heq
      refine .inr ⟨untransportedRows_ne, hrow, fun channel hchannel => ?_⟩
      exact ((hqueued channel hchannel).resolve_left fun ⟨r, hr, _⟩ => nomatch hr).mono hkept
    | cons first rest =>
      obtain ⟨rfl, rfl⟩ := List.cons.inj heq
      refine .inl ⟨rest, rfl, fun r hr => hbefore r (List.mem_cons_of_mem _ hr), fun ⟨d, hd, hfor⟩ => ?_,
        fun channel hchannel => ?_⟩
      · rcases (hspec d).2.1 hd with hd | rfl
        · exact hnone ⟨d, hd, hfor⟩
        · rw [Delivery.isFor, Bool.and_eq_true, decide_eq_true_eq, decide_eq_true_eq] at hfor
          exact hbefore row List.mem_cons_self hfor.2
      · rcases hqueued channel hchannel with ⟨r, hr, hchannel'⟩ | hthere
        · rcases List.mem_cons.mp hr with rfl | hr
          · exact .inr (hchannel' ▸ hrow)
          · exact .inl ⟨r, hr, hchannel'⟩
        · exact .inr (hthere.mono hkept)
  · exact .inr ⟨fun r hr => hafter r (List.mem_cons_of_mem _ hr), hfull.mono hkept⟩

/-- Calls join, or are lost. -/
theorem Sound.of_calls (h : s.Sound) (htables : t.notifications = s.notifications ∧ t.deliveries = s.deliveries)
    (hkept : ∀ (j : ℕ) (call : Call), s.calls[j]? = some call → ∃ other : Call, t.calls[j]? = some other ∧
      other.stage = call.stage)
    (hnew : ∀ (j : ℕ) (other : Call), t.calls[j]? = some other → other.stage.recorded = none ∨
      ∃ call : Call, s.calls[j]? = some call ∧ other.stage = call.stage ∧ other.draft = call.draft) : t.Sound := by
  have hbefore : ∀ {j : ℕ} {other : Call} {id : Uuid}, t.calls[j]? = some other → other.stage.recorded = some id →
      ∃ call : Call, s.calls[j]? = some call ∧ call.stage.recorded = some id ∧ other.draft = call.draft := by
    intro j other id hj hid
    rcases hnew j other hj with hnone | ⟨call, hcall, hstage, hdraft⟩
    · rw [hnone] at hid
      cases hid
    · exact ⟨call, hcall, hstage ▸ hid, hdraft⟩
  refine ⟨by rw [htables.1]; exact h.once, fun n hn => ?_, fun other hother id hid => ?_,
    fun j k a b id hj hk ha hb => ?_, ?_,
    fun other hother => ?_⟩
  · rw [htables.1] at hn
    obtain ⟨call, hcall, hid⟩ := h.created n hn
    obtain ⟨j, hj⟩ := List.mem_iff_getElem?.mp hcall
    obtain ⟨other, hother, hstage⟩ := hkept j call hj
    exact ⟨other, List.mem_of_getElem? hother, hstage ▸ hid⟩
  · obtain ⟨j, hj⟩ := List.mem_iff_getElem?.mp hother
    obtain ⟨call, hcall, hid', hdraft⟩ := hbefore hj hid
    rw [htables.1, hdraft]
    exact h.recorded call (List.mem_of_getElem? hcall) id hid'
  · obtain ⟨a', hj', ha', -⟩ := hbefore hj ha
    obtain ⟨b', hk', hb', -⟩ := hbefore hk hb
    exact h.own j k a' b' id hj' hk' ha' hb'
  · rw [htables.1, htables.2]
    exact h.owned
  · have hrows : ∀ id channel, t.HasRow id channel ↔ s.HasRow id channel := fun _ _ => by rw [HasRow, HasRow, htables.2]
    obtain ⟨j, hj⟩ := List.mem_iff_getElem?.mp hother
    rcases hnew j other hj with hnone | ⟨call, hcall, hstage, -⟩
    · cases hstage : other.stage with
      | answered answer => cases answer with
        | none => trivial
        | some r => simp [hstage, Stage.recorded] at hnone
      | refused | insert => trivial
      | allowed | disabled | enqueue => simp [hstage, Stage.recorded] at hnone
    · rw [hstage]
      exact (h.progress call (List.mem_of_getElem? hcall)).congr fun id _ channel => hrows id channel

/-- **A step keeps the invariant** when the reads of a call agree. -/
theorem step_sound {e : EmitEvent} (h : s.Sound) (hsteady : s.Steady e) (hs : s.step e = some t) : t.Sound := by
  cases e with
  | emit organizationId emittedBy draft =>
    cases hs
    refine h.of_calls ⟨rfl, rfl⟩ (fun j call hj => ⟨call, ?_, rfl⟩) fun j other hj => ?_
    · rw [List.getElem?_append_left (List.getElem?_eq_some_iff.mp hj).1, hj]
    · rw [List.getElem?_append] at hj
      split_ifs at hj
      · exact .inr ⟨other, hj, rfl, rfl⟩
      · obtain rfl := List.mem_singleton.mp (List.mem_of_getElem? hj)
        left
        cases draft.build <;> rfl
  | lose i =>
    cases hs
    refine h.of_calls ⟨rfl, rfl⟩ (fun j call hj => ?_) fun j other hj => ?_
    · rw [List.getElem?_modify, hj]
      refine ⟨_, rfl, ?_⟩
      split <;> rfl
    · rw [List.getElem?_modify] at hj
      obtain ⟨call, hcall, rfl⟩ := Option.map_eq_some_iff.mp hj
      refine .inr ⟨call, hcall, ?_⟩
      split <;> exact ⟨rfl, rfl⟩
  | prefer userId stated =>
    cases hs
    exact ⟨h.once, h.created, h.recorded, h.own, h.owned, fun call hcall => (h.progress call hcall).congr
      fun _ _ _ => Iff.rfl⟩
  | statement i id now =>
    rw [step] at hs
    split at hs
    · cases hs
    · rename_i call hcall
      split_ifs at hs with hlost
      have hprogress := h.progress call (List.mem_of_getElem? hcall)
      have hsame : ∀ d ∈ s.deliveries, d ∈ s.deliveries ∨ call.stage.recorded = some
        d.notificationId := fun d hd => .inl hd
      rw [statement] at hs
      cases hstage : call.stage with
      | refused error =>
        rw [hstage] at hs
        cases hs
      | insert =>
        simp only [hstage, insertNotification] at hs
        split_ifs at hs with hthere
        · cases hs
          exact h.advance hcall (by rw [hstage]; rfl) rfl rfl (fun _ hd => hd) hsame trivial
        · obtain ⟨notifications, hinsert, rfl⟩ := Option.map_eq_some_iff.mp hs
          rw [List.any_eq_true] at hthere
          exact h.inserted hcall hstage ⟨rfl, rfl, rfl⟩ (fun m hm => Bool.eq_false_iff.mpr fun hcollides => hthere
            ⟨m, hm, hcollides⟩) hinsert
      | allowed n =>
        rw [hstage] at hs hprogress
        cases hs
        exact h.advance hcall (by rw [hstage]; rfl) rfl rfl (fun _ hd => hd) hsame hprogress
      | disabled n allowed =>
        rw [hstage] at hs hprogress
        cases hs
        exact h.advance hcall (by rw [hstage]; rfl) rfl rfl (fun _ hd => hd) hsame
          (progress_enqueue {} hprogress (hsteady call n allowed hcall hstage))
      | enqueue n rows report =>
        rw [hstage] at hs hprogress
        cases rows with
        | nil =>
          cases hs
          refine h.advance hcall (by rw [hstage]; rfl) rfl rfl (fun _ hd => hd) hsame ?_
          rcases hprogress with ⟨before, heq, -⟩ | ⟨-, hfull⟩
          · simp at heq
          · exact hfull
        | cons row rows =>
          obtain ⟨⟨inserted, deliveries⟩, hinsert, rfl⟩ := Option.map_eq_some_iff.mp hs
          refine h.advance hcall (by rw [hstage]; rfl) rfl rfl
            (fun d hd => (mem_insertDelivery (d := d) hinsert).2.2 hd) (fun d hd => ?_)
            (hprogress.insert hinsert rfl)
          rw [hstage]
          exact ((mem_insertDelivery hinsert).2.1 hd).imp_right fun hd => by rw [hd]; rfl
      | answered answer =>
        rw [hstage] at hs
        cases hs

/-! ### Answers -/

theorem Sound.reliable_iff (h : s.Sound) : s.Reliable ↔ ∀ call ∈ s.calls, ∀ answer, call.stage = .answered answer →
    ∃ n ∈ s.notifications, IsOf n call.draft answer ∧ s.Full n.id := by
  constructor
  · intro hreliable call hcall answer hanswer
    obtain ⟨n, hn, hof, hrow, -⟩ := hreliable call hcall answer hanswer
    exact ⟨n, hn, hof, h.full_of_row hn hrow⟩
  · intro hfull call hcall answer hanswer
    obtain ⟨n, hn, hof, hrow, hrows⟩ := hfull call hcall answer hanswer
    exact ⟨n, hn, hof, hrow, fun channel hchannel _ => hrows channel hchannel⟩

theorem Sound.keeps (h : s.Sound) (ht : t.Sound) (hreliable : s.Reliable)
    (hnotifications : ∀ n ∈ s.notifications, n ∈ t.notifications)
    (hdeliveries : ∀ d ∈ s.deliveries, d ∈ t.deliveries)
    (hanswers : ∀ call ∈ t.calls, ∀ answer, call.stage = .answered answer →
      (∃ before ∈ s.calls, before.stage = .answered answer ∧ before.draft = call.draft) ∨
        ∃ n ∈ t.notifications, IsOf n call.draft answer ∧ t.Full n.id) : t.Reliable := by
  rw [ht.reliable_iff]
  intro call hcall answer hanswer
  rcases hanswers call hcall answer hanswer with ⟨before, hbefore, hsame, hdraft⟩ | hnew
  · obtain ⟨n, hn, hof, hfull⟩ := h.reliable_iff.mp hreliable before hbefore answer hsame
    exact ⟨n, hnotifications n hn, hdraft ▸ hof, hfull.mono hdeliveries⟩
  · exact hnew

/-- **An answer that finds the fact recorded** is reliable just when nobody is early. -/
theorem duplicate_reliable_iff {id : Uuid} {now : Instant} (h : s.Sound) (ht : (s.goes i (.answered none)).Sound)
    (hreliable : s.Reliable)
    (hcall : s.calls[i]? = some call) (hlost : call.lost = false) (hinsert : call.stage = .insert)
    (hthere : s.notifications.rows.any (collides · call.draft) = true) :
    (s.goes i (.answered none)).Reliable ↔ s.Prompt (.statement i id now) := by
  constructor
  · intro hreliable' call' hcall' _ _ n hn hcollides other hother hrecorded
    obtain rfl := Option.some.inj (hcall.symm.trans hcall')
    obtain ⟨m, hm, ⟨huser, hkey, -⟩, hfull⟩ := ht.reliable_iff.mp hreliable' { call with stage := .answered none }
      (List.mem_iff_getElem?.mpr ⟨i, by rw [goes, List.getElem?_modify_eq, hcall]; rfl⟩) none rfl
    simp only [collides, Bool.and_eq_true, decide_eq_true_eq] at hcollides
    obtain ⟨⟨hsome, huser'⟩, hkey'⟩ := hcollides
    obtain rfl := h.once n hn m hm (hkey' ▸ hsome) (huser'.trans huser.symm) (hkey'.trans hkey.symm)
    by_contra hwaiting
    rw [Bool.not_eq_false] at hwaiting
    exact ((h.progress other hother).waiting hrecorded).1 hwaiting hfull.1
  · intro hprompt
    obtain ⟨n, hn, hcollides⟩ := List.any_eq_true.mp hthere
    refine h.keeps ht hreliable (fun _ hm => hm) (fun _ hd => hd) fun other hother answer hanswer => ?_
    obtain ⟨j, hj⟩ := List.mem_iff_getElem?.mp hother
    rcases mem_goes hcall hj with ⟨-, rfl⟩ | ⟨-, hj⟩
    · obtain rfl := Stage.answered.inj hanswer
      obtain ⟨creator, hcreator, hrecorded⟩ := h.created n hn
      have hwritten := hprompt call hcall hlost hinsert n hn hcollides creator hcreator hrecorded
      simp only [collides, Bool.and_eq_true, decide_eq_true_eq] at hcollides
      exact .inr ⟨n, hn, ⟨hcollides.1.2, hcollides.2, nofun⟩,
        ((h.progress creator hcreator).waiting hrecorded).2 hwritten⟩
    · exact .inl ⟨other, List.mem_of_getElem? hj, hanswer, rfl⟩

theorem Sound.keeps_goes {stage : Stage} (h : s.Sound) (ht : t.Sound) (hreliable : s.Reliable)
    (hcall : s.calls[i]? = some call)
    (hcalls : t.calls = (s.goes i stage).calls) (hnotifications : ∀ n ∈ s.notifications, n ∈ t.notifications)
    (hdeliveries : ∀ d ∈ s.deliveries, d ∈ t.deliveries) (hanswer : ∀ answer, stage = .answered answer →
      answer.isSome = true) :
    t.Reliable := by
  refine h.keeps ht hreliable hnotifications hdeliveries fun other hother answer hother' => ?_
  obtain ⟨j, hj⟩ := List.mem_iff_getElem?.mp hother
  have hj' := hj
  rw [hcalls] at hj'
  rcases mem_goes hcall hj' with ⟨-, rfl⟩ | ⟨-, hj'⟩
  · -- a call that answers has recorded a notification, and written its rows
    have hstage : stage = .answered answer := hother'
    obtain ⟨r, rfl⟩ := Option.isSome_iff_exists.mp (hanswer answer hstage)
    obtain ⟨n, hn, hid, huser, hkey⟩ := ht.recorded _ hother r.1 (by rw [hstage]; rfl)
    have hfull := ht.progress _ hother
    rw [hstage] at hfull
    exact .inr ⟨n, hn, ⟨huser, hkey, fun r' hr' => Option.some.inj hr' ▸ hid⟩, hid ▸ hfull⟩
  · exact .inl ⟨other, List.mem_of_getElem? hj', hother', rfl⟩

/-- **A step keeps every answer reliable** just when nobody is early. -/
theorem step_reliable_iff {e : EmitEvent} (h : s.Sound) (ht : t.Sound) (hreliable : s.Reliable)
    (hs : s.step e = some t) :
    t.Reliable ↔ s.Prompt e := by
  cases e with
  | emit organizationId emittedBy draft =>
    cases hs
    refine iff_of_true (h.keeps ht hreliable (fun _ hn => hn) (fun _ hd => hd)
      fun call hcall answer hanswer => ?_) trivial
    rcases List.mem_append.mp hcall with hcall | hcall
    · exact .inl ⟨call, hcall, hanswer, rfl⟩
    · obtain rfl := List.mem_singleton.mp hcall
      cases hbuild : draft.build <;> simp [hbuild] at hanswer
  | lose i =>
    cases hs
    refine iff_of_true (h.keeps ht hreliable (fun _ hn => hn) (fun _ hd => hd)
      fun call hcall answer hanswer => ?_) trivial
    obtain ⟨j, hj⟩ := List.mem_iff_getElem?.mp hcall
    rw [List.getElem?_modify] at hj
    obtain ⟨before, hbefore, rfl⟩ := Option.map_eq_some_iff.mp hj
    refine .inl ⟨before, List.mem_of_getElem? hbefore, ?_⟩
    split_ifs at hanswer ⊢ <;> exact ⟨hanswer, rfl⟩
  | prefer userId stated =>
    cases hs
    exact iff_of_true (h.keeps ht hreliable (fun _ hn => hn) (fun _ hd => hd) fun call hcall answer hanswer =>
      .inl ⟨call, hcall, hanswer, rfl⟩) trivial
  | statement i id now =>
    rw [step] at hs
    split at hs
    · cases hs
    · rename_i call hcall
      split_ifs at hs with hlost
      rw [Bool.not_eq_true] at hlost
      have hlater : call.stage ≠ .insert → s.Prompt (.statement i id now) := fun hne call' hcall' _ hinsert => by
        obtain rfl := Option.some.inj (hcall.symm.trans hcall')
        exact absurd hinsert hne
      rw [statement] at hs
      cases hstage : call.stage with
      | refused error =>
        rw [hstage] at hs
        cases hs
      | insert =>
        simp only [hstage, insertNotification] at hs
        split_ifs at hs with hthere
        · cases hs
          exact duplicate_reliable_iff h ht hreliable hcall hlost hstage hthere
        · obtain ⟨notifications, hinsert, rfl⟩ := Option.map_eq_some_iff.mp hs
          refine iff_of_true (h.keeps_goes ht hreliable hcall rfl
            (fun n hn => (Table.mem_insert? hinsert).mpr (.inl hn)) (fun _ hd => hd)
            nofun) fun call' hcall' _ _ n hn hcollides => ?_
          obtain rfl := Option.some.inj (hcall.symm.trans hcall')
          exact absurd (List.any_eq_true.mpr ⟨n, hn, hcollides⟩) hthere
      | allowed n =>
        rw [hstage] at hs
        cases hs
        exact iff_of_true (h.keeps_goes ht hreliable hcall rfl (fun _ hn => hn) (fun _ hd => hd) nofun)
          (hlater (by simp [hstage]))
      | disabled n allowed =>
        rw [hstage] at hs
        cases hs
        exact iff_of_true (h.keeps_goes ht hreliable hcall rfl (fun _ hn => hn) (fun _ hd => hd) nofun)
          (hlater (by simp [hstage]))
      | enqueue n rows report =>
        rw [hstage] at hs
        cases rows with
        | nil =>
          cases hs
          refine iff_of_true (h.keeps_goes ht hreliable hcall rfl (fun _ hn => hn) (fun _ hd => hd)
            fun answer hanswer => ?_)
            (hlater (by simp [hstage]))
          obtain rfl := Stage.answered.inj hanswer
          rfl
        | cons row rows =>
          obtain ⟨⟨inserted, deliveries⟩, hinsert, rfl⟩ := Option.map_eq_some_iff.mp hs
          exact iff_of_true (h.keeps_goes ht hreliable hcall rfl (fun _ hn => hn)
            (fun d hd => (mem_insertDelivery (d := d) hinsert).2.2 hd) nofun) (hlater (by simp [hstage]))
      | answered answer =>
        rw [hstage] at hs
        cases hs

/-- **Every answer is reliable**, all through a run whose calls read the same preferences twice,
just when nobody is early. -/
theorem run_reliable_iff (events : List EmitEvent) (t : Outbox) (h : Run step Steady {} events t) :
    (∀ events' x, events' <+: events → Run step Any {} events' x → x.Reliable) ↔ Run step Prompt {} events t := by
  have hsound : ∀ {events' : List EmitEvent} {x : Outbox}, Run step Steady {} events' x → x.Sound :=
    fun hrun => hrun.invariant .empty fun _ _ _ hx hsteady hs => step_sound hx hsteady hs
  exact h.throughout_iff (fun _ hcall => nomatch hcall) hsound fun x e y hx hreliable hsteady hs =>
    step_reliable_iff hx (step_sound hx hsteady hs) hreliable hs

/-! ### A retry -/

/-- A page waits for its reviewer. -/
def waiting : NewNotification where
  userId := 7
  category := "approval"
  title := "A page is waiting"
  dedupeKey := some "page-1-review"

/-- A call that makes so many statements and is lost, and a retry that makes one. -/
def retried (statements : ℕ) : List EmitEvent :=
  .emit none none waiting :: ((List.range statements).map fun k => .statement 0 (100 + k) 0) ++
    [.lose 0, .emit none none waiting, .statement 1 200 0]

/-- The reads agree, and nobody is early. -/
def fitCheck (s : Outbox) : EmitEvent → Bool
  | .statement i .. => s.calls[i]?.all fun call => match call.stage with
    | .disabled _ allowed => QUEUEABLE.all fun channel =>
      !(s.preferencesOf call.draft.userId).allows call.draft.category channel || allowed.contains channel
    | .insert => s.notifications.rows.all fun n => !collides n call.draft || s.calls.all fun other =>
      other.stage.recorded ≠ some n.id || !other.stage.waiting
    | _ => true
  | _ => true

theorem fit_of_fitCheck (s : Outbox) (e : EmitEvent) (h : fitCheck s e = true) : s.Steady e ∧ s.Prompt e := by
  cases e with
  | statement i id now =>
    refine ⟨fun call n allowed hcall hstage channel hchannel hallows => ?_,
      fun call hcall _ hinsert n hn hcollides other hother hrecorded => ?_⟩
    · rw [fitCheck, hcall, Option.all_some, hstage] at h
      have hread := List.all_eq_true.mp h channel hchannel
      rw [hallows] at hread
      exact List.contains_iff_mem.mp hread
    · rw [fitCheck, hcall, Option.all_some, hinsert] at h
      have hthere := List.all_eq_true.mp h n hn
      rw [hcollides] at hthere
      simpa [hrecorded] using List.all_eq_true.mp hthere other hother
  | _ => exact ⟨trivial, trivial⟩

/-- The call is lost when the row of the panel is written, and the retry is told that the notification is there. -/
theorem run_reliable_iff_late : ∃ t, Run step Any {} (retried 7) t ∧ t.deliveries.rows.map
    (·.channel) = ["email", "web_push", "webhook", "in_app"] ∧
    t.Reliable := by
  have hexec : (exec (fun s e => if fitCheck s e then step s e else none) {} (retried 7)).map
      (fun t => t.deliveries.rows.map (·.channel)) = some ["email", "web_push", "webhook",
        "in_app"] := by decide +kernel
  obtain ⟨t, hrun, hrows⟩ := Run.of_exec_of_map fit_of_fitCheck hexec
  have hany : Run step Any {} (retried 7) t := hrun.mono fun _ _ _ => trivial
  exact ⟨t, hany, hrows, (run_reliable_iff _ t (hrun.mono fun _ _ h => h.1)).mpr (hrun.mono fun _ _ h => h.2) _ t
    (List.prefix_refl _) hany⟩

/-- **The call is lost after its insert**, and the retry is told that the notification is there: it has no rows. -/
theorem retry_without_rows : ∃ t, Run step Any {} (retried 1) t ∧ ¬ t.Reliable := by
  have hexec : (exec step {} (retried 1)).map (fun t => t.deliveries.rows.isEmpty && t.calls.any
    fun call => match call.stage with
      | .answered _ => true
      | _ => false) = some true := by decide +kernel
  obtain ⟨t, hrun, hresult⟩ := Run.of_exec_map hexec
  rw [Bool.and_eq_true, List.isEmpty_iff, List.any_eq_true] at hresult
  obtain ⟨hempty, call, hcall, hanswered⟩ := hresult
  refine ⟨t, hrun, fun hreliable => ?_⟩
  cases hstage : call.stage with
  | answered answer =>
    obtain ⟨n, -, -, ⟨d, hd, -⟩, -⟩ := hreliable call hcall answer hstage
    rw [Table.mem_def, hempty] at hd
    cases hd
  | _ => simp [hstage] at hanswered

end Outbox

end Omnion.Notifications
