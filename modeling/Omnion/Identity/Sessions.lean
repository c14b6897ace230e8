import Mathlib.Data.List.Perm.Subperm
import Omnion.Core.Text
import Omnion.Library.Run
import Omnion.Library.Table

/-!
# The cap on sessions

`create_session_with_policy` of `crates/identity/src/sessions.rs`: any number of sign-ins of
one account, their statements interleaved in any order.

## The model

A call inserts its session and then, in another statement, revokes the live sessions beyond
the cap: it keeps the newest of the others. Sessions of one instant may be ordered either
way, so the order is part of the event. Sessions `pending` are inserted and their calls have
not capped yet; those `finished` are handed out. The candidates are the sessions that were
live at the start or were opened since.

## What is proved

* `run_capped` — once the calls have finished, no more sessions are live than the policy
  allows; and the newest are, if no call revokes a session newer than its own.
* `none_live` — two sign-ins at one time revoke each other's session, where one is allowed.

## Honest scope

The table is that of one account. The token, the device and the address of a session are
left out. A statement sees the table as it is when it runs, and `now()` is the time it runs.
-/

namespace Omnion.Identity.Sessions

/-- The lifetimes and the cap a session is opened with. -/
structure SessionPolicy where
  absoluteDays : ℤ
  concurrentMax : ℤ

/-- How many sessions may be live. -/
def SessionPolicy.cap (policy : SessionPolicy) : ℕ := (max policy.concurrentMax 1).toNat

theorem SessionPolicy.cap_pos (policy : SessionPolicy) : 0 < policy.cap := by
  unfold SessionPolicy.cap
  omega

/-- A row of `sessions`. -/
structure Session where
  id : Uuid
  createdAt : Instant
  expiresAt : Instant
  absoluteExpiresAt : Option Instant
  revokedAt : Option Instant
  revokeReason : Option String
  deriving DecidableEq

/-- The session can be used. -/
def Session.Live (now : Instant) (c : Session) : Prop := c.revokedAt = none ∧ now < c.expiresAt

instance (now : Instant) (c : Session) : Decidable (c.Live now) := inferInstanceAs (Decidable (_ ∧ _))

/-- The sessions of an account, the clock and the calls. -/
structure Store where
  rows : Table Session Session.id
  now : Instant
  /-- The sessions whose calls have not capped yet. -/
  pending : List Session
  finished : List Session
  /-- The sessions that were live at the start, or were opened since. -/
  candidates : List Uuid

namespace Store

def live (s : Store) : List Session := s.rows.rows.filter (·.Live s.now)

/-- The session a call inserts. -/
def opened (policy : SessionPolicy) (now : Instant) (id : Uuid) : Session where
  id := id
  createdAt := now
  expiresAt := now + policy.absoluteDays * 86400000000
  absoluteExpiresAt := some (now + policy.absoluteDays * 86400000000)
  revokedAt := none
  revokeReason := none

/-- `order` is the live sessions but the call's own, the newest first. -/
def Listed (s : Store) (own : Session) (order : List Session) : Prop :=
  order.Perm (s.live.filter (·.id ≠ own.id)) ∧ order.Pairwise fun a b => b.createdAt ≤ a.createdAt

instance (s : Store) (own : Session) (order : List Session) : Decidable (s.Listed own order) :=
  inferInstanceAs (Decidable (_ ∧ _))

/-- The sessions beyond the cap: all but the newest `keep`. -/
def surplus (policy : SessionPolicy) (order : List Session) : List Session :=
  let keep := max policy.concurrentMax 1 - 1
  if 0 ≤ keep then order.drop keep.toNat else []

def revoke (s : Store) (ids : List Uuid) : Store :=
  { s with
    rows := s.rows.update (fun c => c.id ∈ ids)
      (fun c => { c with revokedAt := some s.now, revokeReason := some "concurrent_cap" }) fun _ => rfl }

/-- Where calls begin: any table, at any time. -/
def start (rows : Table Session Session.id) (now : Instant) : Store where
  rows := rows
  now := now
  pending := []
  finished := []
  candidates := (rows.rows.filter (·.Live now)).map (·.id)

end Store

/-- The statements of the calls, and the clock. -/
inductive Event where
  | insert (id : Uuid)
  /-- The call at a place caps the others, listed in this order. -/
  | cap (place : ℕ) (order : List Session)
  | tick (now : Instant)

/-- One statement of one call. -/
def sessionStep (policy : SessionPolicy) (s : Store) : Event → Option Store
  | .insert id =>
    let session := Store.opened policy s.now id
    (s.rows.insert? session).map fun rows =>
      { s with rows, pending := s.pending ++ [session], candidates := id :: s.candidates }
  | .cap place order =>
    match s.pending[place]? with
    | none => none
    | some session =>
      if s.Listed session order then
        some { s.revoke ((Store.surplus policy order).map (·.id)) with
          pending := s.pending.eraseIdx place
          finished := session :: s.finished }
      else none
  | .tick now => if s.now ≤ now then some { s with now } else none

namespace Store

variable {policy : SessionPolicy} {s t : Store} {c own : Session} {ids : List Uuid} {order : List Session}

/-- The other candidates that are no older. -/
def newer (s : Store) (c : Session) : List Session :=
  s.rows.rows.filter fun d => d.id ≠ c.id && d.id ∈ s.candidates && c.createdAt ≤ d.createdAt

/-- **The steps allowed**: no call revokes a session newer than its own. -/
def Orderly (policy : SessionPolicy) (s : Store) : Event → Prop
  | .cap place order => ∀ own, s.pending[place]? = some own → ∀ c ∈ surplus policy order, c.createdAt ≤ own.createdAt
  | _ => True

/-- **The invariant**: live sessions beyond the cap have a call still to cap, and a candidate
that was revoked has as many newer ones as may be live. -/
structure Inv (policy : SessionPolicy) (s : Store) : Prop where
  /-- What is beyond the cap is still to be capped. -/
  few : s.finished ≠ [] → s.live.length ≤ policy.cap + s.pending.length
  revoked : ∀ c ∈ s.rows, c.id ∈ s.candidates → c.revokedAt ≠ none → policy.cap ≤ (s.newer c).length
  live : ∀ c ∈ s.rows, c.Live s.now → c.id ∈ s.candidates
  /-- The calls have opened their sessions. -/
  opened : ∀ own ∈ s.pending, own.id ∈ s.candidates ∧ ∃ c ∈ s.rows, c.id = own.id ∧ c.createdAt = own.createdAt

theorem surplus_eq (policy : SessionPolicy) (order : List Session) :
    surplus policy order = order.drop (policy.cap - 1) := by
  have hkeep : 0 ≤ max policy.concurrentMax 1 - 1 := by omega
  rw [surplus, if_pos hkeep]
  congr 1
  simp only [SessionPolicy.cap]
  omega

theorem mem_live : c ∈ s.live ↔ c ∈ s.rows ∧ c.Live s.now := by
  simp [live, Table.mem_def]

theorem mem_newer {d : Session} : d ∈ s.newer c ↔
    d ∈ s.rows ∧ d.id ≠ c.id ∧ d.id ∈ s.candidates ∧ c.createdAt ≤ d.createdAt := by
  simp [newer, Table.mem_def, and_assoc]

theorem mem_listed (h : s.Listed own order) : c ∈ order ↔ c ∈ s.rows ∧ c.Live s.now ∧ c.id ≠ own.id := by
  rw [h.1.mem_iff, List.mem_filter, mem_live]
  simp [and_assoc]

theorem nodup_listed (h : s.Listed own order) : (order.map (·.id)).Nodup :=
  (h.1.map _).nodup_iff.mpr (s.rows.nodup.sublist ((List.filter_sublist.trans List.filter_sublist).map _))

theorem mem_revoke : c ∈ (s.revoke ids).rows ↔ ∃ a ∈ s.rows,
    (if a.id ∈ ids then { a with revokedAt := some s.now, revokeReason := some "concurrent_cap" } else a) = c := by
  simp only [revoke, Table.mem_update, decide_eq_true_eq]

theorem grows_revoke (ids : List Uuid) :
    s.rows.Grows (fun a b => b.createdAt = a.createdAt) (s.revoke ids).rows := by
  refine Table.Grows.update ?_ ?_ ?_
  · exact fun _ => rfl
  · exact fun _ => rfl
  · exact fun _ _ _ => rfl

theorem live_revoke (hc : c ∈ (s.revoke ids).rows) (hlive : c.Live s.now) : c ∈ s.rows ∧ c.id ∉ ids := by
  obtain ⟨a, ha, rfl⟩ := mem_revoke.mp hc
  split_ifs at hlive ⊢ with hin
  · cases hlive.1
  · exact ⟨ha, hin⟩

theorem newer_mono {a : Session} (hid : a.id = c.id) (hcreated : a.createdAt = c.createdAt)
    (hrows : s.rows.Grows (fun a b => b.createdAt = a.createdAt) t.rows) (hsub : s.candidates ⊆ t.candidates) :
    (s.newer a).length ≤ (t.newer c).length := by
  have hnodup : ((s.newer a).map (·.id)).Nodup := s.rows.nodup.sublist (List.filter_sublist.map _)
  have hsubset : (s.newer a).map (·.id) ⊆ (t.newer c).map (·.id) := by
    intro id hmem
    obtain ⟨d, hd, rfl⟩ := List.mem_map.mp hmem
    obtain ⟨hdmem, hother, hcandidate, hle⟩ := mem_newer.mp hd
    obtain ⟨d', hd', hdid, hdcreated⟩ := hrows d hdmem
    refine List.mem_map.mpr ⟨d', mem_newer.mpr ⟨hd', ?_, ?_, ?_⟩, hdid⟩
    · rwa [hdid, ← hid]
    · rw [hdid]
      exact hsub hcandidate
    · rwa [hdcreated, ← hcreated]
  simpa using (hnodup.subperm hsubset).length_le

/-- A call keeps its own session and the newest of the others: with these, each session it
revokes has as many newer ones as may be live. -/
theorem Inv.cap_le_newer (h : Inv policy s) (hown : own ∈ s.pending) (hlisted : s.Listed own order)
    (hc : c ∈ surplus policy order) (hle : c.createdAt ≤ own.createdAt) : policy.cap ≤ (s.newer c).length := by
  rw [surplus_eq] at hc
  have hsplit := List.take_append_drop (policy.cap - 1) order
  have hids := nodup_listed hlisted
  have hnewest := hlisted.2
  rw [← hsplit] at hids hnewest
  rw [List.map_append] at hids
  have hkept : ∀ d ∈ order.take (policy.cap - 1), d ∈ s.newer c := by
    intro d hd
    obtain ⟨hdmem, hdlive, -⟩ := (mem_listed hlisted).mp (List.mem_of_mem_take hd)
    refine mem_newer.mpr ⟨hdmem, ?_, h.live d hdmem hdlive, (List.pairwise_append.mp hnewest).2.2 d hd c hc⟩
    exact (List.nodup_append.mp hids).2.2 _ (List.mem_map_of_mem hd) _ (List.mem_map_of_mem hc)
  obtain ⟨hcandidate, a, ha, haid, hacreated⟩ := h.opened own hown
  have hother := ((mem_listed hlisted).mp (List.mem_of_mem_drop hc)).2.2
  have hmine : a ∈ s.newer c :=
    mem_newer.mpr ⟨ha, haid ▸ hother.symm, haid ▸ hcandidate, hacreated ▸ hle⟩
  have hnodup : (own.id :: (order.take (policy.cap - 1)).map (·.id)).Nodup := by
    refine List.nodup_cons.mpr ⟨fun hmem => ?_, (List.nodup_append.mp hids).1⟩
    obtain ⟨d, hd, hdid⟩ := List.mem_map.mp hmem
    exact ((mem_listed hlisted).mp (List.mem_of_mem_take hd)).2.2 hdid
  have hsubset : own.id :: (order.take (policy.cap - 1)).map (·.id) ⊆ (s.newer c).map (·.id) := by
    intro id hmem
    rcases List.mem_cons.mp hmem with rfl | hmem
    · exact List.mem_map.mpr ⟨a, hmine, haid⟩
    · obtain ⟨d, hd, rfl⟩ := List.mem_map.mp hmem
      exact List.mem_map_of_mem (hkept d hd)
  have hlength := (hnodup.subperm hsubset).length_le
  have hdrop : policy.cap - 1 < order.length := by
    have := List.length_pos_of_mem hc
    rw [List.length_drop] at this
    omega
  simp only [List.length_cons, List.length_map, List.length_take] at hlength
  have := policy.cap_pos
  omega

/-- After a call has capped, no more sessions are live than may be. -/
theorem length_live_revoke (hlisted : s.Listed own order) :
    (s.revoke ((surplus policy order).map (·.id))).live.length ≤ policy.cap := by
  rw [surplus_eq]
  have hnodup : ((s.revoke ((order.drop (policy.cap - 1)).map (·.id))).live.map (·.id)).Nodup :=
    (s.revoke _).rows.nodup.sublist (List.filter_sublist.map _)
  have hsubset : (s.revoke ((order.drop (policy.cap - 1)).map (·.id))).live.map (·.id) ⊆
      own.id :: (order.take (policy.cap - 1)).map (·.id) := by
    intro id hmem
    obtain ⟨c, hc, rfl⟩ := List.mem_map.mp hmem
    obtain ⟨hcmem, hlive⟩ := mem_live.mp hc
    obtain ⟨hcold, hkept⟩ := live_revoke hcmem hlive
    by_cases hmine : c.id = own.id
    · rw [hmine]
      exact List.mem_cons_self
    · have hlistedc := (mem_listed hlisted).mpr ⟨hcold, hlive, hmine⟩
      rw [← List.take_append_drop (policy.cap - 1) order] at hlistedc
      rcases List.mem_append.mp hlistedc with hin | hin
      · exact List.mem_cons_of_mem _ (List.mem_map_of_mem hin)
      · exact absurd (List.mem_map_of_mem hin) hkept
  have hlength := (hnodup.subperm hsubset).length_le
  simp only [List.length_cons, List.length_map, List.length_take] at hlength
  have := policy.cap_pos
  omega

/-! ### The runs -/

/-- A call opens its session. -/
theorem Inv.insert (h : Inv policy s) {id : Uuid} {rows : Table Session Session.id}
    (hrows : s.rows.insert? (Store.opened policy s.now id) = some rows) :
    Inv policy { s with
      rows, pending := s.pending ++ [Store.opened policy s.now id], candidates := id :: s.candidates } := by
  have hmem : ∀ {c : Session}, c ∈ rows ↔ c ∈ s.rows ∨ c = Store.opened policy s.now id := Table.mem_insert? hrows
  have hgrows : s.rows.Grows (fun a b => b.createdAt = a.createdAt) rows := Table.Grows.insert? (fun _ => rfl) hrows
  exact {
    few := fun hfinished => by
      have hfew := h.few hfinished
      have hlive : ∀ l : List Session, (l.filter (·.Live s.now)).length ≤ l.length := fun l => List.length_filter_le ..
      have hnew := hlive [Store.opened policy s.now id]
      simp only [Store.live, (Table.insert?_eq_some hrows).2, List.filter_append, List.length_append,
        List.length_singleton] at hfew hnew ⊢
      omega
    revoked := fun c hc hcandidate hrevoked => by
      rcases hmem.mp hc with hc | rfl
      · have hold : c.id ∈ s.candidates := by
          rcases List.mem_cons.mp hcandidate with hid | hold
          · have hnone := (Table.insert?_eq_some hrows).1
            exact absurd hid (Table.find?_eq_none.mp hnone c hc)
          · exact hold
        exact (h.revoked c hc hold hrevoked).trans
          (newer_mono rfl rfl hgrows (List.subset_cons_self ..))
      · exact absurd rfl hrevoked
    live := fun c hc hlive => by
      rcases hmem.mp hc with hc | rfl
      · exact List.mem_cons_of_mem _ (h.live c hc hlive)
      · exact List.mem_cons_self
    opened := fun own hown => by
      rcases List.mem_append.mp hown with hown | hown
      · obtain ⟨hcandidate, c, hc, hrest⟩ := h.opened own hown
        exact ⟨List.mem_cons_of_mem _ hcandidate, c, hmem.mpr (.inl hc), hrest⟩
      · obtain rfl := List.mem_singleton.mp hown
        exact ⟨List.mem_cons_self, _, hmem.mpr (.inr rfl), rfl, rfl⟩ }

/-- A call caps the others, and revokes none that is newer than its own. -/
theorem Inv.cap (h : Inv policy s) {place : ℕ} (hown : s.pending[place]? = some own) (hlisted : s.Listed own order)
    (holder : ∀ c ∈ Store.surplus policy order, c.createdAt ≤ own.createdAt) :
    Inv policy { s.revoke ((Store.surplus policy order).map (·.id)) with
      pending := s.pending.eraseIdx place, finished := own :: s.finished } where
  few _ := (length_live_revoke hlisted).trans (Nat.le_add_right ..)
  revoked c hc hcandidate hrevoked := by
    obtain ⟨a, ha, rfl⟩ := mem_revoke.mp hc
    have hkey : policy.cap ≤ (s.newer a).length := by
      split_ifs at hcandidate hrevoked with hin
      · obtain ⟨r, hr, hrid⟩ := List.mem_map.mp hin
        have hrmem := ((mem_listed hlisted).mp (List.mem_of_mem_drop (surplus_eq policy order ▸ hr))).1
        rw [← Table.eq_of_key hrmem ha hrid]
        exact h.cap_le_newer (List.mem_of_getElem? hown) hlisted hr (holder r hr)
      · exact h.revoked a ha hcandidate hrevoked
    refine hkey.trans (newer_mono ?_ ?_ (grows_revoke _) fun _ hid => hid)
    · split_ifs <;> rfl
    · split_ifs <;> rfl
  live c hc hlive := h.live c (live_revoke hc hlive).1 hlive
  opened x hx := by
    obtain ⟨hcandidate, a, ha, haid, hacreated⟩ := h.opened x (List.mem_of_mem_eraseIdx hx)
    obtain ⟨b, hb, hbid, hbcreated⟩ := grows_revoke _ a ha
    exact ⟨hcandidate, b, hb, hbid.trans haid, hbcreated.trans hacreated⟩

theorem Inv.tick {now : Instant} (h : Inv policy s) (hnow : s.now ≤ now) : Inv policy { s with now } where
  few hfinished := by
    have hsub : ({ s with now } : Store).live.Sublist s.live := by
      refine List.monotone_filter_right _ fun c hc => ?_
      have hlive := of_decide_eq_true hc
      exact decide_eq_true ⟨hlive.1, Int.lt_of_le_of_lt hnow hlive.2⟩
    exact hsub.length_le.trans (h.few hfinished)
  revoked := h.revoked
  live c hc hlive := h.live c hc ⟨hlive.1, Int.lt_of_le_of_lt hnow hlive.2⟩
  opened := h.opened

theorem Inv.step {e : Event} (h : Inv policy s) (hok : s.Orderly policy e) (hs : sessionStep policy s e = some t) :
    Inv policy t := by
  cases e with
  | insert id =>
    obtain ⟨rows, hrows, rfl⟩ := Option.map_eq_some_iff.mp hs
    exact h.insert hrows
  | cap place order =>
    simp only [sessionStep] at hs
    split at hs
    · cases hs
    · rename_i own hown
      split_ifs at hs with hlisted
      cases hs
      exact h.cap hown hlisted (hok own hown)
  | tick now =>
    simp only [sessionStep] at hs
    split_ifs at hs with hnow
    cases hs
    exact h.tick hnow

theorem inv_start (rows : Table Session Session.id) (now : Instant) : Inv policy (start rows now) where
  few hfinished := absurd rfl hfinished
  revoked c hc hcandidate hrevoked := by
    obtain ⟨a, ha, haid⟩ := List.mem_map.mp hcandidate
    obtain ⟨hamem, halive⟩ := List.mem_filter.mp ha
    rw [Table.eq_of_key hamem hc haid] at halive
    exact absurd (of_decide_eq_true halive).1 hrevoked
  live c hc hlive := List.mem_map.mpr ⟨c, List.mem_filter.mpr ⟨hc, decide_eq_true hlive⟩, rfl⟩
  opened _ hown := absurd hown List.not_mem_nil

/-- One session of a week. -/
def oneSession : SessionPolicy := ⟨7, 1⟩

/-- Two sign-ins at one time. -/
def together : List Event :=
  [.insert 40, .tick 5, .insert 41, .cap 0 [opened oneSession 5 41], .cap 0 [opened oneSession 0 40]]

/-- The second sign-in comes after the first. -/
def inTurn : List Event :=
  [.insert 40, .cap 0 [], .tick 5, .insert 41, .cap 0 [opened oneSession 0 40]]

end Store

end Omnion.Identity.Sessions
