import Omnion.Core.Text
import Omnion.Identity.Secrets
import Omnion.Library.Run
import Omnion.Library.Search
import Omnion.Library.Table
import Omnion.Library.Words

/-!
# Known devices and their trust

`crates/identity/src/devices.rs` on the table `user_devices` of `0011_iam_advanced.sql`: what a
sign-in, a trust window that is set, and a device that is forgotten write into a row.

## The model

Each of the three is one statement, so what happens is their order. A sign-in reads the clock
for its trust window before its statement. The history of a device is what was done to it, with
the window it came with. Whether a device reads as trusted is read off its row and the clock, as
the routes do.

## What is proved

* `run_trusted` — a device reads as trusted only while the window of its last grant is open: that
  of the last `set_trust`, or that a sign-in brought to a device without a window. Where no
  device was forgotten while its window was open, it has not been forgotten since that grant.
* `trusted_after_forget` — a device that is forgotten and signs in again is trusted, and so is a
  device that signs in for the first time.

## Honest scope

The routes check that the caller may see the device. The names of the device are for the panel
and read by nothing here.
-/

namespace Omnion.Identity.Devices

open Transition

/-- `MAX_AGENT_LENGTH`. -/
def maxAgentLength : ℕ := 400

/-- A registered device. -/
structure Device where
  id : Uuid
  userId : Uuid
  /-- Hash of the normalized user agent. -/
  fingerprint : String
  label : String
  platform : String
  browser : String
  /-- When the device first signed in. -/
  firstSeenAt : Instant
  lastSeenAt : Instant
  /-- Until when the device counts as trusted. -/
  trustedUntil : Option Instant
  revokedAt : Option Instant
  createdAt : Instant

/-- Whether the device reads as trusted. -/
def Device.trusted (device : Device) (now : Instant) : Bool := device.trustedUntil.any (now < ·)

/-- Trim and collapse the white space of a user agent. -/
def normalizeAgent (userAgent : Option String) : List Char :=
  ([' '].intercalate (Words.words Text.isWhitespace (userAgent.getD "").toList)).take maxAgentLength

/-- Hash a user agent into a stable fingerprint. -/
def fingerprint (hashes : Hashes) (userAgent : Option String) : String :=
  let normalized := (normalizeAgent userAgent).flatMap String.utf8EncodeChar
  String.ofList (Hex.encode (hashes.sha256 (asciiBytes "omnion.device.v1".toList ++ normalized)).bytes)

/-- The first of some names whose marks the agent has. -/
def family (agent : List Char) (families : List (List String × String)) : String :=
  ((families.find? fun (marks, _) => marks.any fun mark => (Search.find mark.toList agent).isSome).map (·.2)).getD
    "Unknown"

/-- The operating systems, by what an agent contains. -/
def platforms : List (List String × String) :=
  [(["Android"], "Android"), (["iPhone", "iPad"], "iOS"), (["Windows"], "Windows"),
    (["Macintosh", "Mac OS X"], "macOS"), (["Linux"], "Linux")]

/-- The browsers, by what an agent contains. Chromium names Chrome as well. -/
def browsers (agent : List Char) : List (List String × String) :=
  [(["Edg/"], "Edge"), (["OPR/", "Opera"], "Opera"), (["Firefox/"], "Firefox")] ++
    (if (Search.find "Chromium/".toList agent).isSome then [] else [(["Chrome/"], "Chrome")]) ++
    [(["Chromium/"], "Chromium"), (["Safari/"], "Safari"), (["curl/"], "curl")]

/-- Describe a user agent: label, platform and browser. -/
def describe (userAgent : Option String) : String × String × String :=
  let agent := normalizeAgent userAgent
  let platform := family agent platforms
  let browser := family agent (browsers agent)
  let label :=
    if platform = "Unknown" && browser = "Unknown" then "Unidentified device"
    else if browser = "Unknown" then platform ++ " device"
    else if platform = "Unknown" then browser ++ " client"
    else browser ++ " on " ++ platform
  (label, platform, browser)

/-! ### The registry -/

/-- What was done to a device. -/
inductive Entry where
  /-- It signed in, with this window for a device that has none. -/
  | signedIn (time : Instant) (window : Option Instant)
  /-- Its window was set, or cleared. -/
  | trustSet (time : Instant) (window : Option Instant)
  | forgotten (time : Instant)
  deriving DecidableEq

/-- When it was done. -/
def Entry.time : Entry → Instant
  | .signedIn time _ | .trustSet time _ | .forgotten time => time

/-- `user_devices`, the clock, and what was done to each device. -/
structure Registry where
  devices : Table Device Device.id
  now : Instant
  log : List (Uuid × Entry)

namespace Registry

/-- Before anything happens. -/
def start (now : Instant) : Registry where
  devices := .empty
  now := now
  log := []

/-- What was done to a device. -/
def history (s : Registry) (id : Uuid) : List Entry := (s.log.filter (·.1 = id)).map (·.2)

/-- An update of the device with an id, if there is one. -/
def write (s : Registry) (id : Uuid) (f : Device → Device) (hf : ∀ device, (f device).id = device.id)
    (entry : Entry) : Registry :=
  match s.devices.find? id with
  | none => s
  | some _ => { s with devices := s.devices.update (·.id = id) f hf, log := s.log ++ [(id, entry)] }

/-- `upsert`; the identifier is for a device that is new. -/
def upsert (hashes : Hashes) (s : Registry) (userId : Uuid) (userAgent : Option String) (trustDays : ℤ)
    (readAt : Instant) (newId : Uuid) : Option Registry :=
  let fingerprint := fingerprint hashes userAgent
  let described := describe userAgent
  let trustedUntil := if 0 < trustDays then some (readAt + trustDays * 86400000000) else none
  let entry := .signedIn s.now trustedUntil
  match s.devices.rows.find? fun device => device.userId = userId && device.fingerprint = fingerprint with
  | some device =>
    some (s.write device.id (fun device => { device with
      label := described.1, platform := described.2.1, browser := described.2.2, lastSeenAt := s.now
      trustedUntil := device.trustedUntil.or trustedUntil, revokedAt := none }) (fun _ => rfl) entry)
  | none =>
    (s.devices.insert?
      { id := newId, userId, fingerprint, label := described.1, platform := described.2.1, browser := described.2.2
        firstSeenAt := s.now, lastSeenAt := s.now, trustedUntil, revokedAt := none, createdAt := s.now }).map
      fun devices => { s with devices, log := s.log ++ [(newId, entry)] }

/-- `set_trust`. -/
def setTrust (s : Registry) (id : Uuid) (trustedUntil : Option Instant) : Registry :=
  s.write id (fun device => { device with trustedUntil }) (fun _ => rfl) (.trustSet s.now trustedUntil)

/-- `forget`. -/
def forget (s : Registry) (id : Uuid) : Registry :=
  s.write id (fun device => { device with revokedAt := some s.now }) (fun _ => rfl) (.forgotten s.now)

end Registry

/-- What happens. -/
inductive DeviceEvent where
  /-- Somebody signs in from a device, under a policy's trust days; the clock was read before. -/
  | upsert (userId : Uuid) (userAgent : Option String) (trustDays : ℤ) (readAt : Instant) (newId : Uuid)
  /-- A device's trust window is set, or cleared. -/
  | setTrust (id : Uuid) (trustedUntil : Option Instant)
  | forget (id : Uuid)
  | tick (now : Instant)

/-- One statement. -/
def deviceStep (hashes : Hashes) (s : Registry) : DeviceEvent → Option Registry
  | .upsert userId userAgent trustDays readAt newId =>
    if readAt ≤ s.now then s.upsert hashes userId userAgent trustDays readAt newId else none
  | .setTrust id trustedUntil => some (s.setTrust id trustedUntil)
  | .forget id => some (s.forget id)
  | .tick now => if s.now ≤ now then some { s with now } else none

/-! ### What a history leaves -/

/-- The two columns of a row that trust is about. -/
structure Standing where
  trustedUntil : Option Instant
  revokedAt : Option Instant

/-- Where a device stands after one more entry. -/
def Standing.after (before : Standing) : Entry → Standing
  | .signedIn _ window => { trustedUntil := before.trustedUntil.or window, revokedAt := none }
  | .trustSet _ window => { before with trustedUntil := window }
  | .forgotten time => { before with revokedAt := some time }

/-- Where a device stands after a history. -/
def standing (history : List Entry) : Standing := history.foldl .after ⟨none, none⟩

/-- Where the row of a device stands. -/
def Device.standing (device : Device) : Standing := ⟨device.trustedUntil, device.revokedAt⟩

/-- The entry sets a window. -/
def Entry.sets : Entry → Bool
  | .trustSet .. => true
  | _ => false

/-- The entry forgets the device. -/
def Entry.forgets : Entry → Bool
  | .forgotten _ => true
  | _ => false

/-- The entry grants a window: it sets one, or brings one to a device without. -/
def Entry.Grants (before : Standing) (window : Instant) : Entry → Prop
  | .signedIn _ brought => before.trustedUntil = none ∧ brought = some window
  | .trustSet _ set => set = some window
  | .forgotten _ => False

/-- The device was never forgotten while its window was open. -/
def ForgottenClosed (history : List Entry) : Prop :=
  ∀ before time after, history = before ++ .forgotten time :: after →
    ∀ window, (standing before).trustedUntil = some window → window ≤ time

section History

variable {history before after : List Entry} {window : Instant} {x : Entry}

theorem standing_append (history : List Entry) (x : Entry) :
    standing (history ++ [x]) = (standing history).after x := List.foldl_concat ..

theorem window_after (h : (standing before).trustedUntil = some window) (hafter : ∀ x ∈ after, x.sets = false) :
    (standing (before ++ after)).trustedUntil = some window := by
  induction after using List.reverseRecOn with
  | nil => rwa [List.append_nil]
  | append_singleton after x ih =>
    rw [← List.append_assoc, standing_append]
    have hwindow := ih fun y hy => hafter y (List.mem_append_left _ hy)
    cases x with
    | signedIn time brought => rw [Standing.after, hwindow, Option.some_or]
    | trustSet time set => cases hafter (.trustSet time set) (by simp)
    | forgotten time => exact hwindow

/-- **A window is that of the last grant.** -/
theorem exists_grant (h : (standing history).trustedUntil = some window) :
    ∃ before grant after, history = before ++ grant :: after ∧ grant.Grants (standing before) window ∧
      ∀ x ∈ after, x.sets = false := by
  induction history using List.reverseRecOn with
  | nil => cases h
  | append_singleton history x ih =>
    rw [standing_append] at h
    -- An entry that leaves the window behind the ones there are.
    have hlater : (standing history).trustedUntil = some window → x.sets = false →
        ∃ before grant after, history ++ [x] = before ++ grant :: after ∧ grant.Grants (standing before) window ∧
          ∀ y ∈ after, y.sets = false := by
      intro hwindow hx
      obtain ⟨before, grant, after, rfl, hgrant, hafter⟩ := ih hwindow
      refine ⟨before, grant, after ++ [x], by simp, hgrant, fun y hy => ?_⟩
      rcases List.mem_append.mp hy with hy | hy
      · exact hafter y hy
      · rwa [List.mem_singleton.mp hy]
    cases x with
    | signedIn time brought =>
      cases hbefore : (standing history).trustedUntil with
      | none =>
        rw [Standing.after, hbefore, Option.none_or] at h
        exact ⟨history, _, [], rfl, ⟨hbefore, h⟩, nofun⟩
      | some earlier =>
        rw [Standing.after, hbefore, Option.some_or] at h
        exact hlater (hbefore.trans h) rfl
    | trustSet time set => exact ⟨history, _, [], rfl, h, nofun⟩
    | forgotten time => exact hlater h rfl

/-- After a grant whose window is still open nobody forgot the device, where that was never done to an open window. -/
theorem not_forgotten_since {grant : Entry} {now : Instant} (hclosed : ForgottenClosed (before ++ grant :: after))
    (hgrant : grant.Grants (standing before) window) (hafter : ∀ x ∈ after, x.sets = false)
    (htimes : ∀ x ∈ after, x.time ≤ now) (hopen : now < window) : ∀ x ∈ after, x.forgets = false := by
  intro x hx
  cases x with
  | forgotten time =>
    obtain ⟨between, later, rfl⟩ := List.append_of_mem hx
    have hwindow : (standing (before ++ [grant])).trustedUntil = some window := by
      rw [standing_append]
      cases grant with
      | signedIn time brought => rw [Standing.after, hgrant.1, Option.none_or, hgrant.2]
      | trustSet time set => exact hgrant
      | forgotten time => cases hgrant
    have hthen := window_after hwindow fun y hy => hafter y (List.mem_append_left _ hy)
    have hle := hclosed (before ++ [grant] ++ between) time later (by simp) window hthen
    exact absurd (Int.lt_of_lt_of_le hopen (Int.le_trans hle (htimes _ hx))) (Int.lt_irrefl now)
  | _ => rfl

end History

namespace Registry

variable {hashes : Hashes} {s t : Registry} {id : Uuid}

/-- **The invariant**: a row stands where its history leaves it. -/
structure Inv (s : Registry) : Prop where
  rows : ∀ device ∈ s.devices, device.standing = standing (s.history device.id)
  known : ∀ x ∈ s.log, ∃ device ∈ s.devices, device.id = x.1
  times : ∀ x ∈ s.log, x.2.time ≤ s.now

theorem history_append (s : Registry) {id : Uuid} {entry : Entry}
    (hlog : t.log = s.log ++ [(id, entry)]) (key : Uuid) :
    t.history key = if id = key then s.history key ++ [entry] else s.history key := by
  rw [history, hlog, List.filter_append, List.map_append]
  split_ifs with hid
  · simp [hid, history]
  · simp [hid, history]

/-- An update that does to a row what its entry says. -/
theorem Inv.write (h : s.Inv) {f : Device → Device} {hf : ∀ device, (f device).id = device.id} {entry : Entry}
    (htime : entry.time = s.now) (hentry : ∀ device, (f device).standing = device.standing.after entry) :
    (s.write id f hf entry).Inv := by
  unfold Registry.write
  split
  · exact h
  · rename_i device hdevice
    obtain ⟨hdevice, hid⟩ := Table.find?_eq_some.mp hdevice
    refine ⟨fun row hrow => ?_, fun x hx => ?_, fun x hx => ?_⟩
    · have hrow : row ∈ s.devices.update (·.id = id) f hf := hrow
      obtain ⟨a, ha, rfl⟩ := Table.mem_update.mp hrow
      rw [history_append s rfl]
      by_cases haid : a.id = id
      · rw [if_pos (decide_eq_true haid), hf, if_pos haid.symm, standing_append, hentry, h.rows a ha]
      · rw [if_neg (by simpa using haid), if_neg (Ne.symm haid), h.rows a ha]
    · have hkept : ∀ a ∈ s.devices, ∃ row ∈ s.devices.update (·.id = id) f hf, row.id = a.id := by
        intro a ha
        refine ⟨_, Table.mem_update.mpr ⟨a, ha, rfl⟩, ?_⟩
        split_ifs
        · exact hf a
        · rfl
      rcases List.mem_append.mp hx with hx | hx
      · obtain ⟨a, ha, hax⟩ := h.known x hx
        obtain ⟨row, hrow, hrowid⟩ := hkept a ha
        exact ⟨row, hrow, hrowid.trans hax⟩
      · obtain rfl := List.mem_singleton.mp hx
        obtain ⟨row, hrow, hrowid⟩ := hkept device hdevice
        exact ⟨row, hrow, hrowid.trans hid⟩
    · rcases List.mem_append.mp hx with hx | hx
      · exact h.times x hx
      · obtain rfl := List.mem_singleton.mp hx
        exact Int.le_of_eq htime

/-- A device that is new has no history. -/
theorem Inv.insert (h : s.Inv) {device : Device} {devices : Table Device Device.id} {entry : Entry}
    (hinsert : s.devices.insert? device = some devices) (htime : entry.time = s.now)
    (hentry : device.standing = standing [entry]) :
    ({ s with devices, log := s.log ++ [(device.id, entry)] } : Registry).Inv := by
  have hfresh : ∀ a ∈ s.devices, a.id ≠ device.id := Table.find?_eq_none.mp (Table.insert?_eq_some hinsert).1
  have hnone : s.history device.id = [] := by
    rw [history, List.map_eq_nil_iff, List.filter_eq_nil_iff]
    intro x hx hid
    obtain ⟨a, ha, hax⟩ := h.known x hx
    exact hfresh a ha (hax.trans (of_decide_eq_true hid))
  refine ⟨fun row hrow => ?_, fun x hx => ?_, fun x hx => ?_⟩
  · rw [history_append s rfl]
    rcases (Table.mem_insert? hinsert).mp hrow with hrow | rfl
    · rw [if_neg (Ne.symm (hfresh row hrow)), h.rows row hrow]
    · rw [if_pos rfl, hnone, List.nil_append, hentry]
  · rcases List.mem_append.mp hx with hx | hx
    · obtain ⟨a, ha, hax⟩ := h.known x hx
      exact ⟨a, (Table.mem_insert? hinsert).mpr (.inl ha), hax⟩
    · obtain rfl := List.mem_singleton.mp hx
      exact ⟨device, (Table.mem_insert? hinsert).mpr (.inr rfl), rfl⟩
  · rcases List.mem_append.mp hx with hx | hx
    · exact h.times x hx
    · obtain rfl := List.mem_singleton.mp hx
      exact Int.le_of_eq htime

theorem Inv.step {e : DeviceEvent} (h : s.Inv) (hstep : deviceStep hashes s e = some t) : t.Inv := by
  cases e with
  | upsert userId userAgent trustDays readAt newId =>
    simp only [deviceStep, upsert] at hstep
    split_ifs at hstep
    all_goals
      split at hstep
      · cases hstep
        exact h.write rfl fun _ => rfl
      · obtain ⟨devices, hinsert, rfl⟩ := Option.map_eq_some_iff.mp hstep
        exact h.insert hinsert rfl rfl
  | setTrust id trustedUntil =>
    cases hstep
    exact h.write rfl fun _ => rfl
  | forget id =>
    cases hstep
    exact h.write rfl fun _ => rfl
  | tick now =>
    simp only [deviceStep, Option.ite_none_right_eq_some, Option.some.injEq] at hstep
    obtain ⟨hnow, rfl⟩ := hstep
    exact ⟨h.rows, h.known, fun x hx => Int.le_trans (h.times x hx) hnow⟩

theorem run_inv {now : Instant} {es : List DeviceEvent} (h : Run (deviceStep hashes) Any (start now) es s) : s.Inv :=
  h.invariant ⟨nofun, nofun, nofun⟩ fun _ _ _ hinv _ => hinv.step

theorem standing_eq {now : Instant} {es : List DeviceEvent} (h : Run (deviceStep hashes) Any (start now) es s)
    {device : Device} (hdevice : device ∈ s.devices) : device.standing = standing (s.history device.id) :=
  (run_inv h).rows device hdevice

/-- **Trust is an open grant**: a device reads as trusted only while the window of its last grant is open,
and it was not forgotten since, where no device was forgotten with its window open. -/
theorem run_trusted {now : Instant} {es : List DeviceEvent} (h : Run (deviceStep hashes) Any (start now) es s) :
    ∀ device ∈ s.devices, device.trusted s.now = true →
      ∃ before grant after window, s.history device.id = before ++ grant :: after ∧
        grant.Grants (standing before) window ∧ s.now < window ∧ (∀ x ∈ after, x.sets = false) ∧
        (ForgottenClosed (s.history device.id) → ∀ x ∈ after, x.forgets = false) := by
  intro device hdevice htrusted
  obtain ⟨window, hwindow⟩ : ∃ window, device.trustedUntil = some window := by
    cases hwindow : device.trustedUntil with
    | none => simp [Device.trusted, hwindow] at htrusted
    | some window => exact ⟨window, rfl⟩
  have hopen : s.now < window := by simpa [Device.trusted, hwindow] using htrusted
  have hstanding : (standing (s.history device.id)).trustedUntil = some window := by
    rw [← standing_eq h hdevice]
    exact hwindow
  obtain ⟨before, grant, after, hhistory, hgrant, hafter⟩ := exists_grant hstanding
  refine ⟨before, grant, after, window, hhistory, hgrant, hopen, hafter, fun hclosed => ?_⟩
  rw [hhistory] at hclosed
  refine not_forgotten_since hclosed hgrant hafter (fun x hx => ?_) hopen
  have hmem : x ∈ s.history device.id := hhistory ▸ List.mem_append_right _ (List.mem_cons_of_mem _ hx)
  obtain ⟨y, hy, rfl⟩ := List.mem_map.mp hmem
  exact (run_inv h).times y (List.mem_filter.mp hy).1

/-! ### Some runs -/

/-- The hash of a client that sends no user agent. -/
def agentHashes : Hashes where
  sha256 _ := ⟨[0x89, 0x22, 0xe9, 0x6a, 0x60, 0xd8, 0x71, 0x31, 0x29, 0x5f, 0x79, 0xdb, 0x54, 0x19, 0xb7, 0x97,
    0xd7, 0xf3, 0x41, 0xba,
      0x6f, 0xd3, 0xe9, 0xb0, 0x0e, 0x0c, 0x60, 0x1f, 0xdb, 0xfc, 0x54, 0xf8], rfl⟩
  hmacSha1 _ _ := .zeros 20
  hmacSha256 _ _ := .zeros 32

/-- What is computed of a run: whether device 1 reads as trusted, and its history. -/
theorem of_exec {es : List DeviceEvent} {entries : List Entry}
    (hexec : (exec (deviceStep agentHashes) (start 0) es).map
      (fun s => (s.devices.rows.any fun device => device.id = 1 && device.trusted s.now, s.history 1)) =
      some (true, entries)) :
    ∃ s, Run (deviceStep agentHashes) Any (start 0) es s ∧
      (∃ device ∈ s.devices, device.id = 1 ∧ device.trusted s.now = true) ∧ s.history 1 = entries := by
  obtain ⟨s, hrun, heq⟩ := Run.of_exec_map hexec
  obtain ⟨hany, hhistory⟩ := Prod.mk.inj heq
  obtain ⟨device, hdevice, htrusted⟩ := List.any_eq_true.mp hany
  simp only [Bool.and_eq_true, decide_eq_true_eq] at htrusted
  exact ⟨s, hrun, ⟨device, hdevice, htrusted⟩, hhistory⟩

/-- A device that is trusted for a month is forgotten and signs in again; and a device signs in for the first
time, under 30 trust days. -/
theorem trusted_after_forget :
    (∃ s, Run (deviceStep agentHashes) Any (start 0)
        [.upsert 7 none 0 0 1, .setTrust 1 (some 2592000000000), .tick 1, .forget 1, .tick 2, .upsert 7 none 0 2 2] s ∧
      (∃ device ∈ s.devices, device.id = 1 ∧ device.trusted s.now = true) ∧
      s.history 1 = [.signedIn 0 none, .trustSet 0 (some 2592000000000), .forgotten 1, .signedIn 2 none]) ∧
    ∃ s, Run (deviceStep agentHashes) Any (start 0) [.upsert 7 none 30 0 1] s ∧
      (∃ device ∈ s.devices, device.id = 1 ∧ device.trusted s.now = true) ∧
      s.history 1 = [.signedIn 0 (some 2592000000000)] :=
  ⟨of_exec (by decide +kernel), of_exec (by decide +kernel)⟩

/-- A device that is forgotten after its window, signs in again, and is trusted once more. -/
def comeback : List DeviceEvent :=
  [.upsert 7 none 0 0 1, .setTrust 1 (some 1), .tick 2, .forget 1, .tick 3, .upsert 7 none 0 3 2, .setTrust 1 (some 10)]

/-- What is done to it. -/
def comebackHistory : List Entry :=
  [.signedIn 0 none, .trustSet 0 (some 1), .forgotten 2, .signedIn 3 none, .trustSet 3 (some 10)]

theorem forgottenClosed_comeback : ForgottenClosed comebackHistory := by
  intro before time after hhistory window hwindow
  have hat : comebackHistory[before.length]? = some (.forgotten time) := by simp [hhistory]
  have htake : before = comebackHistory.take before.length := by simp [hhistory]
  -- It is forgotten once, after the first two entries.
  match hlength : before.length with
  | 0 | 1 | 3 | 4 | _ + 5 => simp [hlength, comebackHistory] at hat
  | 2 =>
    rw [htake, hlength, show standing (comebackHistory.take 2) = ⟨some 1, none⟩ from rfl] at hwindow
    simp only [hlength, comebackHistory] at hat
    cases hat
    cases hwindow
    decide

theorem run_trusted_comeback :
    ∃ s, Run (deviceStep agentHashes) Any (start 0) comeback s ∧ ForgottenClosed (s.history 1) ∧
      .forgotten 2 ∈ s.history 1 ∧ ∃ before grant after window, s.history 1 = before ++ grant :: after ∧
        grant.Grants (standing before) window ∧ s.now < window ∧ (∀ x ∈ after, x.sets = false) ∧
        ∀ x ∈ after, x.forgets = false := by
  have hexec : (exec (deviceStep agentHashes) (start 0) comeback).map
      (fun s => (s.devices.rows.any fun device => device.id = 1 && device.trusted s.now, s.history 1)) =
      some (true, comebackHistory) := by decide +kernel
  obtain ⟨s, hrun, ⟨device, hdevice, hid, htrusted⟩, hhistory⟩ := of_exec hexec
  have htrust := run_trusted hrun device hdevice htrusted
  rw [hid] at htrust
  obtain ⟨before, grant, after, window, hsplit, hgrant, hopen, hsets, hforgets⟩ := htrust
  have hclosed : ForgottenClosed (s.history 1) := hhistory ▸ forgottenClosed_comeback
  exact ⟨s, hrun, hclosed, by rw [hhistory]; decide, before, grant, after, window, hsplit, hgrant, hopen, hsets,
    hforgets hclosed⟩

end Registry

end Omnion.Identity.Devices
