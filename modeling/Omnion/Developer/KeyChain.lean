import Omnion.Developer.Keys

/-!
# Chains of rotated keys

`issue`, `verify_secret` and `hash_token` of `crates/developer/src/keys.rs` with `authenticate` of
`keys_store.rs`: a key is rotated, and what takes its place is rotated again.

## The model

The store is that of `Omnion.Developer.Keys`. `hashToken` stands for the hash of a token in
hexadecimal; nothing is asked of it. `authenticate` reads the first row with the prefix of the
token; the query asks for no order, so the rows come in any order.

## What is proved

* `lasts_iff_sustainable` — a whole chain does, just when the name has room for every suffix, no
  live key has one of the names in the lower case of the database, nor has one name that of the
  next, and every id, hash and prefix drawn is new to the table.

## Honest scope

The digest and the generator of random bytes are outside. `last_used_at`, which `authenticate`
writes and no decision reads, is left out.
-/

namespace Omnion.Developer

open Text (rsplitOnce)

/-! ### Tokens -/

/-- The first part of every token. -/
def KEY_NAMESPACE : String := "omndev"

/-- Random characters of a prefix. -/
def PREFIX_LENGTH : ℕ := 10

/-- Random characters of a secret. -/
def SECRET_LENGTH : ℕ := 32

/-- The environment of a token of no known environment. -/
def ENVIRONMENT_SANDBOX : String := "sandbox"

/-- What prefixes and secrets are drawn from. -/
def ALPHABET : List Char := "abcdefghijklmnopqrstuvwxyz0123456789".toList

def alphabetChar (byte : UInt8) : Char := ALPHABET.getD (byte.toNat % 36 % ALPHABET.length) 'a'

/-- What the generator fills in for one token. -/
structure Draw where
  prefixBytes : List UInt8
  secretBytes : List UInt8
  length_prefixBytes : prefixBytes.length = PREFIX_LENGTH
  length_secretBytes : secretBytes.length = SECRET_LENGTH

/-- A token, with what is stored of it. -/
structure Token where
  text : String
  secret : Secret

/-- The prefix of a token. -/
def prefixOf (environment : String) (draw : Draw) : String :=
  KEY_NAMESPACE ++ "_" ++ environment ++ "_" ++ String.ofList (draw.prefixBytes.map alphabetChar)

/-- Mint a token. -/
def issue (hashToken : String → String) (environment : String) (draw : Draw) : Token :=
  let environment := (parseEnvironment environment).toOption.getD ENVIRONMENT_SANDBOX
  let keyPrefix := prefixOf environment draw
  let text := keyPrefix ++ "_" ++ String.ofList (draw.secretBytes.map alphabetChar)
  ⟨text, keyPrefix, hashToken text⟩

/-- Compare the hash of what is presented with the one that is stored. -/
def verifySecret (hashToken : String → String) (presented storedHash : String) : Bool :=
  let candidate := hashToken presented
  if candidate.utf8ByteSize ≠ storedHash.utf8ByteSize then false else candidate = storedHash

/-- Present a token, where the rows of the table are read in the order of `rows`. -/
def authenticate (hashToken : String → String) (rows : List ApiKey) (token : String) (now : Instant) : Option ApiKey :=
  match rsplitOnce '_' token.toList with
  | none => none
  | some (keyPrefix, secret) =>
    if secret = [] then none
    else if '_' ∉ keyPrefix then none
    else
      match rows.find? (·.keyPrefix = String.ofList keyPrefix) with
      | none => none
      | some row =>
        if !row.isActiveAt now then none else if !verifySecret hashToken token row.keyHash then none else some row

/-! ### Chains -/

/-- A key and the token that was handed out with it. -/
structure Handed where
  row : ApiKey
  token : String

/-- A rotation: when it is asked for, and what is drawn. -/
structure Rotation where
  now : Instant
  newId : Uuid
  draw : Draw

variable (lower : String → String)

/-- Rotate the newest key of a chain. -/
def rotateNewest (hashToken : String → String) (keys : Keys) (newest : Handed) (r : Rotation) :
    Except DeveloperError (Handed × Keys) :=
  let token := issue hashToken newest.row.environment r.draw
  match rotate lower keys newest.row.organizationId newest.row.id r.now r.newId token.secret with
  | .error error => .error error
  | .ok (row, keys) => .ok (⟨row, token.text⟩, keys)

/-- From a moment on, and until the key expires, its token is good and those before it are refused, in whatever order
the rows are read. -/
structure Serves (hashToken : String → String) (keys : Keys) (newest : Handed) (earlier : List Handed)
    (since : Instant) : Prop where
  good : ∀ now, since ≤ now → newest.row.expiresAt.all (now < ·) → ∀ rows : List ApiKey, rows.Perm keys.rows →
    authenticate hashToken rows newest.token now = some newest.row
  refused : ∀ e ∈ earlier, ∀ now, since ≤ now → newest.row.expiresAt.all (now < ·) → ∀ rows : List ApiKey,
    rows.Perm keys.rows → authenticate hashToken rows e.token now = none

/-- Every rotation of a chain succeeds and serves. -/
def Lasts (hashToken : String → String) (keys : Keys) (newest : Handed) (earlier : List Handed) : List Rotation → Prop
  | [] => True
  | r :: rest => ∃ next keys', rotateNewest lower hashToken keys newest r = .ok (next, keys') ∧
      Serves hashToken keys' next (newest :: earlier) r.now ∧ Lasts hashToken keys' next (newest :: earlier) rest

/-- A name after a number of rotations. -/
def rotatedName (name : String) : ℕ → String
  | 0 => name
  | n + 1 => rotatedName (name ++ " (rotated)") n

/-- What is drawn is new, each time. -/
structure Fresh {α : Type*} (taken drawn : List α) : Prop where
  nodup : drawn.Nodup
  new : ∀ a ∈ drawn, a ∉ taken

/-- What is stored of the tokens of a chain. -/
def secrets (hashToken : String → String) (environment : String) (rotations : List Rotation) : List Secret :=
  rotations.map fun r => (issue hashToken environment r.draw).secret

/-- What a chain needs: of the name of its first key, of the table, and of what is drawn. -/
structure Sustainable (hashToken : String → String) (keys : Keys) (row : ApiKey) (rotations : List Rotation) :
    Prop where
  name : row.name.length + 10 * rotations.length ≤ MAX_NAME_LENGTH
  apart : ∀ n < rotations.length, ∀ other ∈ keys, other.id ≠ row.id → other.revokedAt = none →
    other.organizationId = row.organizationId → other.environment = row.environment →
    lower other.name ≠ lower (rotatedName row.name (n + 1))
  /-- Each name differs in lower case from the next. -/
  names : ∀ n < rotations.length, lower (rotatedName row.name n) ≠ lower (rotatedName row.name (n + 1))
  ids : Fresh (keys.rows.map (·.id)) (rotations.map (·.newId))
  hashes : Fresh (keys.rows.map (·.keyHash)) ((secrets hashToken row.environment rotations).map (·.hash))
  prefixes : Fresh (keys.rows.map (·.keyPrefix)) ((secrets hashToken row.environment rotations).map (·.keyPrefix))

/-! ### One token -/

section Tokens

variable {lower} {hashToken : String → String} {environment : String} {draw : Draw} {rows : List ApiKey} {row k : ApiKey}
  {now : Instant} {token : String}

theorem alphabetChar_ne (byte : UInt8) : alphabetChar byte ≠ '_' := by
  have hmem : ∀ n, ALPHABET.getD n 'a' ∈ ALPHABET := by
    intro n
    rw [List.getD_eq_getElem?_getD]
    cases h : ALPHABET[n]? with
    | none => decide
    | some c => exact List.mem_of_getElem? h
  intro h
  have hmark := hmem (byte.toNat % 36 % ALPHABET.length)
  rw [← alphabetChar, h] at hmark
  revert hmark
  decide

theorem verifySecret_iff {storedHash : String} : verifySecret hashToken token storedHash = true ↔
    hashToken token = storedHash := by
  rw [verifySecret]
  split_ifs with hsize
  · refine iff_of_false (by simp) fun h => hsize ?_
    rw [h]
  · exact decide_eq_true_iff

theorem authenticate_eq_some (h : authenticate hashToken rows token now = some row) :
    row ∈ rows ∧ row.isActiveAt now = true ∧ hashToken token = row.keyHash := by
  rw [authenticate] at h
  split at h
  · cases h
  · split_ifs at h
    split at h
    · cases h
    · rename_i found hfound
      split_ifs at h with hactive hhash
      cases h
      refine ⟨List.mem_of_find?_eq_some hfound, by simpa using hactive, ?_⟩
      exact verifySecret_iff.mp (by simpa using hhash)

/-- **A token that was issued** finds the first row with its prefix. -/
theorem authenticate_issue : authenticate hashToken rows (issue hashToken environment draw).text now =
    (rows.find? (·.keyPrefix = (issue hashToken environment draw).secret.keyPrefix)).bind fun row =>
      if row.isActiveAt now ∧ row.keyHash = (issue hashToken environment draw).secret.hash then some row else none := by
  generalize htoken : issue hashToken environment draw = issued
  obtain ⟨body, hkeyed, htext⟩ : ∃ body, issued.secret.keyPrefix.toList = KEY_NAMESPACE.toList ++ '_' :: body ∧
      issued.text.toList = issued.secret.keyPrefix.toList ++ '_' :: draw.secretBytes.map alphabetChar := by
    rw [← htoken, issue]
    exact ⟨_, by simp [prefixOf]; rfl, by simp⟩
  have hhash : issued.secret.hash = hashToken issued.text := by
    rw [← htoken, issue]
  have hsplit : rsplitOnce '_' issued.text.toList =
      some (issued.secret.keyPrefix.toList, draw.secretBytes.map alphabetChar) := by
    rw [htext]
    refine Text.rsplitOnce_append (fun hmark => ?_) _
    obtain ⟨byte, -, hbyte⟩ := List.mem_map.mp hmark
    exact alphabetChar_ne byte hbyte
  have hsecret : draw.secretBytes.map alphabetChar ≠ [] := by
    refine List.ne_nil_of_length_pos ?_
    rw [List.length_map, draw.length_secretBytes]
    decide
  rw [authenticate, hsplit]
  simp only [if_neg hsecret]
  rw [if_neg (by rw [not_not, hkeyed]; simp), String.ofList_toList]
  cases rows.find? (·.keyPrefix = issued.secret.keyPrefix) with
  | none => rfl
  | some row =>
    rw [Option.bind_some]
    by_cases hactive : row.isActiveAt now = true
    · by_cases hrow : row.keyHash = issued.secret.hash
      · have hverify := verifySecret_iff.mpr (hhash.symm.trans hrow.symm)
        rw [if_pos ⟨hactive, hrow⟩]
        simp [hactive, hverify]
      · have hverify : verifySecret hashToken issued.text row.keyHash ≠ true := fun h =>
          hrow ((verifySecret_iff.mp h).symm.trans hhash.symm)
        simp [hactive, hrow, hverify]
    · simp [hactive]

theorem authenticate_of_only (hmem : row ∈ rows)
    (hkeyed : row.keyPrefix = (issue hashToken environment draw).secret.keyPrefix)
    (honly : ∀ k ∈ rows, k.keyPrefix = row.keyPrefix → k = row) (hactive : row.isActiveAt now = true)
    (hhash : row.keyHash = (issue hashToken environment draw).secret.hash) :
    authenticate hashToken rows (issue hashToken environment draw).text now = some row := by
  rw [authenticate_issue, ← hkeyed]
  cases hfind : rows.find? (·.keyPrefix = row.keyPrefix) with
  | none =>
    have hmissing := List.find?_eq_none.mp hfind row hmem
    simp at hmissing
  | some k =>
    obtain rfl := honly k (List.mem_of_find?_eq_some hfind) (by simpa using List.find?_some hfind)
    simp [hactive, hhash]

theorem authenticate_hidden (hkeyed : k.keyPrefix = (issue hashToken environment draw).secret.keyPrefix)
    (hne : k ≠ row) : authenticate hashToken (k :: rows) (issue hashToken environment draw).text now ≠ some row := by
  rw [authenticate_issue, List.find?_cons_of_pos (by simpa using hkeyed), Option.bind_some]
  split_ifs
  · exact fun h => hne (Option.some.inj h)
  · simp

end Tokens

/-! ### One rotation -/

section Rotations

variable {lower} {hashToken : String → String} {keys keys' inserted : Keys} {newest next : Handed} {earlier : List Handed}
  {r : Rotation} {row k : ApiKey}

theorem insertKey_eq_some_iff : insertKey lower keys row = some keys' ↔ row.environment ∈ ENVIRONMENTS ∧
    (MIN_NAME_LENGTH ≤ (btrim row.name).length ∧ (btrim row.name).length ≤ MAX_NAME_LENGTH) ∧
    (row.scopes ≠ [] ∧ row.scopes.length ≤ MAX_SCOPES) ∧
    (∀ k ∈ keys, k.keyHash ≠ row.keyHash ∧ row.clashes lower k = false) ∧ keys.insert? row = some keys' := by
  rw [insertKey]
  split_ifs with henvironment hname hscopes hother
  · refine iff_of_false nofun fun h => ?_
    omega
  · refine iff_of_false nofun fun h => ?_
    rcases hscopes with hscopes | hscopes
    · exact h.2.2.1.1 hscopes
    · omega
  · refine iff_of_false nofun fun h => ?_
    obtain ⟨k, hk, hclash⟩ := List.any_eq_true.mp hother
    simp [h.2.2.2.1 k hk] at hclash
  · refine ⟨fun h => ⟨henvironment, by omega, ?_, fun k hk => ?_, h⟩, fun h => h.2.2.2.2⟩
    · rw [not_or, not_lt] at hscopes
      exact hscopes
    · rw [Bool.not_eq_true, List.any_eq_false] at hother
      simpa using hother k hk
  · exact iff_of_false nofun fun h => henvironment h.1

theorem btrim_rotated {name : String} {c : Char} {rest : List Char} (hname : name.toList = c :: rest) (hc : c ≠ ' ') :
    btrim (name ++ " (rotated)") = name ++ " (rotated)" := by
  have hends : (name ++ " (rotated)").toList =
      c :: (rest ++ [' ', '(', 'r', 'o', 't', 'a', 't', 'e', 'd'] ++ [')']) := by
    rw [String.toList_append, hname]
    simp
  rw [btrim, hends, List.dropWhile_cons_of_neg (by simpa using hc), ← List.cons_append,
    List.rdropWhile_concat_neg _ _ _ (by simp), List.cons_append, ← hends, String.ofList_toList]

theorem length_rotated (name : String) : (name ++ " (rotated)").length = name.length + 10 := by
  rw [String.length_append]
  rfl

/-- A row after another one was revoked. -/
def ApiKey.after (k previous : ApiKey) (now : Instant) : ApiKey :=
  if k.id = previous.id then { k with revokedAt := some now } else k

theorem ApiKey.after_same (k previous : ApiKey) (now : Instant) :
    (k.after previous now).id = k.id ∧ (k.after previous now).keyHash = k.keyHash ∧
      (k.after previous now).keyPrefix = k.keyPrefix ∧ (k.after previous now).name = k.name ∧
      (k.after previous now).organizationId = k.organizationId ∧
      (k.after previous now).environment = k.environment := by
  rw [ApiKey.after]
  split_ifs <;> exact ⟨rfl, rfl, rfl, rfl, rfl, rfl⟩

theorem ApiKey.after_revokedAt {k previous : ApiKey} {now : Instant} (h : (k.after previous now).revokedAt = none) :
    k.after previous now = k ∧ k.id ≠ previous.id := by
  rw [ApiKey.after] at h ⊢
  split_ifs at h ⊢ with hid
  exact ⟨rfl, hid⟩

/-- The invariant of a chain: the newest key is live and has a hash of its own, the earlier ones are kept, and what has
their hashes is revoked. -/
structure Chained (hashToken : String → String) (keys : Keys) (newest : Handed) (earlier : List Handed) : Prop where
  mem : newest.row ∈ keys
  live : newest.row.revokedAt = none
  hash : newest.row.keyHash = hashToken newest.token
  own : ∀ k ∈ keys, k.keyHash = newest.row.keyHash → k = newest.row
  kept : ∀ e ∈ earlier, ∃ k ∈ keys, k.keyHash = hashToken e.token
  dead : ∀ e ∈ earlier, ∀ k ∈ keys, k.keyHash = hashToken e.token → k.revokedAt.isSome = true
  environment : newest.row.environment ∈ ENVIRONMENTS
  scopes : newest.row.scopes ≠ [] ∧ newest.row.scopes.length ≤ MAX_SCOPES
  named : ∃ c rest, newest.row.name.toList = c :: rest ∧ c ≠ ' '
  short : newest.row.name.length ≤ MAX_NAME_LENGTH

/-- What a rotation needs of the state before it, and of what is drawn. -/
structure Fit (lower hashToken : String → String) (keys : Keys) (row : ApiKey) (r : Rotation) : Prop where
  name : row.name.length + 10 ≤ MAX_NAME_LENGTH
  apart : ∀ other ∈ keys, other.revokedAt = none → other.organizationId = row.organizationId →
    other.environment = row.environment → lower other.name ≠ lower (row.name ++ " (rotated)")
  id : r.newId ∉ keys.rows.map (·.id)
  hash : (issue hashToken row.environment r.draw).secret.hash ∉ keys.rows.map (·.keyHash)
  keyPrefix : (issue hashToken row.environment r.draw).secret.keyPrefix ∉ keys.rows.map (·.keyPrefix)

/-- The newest key of a chain is found when it is rotated. -/
theorem rotateNewest_eq_ok (hmem : newest.row ∈ keys) (hlive : newest.row.revokedAt = none) :
    rotateNewest lower hashToken keys newest r = .ok (next, keys') ↔ ∃ inserted,
      insertKey lower keys (newest.row.successor r.now r.newId (issue hashToken newest.row.environment r.draw).secret) =
        some inserted ∧
      next = ⟨newest.row.successor r.now r.newId (issue hashToken newest.row.environment r.draw).secret,
        (issue hashToken newest.row.environment r.draw).text⟩ ∧
      keys' = revokeRow inserted newest.row.id r.now := by
  have hfind : (keys.rows.find? fun k => k.id = newest.row.id && k.organizationId = newest.row.organizationId) =
      some newest.row := by
    cases hfind : keys.rows.find? fun k => k.id = newest.row.id && k.organizationId = newest.row.organizationId with
    | none =>
      have hmissing := List.find?_eq_none.mp hfind newest.row hmem
      simp at hmissing
    | some k =>
      have hid : k.id = newest.row.id := by
        have hfound := List.find?_some hfind
        simp only [Bool.and_eq_true, decide_eq_true_eq] at hfound
        exact hfound.1
      rw [Table.eq_of_key (List.mem_of_find?_eq_some hfind) hmem hid]
  rw [rotateNewest]
  cases hrotate : rotate lower keys newest.row.organizationId newest.row.id r.now r.newId
      (issue hashToken newest.row.environment r.draw).secret with
  | error error =>
    refine iff_of_false nofun ?_
    rintro ⟨inserted, hinserted, -, -⟩
    rw [rotate_eq_ok.mpr ⟨_, inserted, hfind, hlive, hinserted, rfl, rfl⟩] at hrotate
    cases hrotate
  | ok rotated =>
    obtain ⟨previous, inserted, hprevious, -, hinserted, hrow, hkeys⟩ := rotate_eq_ok.mp hrotate
    obtain rfl := Option.some.inj (hfind.symm.trans hprevious)
    constructor
    · intro h
      cases h
      exact ⟨inserted, hinserted, by rw [hrow], hkeys⟩
    · rintro ⟨other, hother, rfl, rfl⟩
      obtain rfl := Option.some.inj (hinserted.symm.trans hother)
      simp only
      rw [hrow, hkeys]

theorem mem_rotated (k : ApiKey) (now : Instant) {s previous : ApiKey}
    (hinserted : insertKey lower keys s = some inserted) (hmem : previous ∈ keys) :
    k ∈ revokeRow inserted previous.id now ↔ k = s ∨ ∃ o ∈ keys, k = o.after previous now := by
  obtain ⟨-, -, -, -, hinsert⟩ := insertKey_eq_some_iff.mp hinserted
  have hnew : s.id ≠ previous.id := by
    intro h
    exact Table.find?_eq_none.mp (Table.insert?_eq_some hinsert).1 previous hmem h.symm
  simp only [revokeRow, Table.mem_update, Table.mem_insert? hinsert, or_and_right, exists_or, exists_eq_left,
    decide_eq_true_eq, if_neg hnew]
  rw [or_comm, eq_comm]
  refine or_congr_right (exists_congr fun o => and_congr_right fun _ => ?_)
  rw [ApiKey.after, eq_comm]

/-- When the row of a rotation can be inserted. -/
theorem insert_successor_iff (h : Chained hashToken keys newest earlier) (secret : Secret) :
    (∃ inserted, insertKey lower keys (newest.row.successor r.now r.newId secret) = some inserted) ↔
      newest.row.name.length + 10 ≤ MAX_NAME_LENGTH ∧
      (∀ other ∈ keys, other.revokedAt = none → other.organizationId = newest.row.organizationId →
        other.environment = newest.row.environment →
        lower other.name ≠ lower (newest.row.name ++ " (rotated)")) ∧
      r.newId ∉ keys.rows.map (·.id) ∧ secret.hash ∉ keys.rows.map (·.keyHash) := by
  obtain ⟨c, rest, hname, hc⟩ := h.named
  have hlength : (btrim (newest.row.name ++ " (rotated)")).length = newest.row.name.length + 10 := by
    rw [btrim_rotated hname hc, length_rotated]
  have hclash : ∀ k, (newest.row.successor r.now r.newId secret).clashes lower k = false ↔
      (k.revokedAt = none → k.organizationId = newest.row.organizationId → k.environment = newest.row.environment →
        lower k.name ≠ lower (newest.row.name ++ " (rotated)")) := by
    intro k
    rw [← Bool.not_eq_true]
    simp only [ApiKey.clashes, ApiKey.successor, Bool.and_eq_true, beq_iff_eq, Option.isNone_iff_eq_none]
    grind
  have hinsert : (∃ inserted, keys.insert? (newest.row.successor r.now r.newId secret) = some inserted) ↔
      r.newId ∉ keys.rows.map (·.id) := by
    rw [Table.insert?]
    split_ifs with hid
    · exact iff_of_false (by simp) (not_not.mpr hid)
    · exact iff_of_true ⟨_, rfl⟩ hid
  simp only [insertKey_eq_some_iff, exists_and_left]
  rw [hinsert]
  constructor
  · rintro ⟨-, ⟨-, hmax⟩, -, hrows, hid⟩
    refine ⟨?_, fun k hk => (hclash k).mp (hrows k hk).2, hid, ?_⟩
    · rw [← hlength]
      exact hmax
    · intro hhash
      obtain ⟨k, hk, heq⟩ := List.mem_map.mp hhash
      exact (hrows k hk).1 heq
  · rintro ⟨hmax, hapart, hid, hhash⟩
    refine ⟨h.environment, ⟨?_, ?_⟩, h.scopes, fun k hk => ⟨fun heq => ?_, (hclash k).mpr (hapart k hk)⟩, hid⟩
    · change MIN_NAME_LENGTH ≤ (btrim (newest.row.name ++ " (rotated)")).length
      rw [hlength, MIN_NAME_LENGTH]
      omega
    · change (btrim (newest.row.name ++ " (rotated)")).length ≤ MAX_NAME_LENGTH
      rwa [hlength]
    · exact hhash (List.mem_map.mpr ⟨k, hk, heq⟩)

/-- **A rotation keeps the invariant.** -/
theorem Chained.rotate (h : Chained hashToken keys newest earlier)
    (hok : rotateNewest lower hashToken keys newest r = .ok (next, keys')) :
    Chained hashToken keys' next (newest :: earlier) := by
  obtain ⟨inserted, hinserted, rfl, rfl⟩ := (rotateNewest_eq_ok h.mem h.live).mp hok
  obtain ⟨-, -, -, hrows, -⟩ := insertKey_eq_some_iff.mp hinserted
  obtain ⟨c, rest, hname, hc⟩ := h.named
  have hrotated := fun k => mem_rotated k r.now hinserted h.mem
  have hkept : ∀ e ∈ newest :: earlier, ∃ k ∈ keys, k.keyHash = hashToken e.token :=
    List.forall_mem_cons.mpr ⟨⟨_, h.mem, h.hash⟩, h.kept⟩
  refine ⟨(hrotated _).mpr (.inl rfl), rfl, rfl, fun k hk hhash => ?_, fun e he => ?_, fun e he k hk hhash => ?_,
    h.environment, h.scopes, ⟨c, rest ++ " (rotated)".toList, ?_, hc⟩, ?_⟩
  · rcases (hrotated k).mp hk with rfl | ⟨o, ho, rfl⟩
    · rfl
    · rw [(o.after_same _ _).2.1] at hhash
      exact absurd hhash (hrows o ho).1
  · obtain ⟨k, hk, hhash⟩ := hkept e he
    exact ⟨_, (hrotated _).mpr (.inr ⟨k, hk, rfl⟩), (k.after_same _ _).2.1.trans hhash⟩
  · rcases (hrotated k).mp hk with rfl | ⟨o, ho, rfl⟩
    · -- the new hash is that of no row that was in the table
      obtain ⟨old, hold, heq⟩ := hkept e he
      exact absurd (heq.trans hhash.symm) (hrows old hold).1
    · rw [(o.after_same _ _).2.1] at hhash
      by_contra hlive
      obtain ⟨hsame, hid⟩ := ApiKey.after_revokedAt (Option.not_isSome_iff_eq_none.mp hlive)
      rw [hsame] at hlive
      rcases List.mem_cons.mp he with rfl | he
      · exact hid (congrArg ApiKey.id (h.own o ho (hhash.trans h.hash.symm)))
      · exact hlive (h.dead e he o ho hhash)
  · rw [ApiKey.successor]
    simp [hname]
  · change (newest.row.name ++ " (rotated)").length ≤ MAX_NAME_LENGTH
    rw [length_rotated]
    exact ((insert_successor_iff h _).mp ⟨inserted, hinserted⟩).1

/-- **A rotation that succeeds serves** just when its prefix is new. -/
theorem serves_iff (h : Chained hashToken keys newest earlier)
    (hok : rotateNewest lower hashToken keys newest r = .ok (next, keys'))
    (hbefore : newest.row.expiresAt.all (r.now < ·) = true) :
    Serves hashToken keys' next (newest :: earlier) r.now ↔
      (issue hashToken newest.row.environment r.draw).secret.keyPrefix ∉ keys.rows.map (·.keyPrefix) := by
  have hchained := h.rotate hok
  obtain ⟨inserted, hinserted, rfl, rfl⟩ := (rotateNewest_eq_ok h.mem h.live).mp hok
  have hrotated := fun k => mem_rotated k r.now hinserted h.mem
  constructor
  · intro hserves hmem
    obtain ⟨o, ho, hkeyed⟩ := List.mem_map.mp hmem
    have hafter := (hrotated _).mpr (.inr ⟨o, ho, rfl⟩)
    -- the database may read that row first
    refine authenticate_hidden ((o.after_same _ _).2.2.1.trans hkeyed) (fun hsame => ?_)
      (hserves.good r.now le_rfl hbefore _ (List.perm_cons_erase hafter).symm)
    obtain ⟨-, -, -, hrows, -⟩ := insertKey_eq_some_iff.mp hinserted
    exact (hrows o ho).1 ((o.after_same _ _).2.1.symm.trans (congrArg ApiKey.keyHash hsame))
  · intro hkeyed
    refine ⟨fun now _ hnow rows hrows => ?_, fun e he now _ _ rows hrows => ?_⟩
    · refine authenticate_of_only (hrows.mem_iff.mpr hchained.mem) rfl (fun k hk hsame => ?_) ?_ rfl
      · rcases (hrotated k).mp (hrows.mem_iff.mp hk) with rfl | ⟨o, ho, rfl⟩
        · rfl
        · rw [(o.after_same _ _).2.2.1] at hsame
          exact absurd (List.mem_map.mpr ⟨o, ho, hsame⟩) hkeyed
      · have hexpires : newest.row.expiresAt.any (· ≤ now) = false := by
          change newest.row.expiresAt.all (now < ·) = true at hnow
          cases hexpiry : newest.row.expiresAt with
          | none => rfl
          | some expiry => simpa [hexpiry] using hnow
        simp [ApiKey.isActiveAt, ApiKey.statusAt, ApiKey.successor, hexpires]
    · cases hauth : authenticate hashToken rows e.token now with
      | none => rfl
      | some k =>
        obtain ⟨hk, hactive, hhash⟩ := authenticate_eq_some hauth
        have hdead := hchained.dead e he k (hrows.mem_iff.mp hk) hhash.symm
        simp [ApiKey.isActiveAt, ApiKey.statusAt, hdead] at hactive

/-- **One rotation** succeeds and serves just when it is fit. -/
theorem rotateNewest_serves_iff (h : Chained hashToken keys newest earlier)
    (hbefore : newest.row.expiresAt.all (r.now < ·) = true) :
    (∃ next keys', rotateNewest lower hashToken keys newest r = .ok (next, keys') ∧
      Serves hashToken keys' next (newest :: earlier) r.now) ↔ Fit lower hashToken keys newest.row r := by
  have hinsert := @insert_successor_iff lower _ _ _ _ r h (issue hashToken newest.row.environment r.draw).secret
  constructor
  · rintro ⟨next, keys', hok, hserves⟩
    obtain ⟨inserted, hinserted, -, -⟩ := (rotateNewest_eq_ok h.mem h.live).mp hok
    obtain ⟨hname, hapart, hid, hhash⟩ := hinsert.mp ⟨inserted, hinserted⟩
    exact ⟨hname, hapart, hid, hhash, (serves_iff h hok hbefore).mp hserves⟩
  · rintro ⟨hname, hapart, hid, hhash, hkeyed⟩
    obtain ⟨inserted, hinserted⟩ := hinsert.mpr ⟨hname, hapart, hid, hhash⟩
    have hok := (rotateNewest_eq_ok h.mem h.live).mpr ⟨inserted, hinserted, rfl, rfl⟩
    exact ⟨_, _, hok, (serves_iff h hok hbefore).mpr hkeyed⟩

/-! ### Whole chains -/

theorem fresh_nil {α : Type*} (taken : List α) : Fresh taken [] := ⟨List.nodup_nil, nofun⟩

theorem fresh_cons_iff {α : Type*} {taken taken' : List α} {a : α} (drawn : List α)
    (htaken : ∀ b, b ∈ taken' ↔ b = a ∨ b ∈ taken) :
    Fresh taken (a :: drawn) ↔ a ∉ taken ∧ Fresh taken' drawn := by
  constructor
  · rintro ⟨hnodup, hnew⟩
    obtain ⟨hfirst, hrest⟩ := List.nodup_cons.mp hnodup
    refine ⟨hnew a (by simp), hrest, fun b hb hmem => ?_⟩
    rcases (htaken b).mp hmem with rfl | hmem
    · exact hfirst hb
    · exact hnew b (by simp [hb]) hmem
  · rintro ⟨hfirst, hrest, hnew⟩
    refine ⟨List.nodup_cons.mpr ⟨fun hmem => hnew a hmem ((htaken a).mpr (.inl rfl)), hrest⟩, fun b hb hmem => ?_⟩
    rcases List.mem_cons.mp hb with rfl | hb
    · exact hfirst hmem
    · exact hnew b hb ((htaken b).mpr (.inr hmem))

theorem Sustainable.fit {rest : List Rotation} (hmem : row ∈ keys)
    (h : Sustainable lower hashToken keys row (r :: rest)) : Fit lower hashToken keys row r := by
  refine ⟨?_, fun other hother hlive ho he => ?_, h.ids.new _ (by simp), h.hashes.new _ (by simp [secrets]),
    h.prefixes.new _ (by simp [secrets])⟩
  · have hname := h.name
    rw [List.length_cons] at hname
    omega
  · by_cases hold : other.id = row.id
    · obtain rfl := Table.eq_of_key hother hmem hold
      exact h.names 0 (by simp)
    · exact h.apart 0 (by simp) other hother hold hlive ho he

/-- **What a chain needs** is that its first rotation is fit, and what the rest of it needs. -/
theorem sustainable_cons_iff (h : Chained hashToken keys newest earlier)
    (hok : rotateNewest lower hashToken keys newest r = .ok (next, keys')) (rest : List Rotation) :
    Sustainable lower hashToken keys newest.row (r :: rest) ↔
      Fit lower hashToken keys newest.row r ∧ Sustainable lower hashToken keys' next.row rest := by
  obtain ⟨inserted, hinserted, rfl, rfl⟩ := (rotateNewest_eq_ok h.mem h.live).mp hok
  have hrotated := fun k => mem_rotated k r.now hinserted h.mem
  have hcolumn : ∀ {β : Type} (f : ApiKey → β), (∀ o : ApiKey, f (o.after newest.row r.now) = f o) → ∀ b,
      b ∈ (revokeRow inserted newest.row.id r.now).rows.map f ↔
        b = f (newest.row.successor r.now r.newId (issue hashToken newest.row.environment r.draw).secret) ∨
          b ∈ keys.rows.map f := by
    intro β f hf b
    simp only [List.mem_map]
    constructor
    · rintro ⟨k, hk, rfl⟩
      rcases (hrotated k).mp hk with rfl | ⟨o, ho, rfl⟩
      · exact .inl rfl
      · exact .inr ⟨o, ho, (hf o).symm⟩
    · rintro (rfl | ⟨o, ho, rfl⟩)
      · exact ⟨_, (hrotated _).mpr (.inl rfl), rfl⟩
      · exact ⟨_, (hrotated _).mpr (.inr ⟨o, ho, rfl⟩), hf o⟩
  have hids := fresh_cons_iff (rest.map (·.newId)) (hcolumn (·.id) fun o => (o.after_same _ _).1)
  have hhashes := fresh_cons_iff ((secrets hashToken newest.row.environment rest).map (·.hash))
    (hcolumn (·.keyHash) fun o => (o.after_same _ _).2.1)
  have hprefixes := fresh_cons_iff ((secrets hashToken newest.row.environment rest).map (·.keyPrefix))
    (hcolumn (·.keyPrefix) fun o => (o.after_same _ _).2.2.1)
  constructor
  · intro hall
    obtain ⟨hname, hapart, hnames, hi, hh, hp⟩ := id hall
    refine ⟨hall.fit h.mem, ?_, fun n hn other hother hne hlive ho he => ?_,
      fun n hn => hnames (n + 1) (by simpa using hn), (hids.mp hi).2, (hhashes.mp hh).2, (hprefixes.mp hp).2⟩
    · change (newest.row.name ++ " (rotated)").length + _ ≤ _
      rw [length_rotated]
      rw [List.length_cons] at hname
      omega
    · rcases (hrotated other).mp hother with rfl | ⟨o, hmem, rfl⟩
      · exact absurd rfl hne
      · obtain ⟨hsame, hold⟩ := ApiKey.after_revokedAt hlive
        rw [hsame] at hlive ho he ⊢
        exact hapart (n + 1) (by simpa using hn) o hmem hold hlive ho he
  · rintro ⟨⟨hname, hfirst, hid, hhash, hkeyed⟩, hlength, hapart, hnames, hi, hh, hp⟩
    refine ⟨?_, fun n hn other hother hold hlive ho he => ?_, fun n hn => ?_, hids.mpr ⟨hid, hi⟩,
      hhashes.mpr ⟨hhash, hh⟩, hprefixes.mpr ⟨hkeyed, hp⟩⟩
    · change (newest.row.name ++ " (rotated)").length + _ ≤ _ at hlength
      rw [length_rotated] at hlength
      rw [List.length_cons]
      omega
    · cases n with
      | zero => exact hfirst other hother hlive ho he
      | succ n =>
        have hsame : other.after newest.row r.now = other := if_neg hold
        refine hapart n (by simpa using hn) other ?_ (fun hnew => hid ?_) hlive ho he
        · exact (hrotated other).mpr (.inr ⟨other, hother, hsame.symm⟩)
        · exact List.mem_map.mpr ⟨other, hother, hnew⟩
    · cases n with
      | zero => exact hfirst newest.row h.mem h.live rfl rfl
      | succ n => exact hnames n (by simpa using hn)

/-- The chain, from any key on. -/
theorem Chained.lasts_iff (h : Chained hashToken keys newest earlier) {rotations : List Rotation}
    (hbefore : ∀ r ∈ rotations, newest.row.expiresAt.all (r.now < ·) = true) :
    Lasts lower hashToken keys newest earlier rotations ↔ Sustainable lower hashToken keys newest.row rotations := by
  induction rotations generalizing keys newest earlier with
  | nil =>
    refine iff_of_true trivial ⟨h.short, by simp, by simp, fresh_nil _, fresh_nil _, fresh_nil _⟩
  | cons r rest ih =>
    obtain ⟨hfirst, hrest⟩ := List.forall_mem_cons.mp hbefore
    have hone := @rotateNewest_serves_iff lower _ _ _ _ r h hfirst
    have hexpiry : ∀ {next keys'}, rotateNewest lower hashToken keys newest r = .ok (next, keys') →
        ∀ r ∈ rest, next.row.expiresAt.all (r.now < ·) = true := by
      intro next keys' hok
      obtain ⟨_, -, rfl, -⟩ := (rotateNewest_eq_ok h.mem h.live).mp hok
      exact hrest
    rw [Lasts]
    constructor
    · rintro ⟨next, keys', hok, hserves, hlasts⟩
      rw [sustainable_cons_iff h hok]
      exact ⟨hone.mp ⟨next, keys', hok, hserves⟩, (ih (h.rotate hok) (hexpiry hok)).mp hlasts⟩
    · intro hsustainable
      obtain ⟨next, keys', hok, hserves⟩ := hone.mpr (hsustainable.fit h.mem)
      have hnext := ((sustainable_cons_iff h hok rest).mp hsustainable).2
      exact ⟨next, keys', hok, hserves, (ih (h.rotate hok) (hexpiry hok)).mpr hnext⟩

theorem trim_ends (s : String) : (Text.trim s).toList.dropWhile Text.isWhitespace = (Text.trim s).toList ∧
    (Text.trim s).toList.rdropWhile Text.isWhitespace = (Text.trim s).toList := by
  refine Text.trim_eq_self_iff.mp ?_
  rw [String.ofList_toList, Text.trim_trim]

theorem isWhitespace_space {c : Char} (h : decide (c = ' ') = true) : Text.isWhitespace c = true := by
  obtain rfl := of_decide_eq_true h
  decide

theorem btrim_trim (s : String) : btrim (Text.trim s) = Text.trim s := by
  obtain ⟨hleft, hright⟩ := trim_ends s
  rw [List.dropWhile_eq_self_iff] at hleft
  rw [List.rdropWhile_eq_self_iff] at hright
  have hbegin : (Text.trim s).toList.dropWhile (· = ' ') = (Text.trim s).toList :=
    List.dropWhile_eq_self_iff.mpr fun hne hc => hleft hne (isWhitespace_space hc)
  have hend : (Text.trim s).toList.rdropWhile (· = ' ') = (Text.trim s).toList :=
    List.rdropWhile_eq_self_iff.mpr fun hne hc => hright hne (isWhitespace_space hc)
  rw [btrim, hbegin, hend, String.ofList_toList]

theorem trim_begins {s : String} (h : Text.trim s ≠ "") : ∃ c rest, (Text.trim s).toList = c :: rest ∧ c ≠ ' ' := by
  obtain ⟨hleft, -⟩ := trim_ends s
  cases hname : (Text.trim s).toList with
  | nil => exact absurd (String.toList_eq_nil_iff.mp hname) h
  | cons c rest =>
    refine ⟨c, rest, rfl, fun hc => ?_⟩
    rw [hname, List.dropWhile_eq_self_iff] at hleft
    exact hleft (by simp) (isWhitespace_space (decide_eq_true hc))

/-- A key that was just created begins a chain. -/
theorem chained_create {new : NewKey} {now : Instant} {id : Uuid} {draw : Draw}
    (hcreate : create lower keys new now id (issue hashToken new.environment draw).secret = .ok (row, keys')) :
    Chained hashToken keys' ⟨row, (issue hashToken new.environment draw).text⟩ [] := by
  rw [create] at hcreate
  split at hcreate
  · cases hcreate
  · rename_i hvalid
    split_ifs at hcreate
    split at hcreate
    · cases hcreate
    · rename_i inserted hinserted
      cases hcreate
      obtain ⟨henvironment, ⟨-, hmax⟩, hscopes, hrows, hinsert⟩ := insertKey_eq_some_iff.mp hinserted
      have hmem := fun k => Table.mem_insert? (b := k) hinsert
      change (btrim (Text.trim new.name)).length ≤ _ at hmax
      rw [btrim_trim] at hmax
      refine ⟨(hmem _).mpr (.inr rfl), rfl, rfl, fun k hk hhash => ?_, by simp, by simp, henvironment, hscopes, ?_, hmax⟩
      · rcases (hmem k).mp hk with hk | rfl
        · exact absurd hhash (hrows k hk).1
        · rfl
      · refine trim_begins fun hblank => ?_
        rw [NewKey.validated, hblank] at hvalid
        split at hvalid <;> simp at hvalid

end Rotations

/-- **A chain of rotations**, of a key that was created, goes on and serves just when it has what it needs. -/
theorem lasts_iff_sustainable (lower hashToken : String → String) (keys keys' : Keys) (new : NewKey) (now : Instant)
    (id : Uuid) (draw : Draw) (row : ApiKey) (rotations : List Rotation)
    (hcreate : create lower keys new now id (issue hashToken new.environment draw).secret = .ok (row, keys'))
    (hbefore : ∀ r ∈ rotations, row.expiresAt.all (r.now < ·) = true) :
    Lasts lower hashToken keys' ⟨row, (issue hashToken new.environment draw).text⟩ [] rotations ↔
      Sustainable lower hashToken keys' row rotations :=
  (chained_create hcreate).lasts_iff hbefore

/-! ### Two keys -/

/-- The digests of five tokens. -/
def sampleHash (token : String) : String :=
  ([
    ("omndev_live_aaaaaaaaaa_aaaaaaaaaaaaaaaaaaaaaaaaaaaaaaaa",
      "abbdd58a09aa2d10d96d41dcdf6ddd7be5fbe57d4e7b99c336c2fe66918f44fe"),
    ("omndev_live_bbbbbbbbbb_bbbbbbbbbbbbbbbbbbbbbbbbbbbbbbbb",
      "c7f6445130bf3b4558aed620f8cd6c1b5baab2b00b1e06945d2aa998c73f89a8"),
    ("omndev_live_cccccccccc_cccccccccccccccccccccccccccccccc",
      "c206d6545886ab15699c430511120a9a2222aba2cdf633d03c13969951fa5559"),
    ("omndev_live_dddddddddd_dddddddddddddddddddddddddddddddd",
      "7330de484d5b3ed6b4f97f31f6327f7b095a98be650dbc95875af490184f42fc"),
    ("omndev_live_bbbbbbbbbb_dddddddddddddddddddddddddddddddd",
      "109998ce0e724d89f4071ebecc87f898b29499f3d09e6afe7a4aa26d0bb4ebcf")].lookup token).getD ""

/-- A draw of bytes that are all the same, for the prefix and for the secret. -/
def drawOf (forPrefix forSecret : UInt8) : Draw where
  prefixBytes := List.replicate PREFIX_LENGTH forPrefix
  secretBytes := List.replicate SECRET_LENGTH forSecret
  length_prefixBytes := List.length_replicate
  length_secretBytes := List.length_replicate

/-- A request for a key. -/
def newKey (organizationId : Uuid) (name : String) : NewKey where
  organizationId := organizationId
  name := name
  environment := "live"
  scopes := ["content.pages.read"]
  expiresAt := some 1000
  createdBy := none
  createdByName := ""

/-- The row of such a key. -/
def newRow (organizationId : Uuid) (name : String) (id : Uuid) (draw : Draw) : ApiKey :=
  (newKey organizationId name).row 0 id (issue sampleHash "live" draw).secret

/-- The key of another organization is in the table. -/
def othersKeys : Keys := ⟨[newRow 2 "partner" 20 (drawOf 1 3)], by decide⟩

theorem ok_of_rows {α : Type} {answer : Except DeveloperError (α × Keys)} {a : α} {rows : List ApiKey}
    (h : answer.toOption.map (fun p => (p.1, p.2.rows)) = some (a, rows)) :
    ∃ keys, answer = .ok (a, keys) ∧ keys.rows = rows := by
  cases answer with
  | error error => cases h
  | ok p =>
    cases h
    exact ⟨p.2, rfl, rfl⟩

theorem create_deploy : ∃ keys,
    create Text.toLowercase othersKeys (newKey 1 "deploy") 0 10 (issue sampleHash "live" (drawOf 0 0)).secret =
      .ok (newRow 1 "deploy" 10 (drawOf 0 0), keys) ∧
    keys.rows = [newRow 2 "partner" 20 (drawOf 1 3), newRow 1 "deploy" 10 (drawOf 0 0)] :=
  ok_of_rows (by decide +kernel)

theorem lasts_iff_sustainable_deploy : ∃ keys,
    create Text.toLowercase othersKeys (newKey 1 "deploy") 0 10 (issue sampleHash "live" (drawOf 0 0)).secret =
      .ok (newRow 1 "deploy" 10 (drawOf 0 0), keys) ∧
    Lasts Text.toLowercase sampleHash keys
      ⟨newRow 1 "deploy" 10 (drawOf 0 0), (issue sampleHash "live" (drawOf 0 0)).text⟩ []
      [⟨5, 11, drawOf 2 2⟩, ⟨900, 12, drawOf 3 3⟩] := by
  obtain ⟨keys, hcreate, hrows⟩ := create_deploy
  refine ⟨keys, hcreate, ?_⟩
  refine (lasts_iff_sustainable Text.toLowercase sampleHash _ _ _ _ _ _ _ _ hcreate (by decide +kernel)).mpr
    ⟨by decide +kernel, ?_, by decide +kernel, ?_, ?_, ?_⟩
  · simp only [Table.mem_def, hrows]
    decide +kernel
  all_goals
    rw [hrows]
    exact ⟨by decide +kernel, by decide +kernel⟩

/-- **A long name** has no room for the suffix, and a key of another organization hides the one that was just handed
out. -/
theorem long_name_and_shared_prefix :
    (∃ row keys,
      create Text.toLowercase othersKeys (newKey 1 "Nightly import of the warehouse stock levels for all shops") 0 10
        (issue sampleHash "live" (drawOf 0 0)).secret = .ok (row, keys) ∧
      ¬ Lasts Text.toLowercase sampleHash keys ⟨row, (issue sampleHash "live" (drawOf 0 0)).text⟩
        [] [⟨5, 11, drawOf 2 2⟩]) ∧
    ∃ row keys,
      create Text.toLowercase othersKeys (newKey 1 "deploy") 0 10 (issue sampleHash "live" (drawOf 0 0)).secret =
        .ok (row, keys) ∧
      ¬ Lasts Text.toLowercase sampleHash keys ⟨row, (issue sampleHash "live" (drawOf 0 0)).text⟩
        [] [⟨5, 11, drawOf 1 1⟩] := by
  constructor
  · obtain ⟨keys, hcreate, -⟩ : ∃ keys,
        create Text.toLowercase othersKeys (newKey 1 "Nightly import of the warehouse stock levels for all shops") 0 10
          (issue sampleHash "live" (drawOf 0 0)).secret =
            .ok (newRow 1 "Nightly import of the warehouse stock levels for all shops" 10 (drawOf 0 0), keys) ∧
        keys.rows = [newRow 2 "partner" 20 (drawOf 1 3),
          newRow 1 "Nightly import of the warehouse stock levels for all shops" 10 (drawOf 0 0)] :=
      ok_of_rows (by decide +kernel)
    refine ⟨_, keys, hcreate, fun hlasts => ?_⟩
    have hneeds := ((chained_create hcreate).lasts_iff (by decide +kernel)).mp hlasts
    exact absurd hneeds.name (by decide +kernel)
  · obtain ⟨keys, hcreate, hrows⟩ := create_deploy
    refine ⟨_, keys, hcreate, fun hlasts => ?_⟩
    have hneeds := ((chained_create hcreate).lasts_iff (by decide +kernel)).mp hlasts
    have hnew := hneeds.prefixes.new
    rw [hrows] at hnew
    exact absurd hnew (by decide +kernel)

end Omnion.Developer
