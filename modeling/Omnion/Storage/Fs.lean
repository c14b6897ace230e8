import Omnion.Core.Text
import Omnion.Library.Fallible
import Omnion.Library.Files

/-!
# The file-system driver of the object store

`crates/storage/src/keys.rs` and `FsStorage` of `crates/storage/src/fs.rs`: objects are files
below a root directory, at the path their key spells.

## The model

The driver is its calls on a volume, which holds the root, what is outside of it, and the
directories a run leaves behind. `Objects` is what it stands for, a map from keys to bytes.

## What is proved

* `mirrors_iff` — over any run the driver is the map just when each operation is clear, and in
  any case nothing outside the root changes.
* `prefix_refused` — a key below another one is refused.

## Honest scope

Links are not modelled, nor is the limit of a whole path. Names are compared as they are spelled.
The root is there, as `new` has made it.
-/

namespace Omnion.Storage

open Files

/-- A component of a path. -/
abbrev Name := List Char

/-- Why an operation fails. -/
inductive StorageError where
  | invalid (message : String)
  /-- The path, and what the system says about it. -/
  | io (path : List Name) (fault : Fault)
  | notFound (key : String)
  | rangeNotSatisfiable (key requested : String)
  deriving DecidableEq

/-! ### Keys -/

/-- Longest object key the store accepts. -/
def MAX_KEY_LENGTH : ℕ := 512

/-- `key.split('/')`. -/
def segments (key : String) : List Name := key.toList.splitOn '/'

/-- `char::is_ascii_alphanumeric`, or one of the three other characters a segment may carry. -/
def isKeyChar (c : Char) : Bool :=
  (('a' ≤ c && c ≤ 'z') || ('A' ≤ c && c ≤ 'Z') || ('0' ≤ c && c ≤ '9')) || c = '-' || c = '_' || c = '.'

/-- The error of a key that is not valid. -/
def invalidKey (key reason : String) : StorageError :=
  .invalid (Text.debug key ++ " is not a valid object key: " ++ reason)

/-- The checks on one segment. -/
def validateSegment (key : String) (segment : Name) : Except StorageError Unit :=
  if segment = [] then .error (invalidKey key "it carries an empty segment")
  else if segment = ['.'] ∨ segment = ['.', '.'] then .error (invalidKey key "it carries a relative segment")
  else if !segment.all isKeyChar then
    .error (invalidKey key "segments may only carry letters, digits, dashes, underscores and dots")
  else .ok ()

/-- Check that a key is usable by every driver. -/
def validateKey (key : String) : Except StorageError Unit :=
  if key = "" then .error (invalidKey key "it is empty")
  else if MAX_KEY_LENGTH < key.utf8ByteSize then .error (invalidKey key "it is too long")
  else if key.toList.head? = some '/' ∨ key.toList.getLast? = some '/' then
    .error (invalidKey key "it must not start or end with a separator")
  else (segments key).forM (validateSegment key)

/-- A key that was accepted. -/
structure Key where
  text : String
  valid : validateKey text = .ok ()
  deriving DecidableEq

/-- The names of a key, as a path: the last comes first. -/
def Key.path (key : Key) : List Name := (segments key.text).reverse

/-! ### The driver -/

/-- What a successful write stored. -/
structure StoredObject where
  sizeBytes : ℕ
  checksum : String
  deriving DecidableEq

/-- Object store on the local filesystem. -/
structure FsStorage where
  /-- The directory objects are written under. -/
  root : List Name

namespace FsStorage

/-- What one component of a path does on the way. -/
def resolve (path : List Name) (part : Name) : List Name :=
  if part = [] ∨ part = ['.'] then path else if part = ['.', '.'] then path.tail else part :: path

/-- `Path::join`, as the system then reads it: an absolute key would start anew. -/
def join (root : List Name) (key : String) : List Name :=
  (segments key).foldl resolve (if key.toList.head? = some '/' then [] else root)

/-- Path of one key, refused when the key is not shaped like a key. -/
def pathFor (store : FsStorage) (key : String) : Except StorageError (List Name) :=
  match validateKey key with
  | .error error => .error error
  | .ok () => .ok (join store.root key)

/-- Write an object. -/
def put (payloadHash : List UInt8 → String) (store : FsStorage) (key : String) (body : List UInt8) (v : Volume Name) :
    Except StorageError StoredObject × Volume Name :=
  match store.pathFor key with
  | .error error => (.error error, v)
  | .ok path =>
    match Volume.createDirAll path.tail v with
    | (.error fault, v) => (.error (.io path.tail fault), v)
    | (.ok (), v) =>
      match v.writeFile path body with
      | .error fault => (.error (.io path fault), v)
      | .ok v => (.ok { sizeBytes := body.length, checksum := payloadHash body }, v)

/-- Read an object back. -/
def get (store : FsStorage) (key : String) (v : Volume Name) : Except StorageError (List UInt8) :=
  match store.pathFor key with
  | .error error => .error error
  | .ok path =>
    match v.readFile path with
    | .ok bytes => .ok bytes
    | .error .notFound => .error (.notFound key)
    | .error fault => .error (.io path fault)

/-- Read a window of an object back. -/
def getRange (store : FsStorage) (key : String) (start «end» : ℕ) (v : Volume Name) :
    Except StorageError (List UInt8) :=
  match store.get key v with
  | .error error => .error error
  | .ok bytes =>
    let total := bytes.length
    if total = 0 ∨ total ≤ start ∨ «end» < start then
      .error (.rangeNotSatisfiable key ("bytes=" ++ toString start ++ "-" ++ toString «end»))
    else
      let «end» := min «end» (total - 1)
      .ok ((bytes.drop start).take («end» - start + 1))

/-- Remove an object; whether one was there. -/
def delete (store : FsStorage) (key : String) (v : Volume Name) : Except StorageError Bool × Volume Name :=
  match store.pathFor key with
  | .error error => (.error error, v)
  | .ok path =>
    match v.removeFile path with
    | .ok v => (.ok true, v)
    | .error .notFound => (.ok false, v)
    | .error fault => (.error (.io path fault), v)

/-- The file `probe` writes. -/
def probeName : Name := ".omnion-probe".toList

/-- What is in it. -/
def probeBytes : List UInt8 := "probe".toList.map fun c => UInt8.ofNat c.toNat

/-- Check that the root exists and is writable. -/
def probe (store : FsStorage) (v : Volume Name) : Except StorageError Unit × Volume Name :=
  let path := probeName :: store.root
  match v.writeFile path probeBytes with
  | .error fault => (.error (.io path fault), v)
  | .ok v =>
    match v.removeFile path with
    | .error _ => (.ok (), v)
    | .ok v => (.ok (), v)

end FsStorage

/-! ### The map -/

/-- The objects by their keys. -/
abbrev Objects := Key → Option (List UInt8)

/-- An operation on the store. -/
inductive Operation where
  | put (key : Key) (body : List UInt8)
  | get (key : Key)
  | getRange (key : Key) (start «end» : ℕ)
  | delete (key : Key)
  | probe

/-- What an operation answers. -/
inductive Answer where
  | stored (result : Except StorageError StoredObject)
  | bytes (result : Except StorageError (List UInt8))
  | removed (result : Except StorageError Bool)
  | probed (result : Except StorageError Unit)

/-- What the driver answers, and the volume it leaves. -/
def FsStorage.answer (payloadHash : List UInt8 → String) (store : FsStorage) (v : Volume Name) :
    Operation → Answer × Volume Name
  | .put key body => (store.put payloadHash key.text body v).map .stored id
  | .get key => (.bytes (store.get key.text v), v)
  | .getRange key start «end» => (.bytes (store.getRange key.text start «end» v), v)
  | .delete key => (store.delete key.text v).map .removed id
  | .probe => (store.probe v).map .probed id

/-- The bytes of an object from the first to the smaller of the requested end and the last byte. -/
def Objects.window (key : Key) (start «end» : ℕ) (bytes : List UInt8) : Except StorageError (List UInt8) :=
  if start < bytes.length ∧ start ≤ «end» then .ok (bytes.extract start (min («end» + 1) bytes.length))
  else .error (.rangeNotSatisfiable key.text ("bytes=" ++ toString start ++ "-" ++ toString «end»))

/-- What the map answers, and the map it leaves. -/
def Objects.answer (payloadHash : List UInt8 → String) (objects : Objects) : Operation → Answer × Objects
  | .put key body => (.stored (.ok { sizeBytes := body.length, checksum := payloadHash body }),
    Function.update objects key (some body))
  | .get key => (.bytes ((objects key).elim (.error (.notFound key.text)) .ok), objects)
  | .getRange key start «end» =>
    (.bytes ((objects key).elim (.error (.notFound key.text)) (Objects.window key start «end»)), objects)
  | .delete key => (.removed (.ok (objects key).isSome), Function.update objects key none)
  | .probe => (.probed (.ok ()), objects)

/-- The objects a volume holds for the driver. -/
def FsStorage.objects (store : FsStorage) (v : Volume Name) : Objects := fun key =>
  match v.node (key.path ++ store.root) with
  | some (.file bytes) => some bytes
  | _ => none

/-- The driver answers what the map answers, and leaves what the map leaves. -/
def FsStorage.Agrees (payloadHash : List UInt8 → String) (store : FsStorage) (v : Volume Name)
    (op : Operation) : Prop :=
  (store.answer payloadHash v op).1 = ((store.objects v).answer payloadHash op).1 ∧
    store.objects (store.answer payloadHash v op).2 = ((store.objects v).answer payloadHash op).2

/-- Along a run, the driver is the map. -/
def FsStorage.Mirrors (payloadHash : List UInt8 → String) (store : FsStorage) :
    List Operation → Volume Name → Objects → Prop
  | [], _, _ => True
  | op :: ops, v, objects =>
    (store.answer payloadHash v op).1 = (objects.answer payloadHash op).1 ∧
      store.objects (store.answer payloadHash v op).2 = (objects.answer payloadHash op).2 ∧
      store.Mirrors payloadHash ops (store.answer payloadHash v op).2 (objects.answer payloadHash op).2

/-- The volume after a run. -/
def FsStorage.after (payloadHash : List UInt8 → String) (store : FsStorage) (ops : List Operation)
    (v : Volume Name) : Volume Name :=
  ops.foldl (fun v op => (store.answer payloadHash v op).2) v

/-- Nothing stands in the way of an operation. -/
def FsStorage.Clear (store : FsStorage) (v : Volume Name) : Operation → Prop
  | .put key _ =>
    v.Reachable (key.path ++ store.root) ∧ v.node (key.path ++ store.root) ≠ some .dir ∧
      ∀ name ∈ key.path, v.fits name = true
  | .get key | .getRange key .. | .delete key =>
    v.Reachable (key.path ++ store.root) ∧ v.node (key.path ++ store.root) ≠ some .dir
  | .probe => v.node (probeName :: store.root) = none ∧ v.fits probeName = true

/-- Along a run, nothing stands in the way. -/
def FsStorage.AllClear (payloadHash : List UInt8 → String) (store : FsStorage) : List Operation → Volume Name → Prop
  | [], _ => True
  | op :: ops, v => store.Clear v op ∧ store.AllClear payloadHash ops (store.answer payloadHash v op).2

/-! ### Keys as paths -/

theorem validateSegment_eq_ok {key : String} {segment : Name} : validateSegment key segment = .ok () ↔
    segment ≠ [] ∧ segment ≠ ['.'] ∧ segment ≠ ['.', '.'] ∧ segment.all isKeyChar = true := by
  unfold validateSegment
  split_ifs with hempty hdots hchars
  · simp [hempty]
  · rcases hdots with hdot | hdots
    · simp [hdot]
    · simp [hdots]
  · simp_all
  · simp_all

theorem forM_eq_ok {α ε : Type} {check : α → Except ε Unit} {xs : List α} (h : xs.forM check = .ok ())
    {x : α} (hx : x ∈ xs) :
    check x = .ok () := by
  induction xs with
  | nil => simp at hx
  | cons y ys ih =>
    have hcons : (y :: ys).forM check = (check y >>= fun _ => ys.forM check) := rfl
    rw [hcons] at h
    obtain ⟨hy, hys⟩ := Fallible.check_bind_eq_ok.mp h
    rcases List.mem_cons.mp hx with rfl | hx
    · exact hy
    · exact ih hys hx

namespace Key

variable (key : Key)

theorem checked : key.text.toList.head? ≠ some '/' ∧ (segments key.text).forM (validateSegment key.text) = .ok () := by
  have h := key.valid
  unfold validateKey at h
  split_ifs at h with hempty hlong hends
  exact ⟨fun hhead => hends (.inl hhead), h⟩

theorem path_ne_nil : key.path ≠ [] := by
  simp [Key.path, segments]

theorem path_injective : Function.Injective Key.path := by
  intro key other h
  have hsegments : segments key.text = segments other.text := List.reverse_injective h
  have htext : key.text.toList = other.text.toList := by
    calc key.text.toList = ['/'].intercalate (segments key.text) := (List.intercalate_splitOn '/').symm
      _ = ['/'].intercalate (segments other.text) := congrArg _ hsegments
      _ = other.text.toList := List.intercalate_splitOn '/'
  cases key
  cases other
  congr
  exact String.toList_inj.mp htext

/-- **A key is a path below the root.** -/
theorem join_eq (root : List Name) : FsStorage.join root key.text = key.path ++ root := by
  obtain ⟨hhead, hsegments⟩ := key.checked
  have hplain : ∀ (segs : List Name) (path : List Name), (∀ s ∈ segs, s ∈ segments key.text) →
      segs.foldl FsStorage.resolve path = segs.reverse ++ path := by
    intro segs
    induction segs with
    | nil => intro path _; rfl
    | cons s segs ih =>
      intro path hsegs
      obtain ⟨hempty, hdot, hdots, -⟩ := validateSegment_eq_ok.mp (forM_eq_ok hsegments (hsegs s (by simp)))
      have hs : FsStorage.resolve path s = s :: path := by simp [FsStorage.resolve, hempty, hdot, hdots]
      rw [List.foldl_cons, hs, ih _ fun t ht => hsegs t (by simp [ht])]
      simp
  rw [FsStorage.join, if_neg hhead]
  exact hplain _ root fun _ h => h

theorem pathFor_eq (store : FsStorage) : store.pathFor key.text = .ok (key.path ++ store.root) := by
  rw [FsStorage.pathFor, key.valid]
  exact congrArg _ (key.join_eq store.root)

end Key

/-! ### What an operation leaves -/

namespace FsStorage

variable {payloadHash : List UInt8 → String} {store : FsStorage} {v w u made : Volume Name}
  {key : Key} {body : List UInt8}

/-- What is outside of the root is as it was, and the root is there. -/
structure Kept (store : FsStorage) (v w : Volume Name) : Prop where
  fits : w.fits = v.fits
  root : w.node store.root = some .dir
  outside : ∀ q, ¬ store.root <:+ q → w.node q = v.node q

theorem Kept.trans (h : store.Kept v w) (h' : store.Kept w u) : store.Kept v u :=
  ⟨h'.fits.trans h.fits, h'.root, fun q hq => (h'.outside q hq).trans (h.outside q hq)⟩

section Place

variable {name : Name} {pre : List Name} {n : Node}

theorem ne_of_not_suffix {q : List Name} (hq : ¬ store.root <:+ q) : q ≠ name :: (pre ++ store.root) := by
  rintro rfl
  exact hq (List.suffix_append (name :: pre) _)

theorem root_ne : store.root ≠ name :: (pre ++ store.root) := by
  intro h
  have := congrArg List.length h
  simp only [List.length_cons, List.length_append] at this
  omega

variable (pre) in
theorem Kept.place (hroot : v.node store.root = some .dir) (hdir : v.node (pre ++ store.root) = some .dir)
    (hfits : v.fits name = true) (hfree : v.node (name :: (pre ++ store.root)) ≠ some .dir) :
    store.Kept v (v.place name (pre ++ store.root) n) := by
  refine ⟨Volume.fits_place, ?_, fun q hq => ?_⟩
  · rw [Volume.node_place hdir hfits hfree, Function.update_of_ne root_ne, hroot]
  · rw [Volume.node_place hdir hfits hfree, Function.update_of_ne (ne_of_not_suffix hq)]

variable (pre) in
theorem Kept.erase (hroot : v.node store.root = some .dir) (hfile : v.node (name :: (pre ++ store.root)) ≠ some .dir) :
    store.Kept v (v.erase (name :: (pre ++ store.root))) := by
  refine ⟨Volume.fits_erase, ?_, fun q hq => ?_⟩
  · rw [Volume.node_erase hfile, Function.update_of_ne root_ne, hroot]
  · rw [Volume.node_erase hfile, Function.update_of_ne (ne_of_not_suffix hq)]

theorem Kept.grown (hroot : v.node store.root = some .dir) (h : v.Grown made (pre ++ store.root)) :
    store.Kept v made := by
  have hold : ∀ q, v.node q ≠ none → made.node q = v.node q := by
    intro q hq
    rcases h.2 q with hsame | ⟨hnone, -, -⟩
    · exact hsame
    · exact absurd hnone hq
  refine ⟨h.1, (hold _ (by simp [hroot])).trans hroot, fun q hq => ?_⟩
  rcases h.2 q with hsame | ⟨hnone, -, hsuffix⟩
  · exact hsame
  · have habove : q <:+ store.root :=
      (List.suffix_or_suffix_of_suffix hsuffix (List.suffix_append ..)).resolve_right hq
    exact absurd hnone (Volume.node_of_suffix (by simp [hroot]) habove)

end Place

theorem exists_path (key : Key) : ∃ name pre, key.path = name :: pre := List.exists_cons_of_ne_nil key.path_ne_nil

variable (payloadHash key body) in
/-- **Writing an object** stores it just when nothing stands in the way, making the directories above it. -/
theorem put_spec (hroot : v.node store.root = some .dir) :
    store.Kept v (store.put payloadHash key.text body v).2 ∧
      (store.Clear v (.put key body) →
        (store.put payloadHash key.text body v).1 = .ok { sizeBytes := body.length, checksum := payloadHash body } ∧
        ∃ made, v.Grown made (key.path.tail ++ store.root) ∧
          (store.put payloadHash key.text body v).2.node = Function.update made.node (key.path ++ store.root)
            (some (.file body))) ∧
      (¬ store.Clear v (.put key body) → ∃ error, (store.put payloadHash key.text body v).1 = .error error) := by
  obtain ⟨name, pre, hpath⟩ := exists_path key
  obtain ⟨hgrown, hiff, hmade⟩ := Volume.createDirAll_spec (pre ++ store.root) v
  have hkept := Kept.grown hroot hgrown
  have hclear : store.Clear v (.put key body) ↔ v.Creatable (pre ++ store.root) ∧ v.fits name = true ∧
      v.node (name :: (pre ++ store.root)) ≠ some .dir := by
    simp only [Clear, hpath, List.cons_append, Volume.Reachable, List.forall_mem_cons,
      Volume.creatable_append_iff hroot]
    tauto
  rw [put, key.pathFor_eq, hclear, hpath]
  simp only [List.cons_append, List.tail_cons]
  split
  · rename_i fault made hresult
    rw [hresult] at hgrown hiff hkept
    exact ⟨hkept, fun h => absurd (hiff.mpr h.1) (by simp), fun _ => ⟨_, rfl⟩⟩
  · rename_i made hresult
    rw [hresult] at hgrown hiff hmade hkept
    have hdir : made.node (pre ++ store.root) = some .dir := hmade rfl
    -- what is at the key itself is not one of the directories that were made
    have hself : made.node (name :: (pre ++ store.root)) = v.node (name :: (pre ++ store.root)) := by
      rcases hgrown.2 (name :: (pre ++ store.root)) with hsame | ⟨-, -, hsuffix⟩
      · exact hsame
      · exact absurd hsuffix.length_le (by simp)
    split
    · rename_i fault hfault
      refine ⟨hkept, fun hclear => ?_, fun _ => ⟨_, rfl⟩⟩
      obtain ⟨-, hfits, hfree⟩ := hclear
      rw [Volume.writeFile_spec.mpr ⟨hdir, hgrown.1 ▸ hfits, hself ▸ hfree, rfl⟩] at hfault
      cases hfault
    · rename_i written hwritten
      obtain ⟨-, hfits, hfree, rfl⟩ := Volume.writeFile_spec.mp hwritten
      refine ⟨hkept.trans (Kept.place _ hkept.root hdir hfits hfree), fun _ => ⟨rfl, made, hgrown, ?_⟩,
        fun h => absurd ?_ h⟩
      · exact Volume.node_place hdir hfits hfree
      · exact ⟨hiff.mp rfl, hgrown.1 ▸ hfits, hself ▸ hfree⟩

variable (store v key) in
/-- **Reading an object** finds it, or that it is missing, just when nothing stands in the way. -/
theorem get_spec : (store.Clear v (.get key) →
      store.get key.text v = (store.objects v key).elim (.error (.notFound key.text)) .ok) ∧
    (¬ store.Clear v (.get key) → ∃ path fault, store.get key.text v = .error (.io path fault)) := by
  rw [get, key.pathFor_eq, objects, Clear]
  simp only
  split
  · rename_i bytes hread
    have hnode := Volume.readFile_eq_ok.mp hread
    exact ⟨fun _ => by simp [hnode], fun h => absurd ⟨Volume.reachable_of_node (by simp [hnode]), by simp [hnode]⟩ h⟩
  · rename_i hread
    obtain ⟨hnode, hreach⟩ := Volume.readFile_eq_notFound.mp hread
    exact ⟨fun _ => by simp [hnode], fun h => absurd ⟨hreach, by simp [hnode]⟩ h⟩
  · rename_i fault hne hfault
    refine ⟨fun ⟨hreach, hdir⟩ => ?_, fun _ => ⟨_, _, rfl⟩⟩
    exfalso
    cases hnode : v.node (key.path ++ store.root) with
    | none =>
      rw [Volume.readFile_eq_notFound.mpr ⟨hnode, hreach⟩] at hfault
      exact hne (Except.error.inj hfault).symm
    | some n =>
      cases n with
      | dir => exact hdir hnode
      | file bytes =>
        rw [Volume.readFile_eq_ok.mpr hnode] at hfault
        cases hfault

variable (store v key) in
theorem getRange_spec (start «end» : ℕ) : (store.Clear v (.getRange key start «end») →
      store.getRange key.text start «end» v =
        (store.objects v key).elim (.error (.notFound key.text)) (Objects.window key start «end»)) ∧
    (¬ store.Clear v (.getRange key start «end») → ∃ path fault, store.getRange key.text start «end» v = .error
      (.io path fault)) := by
  obtain ⟨hread, hfail⟩ := get_spec store v key
  refine ⟨fun h => ?_, fun h => ?_⟩
  · rw [getRange, hread h]
    cases store.objects v key with
    | none => rfl
    | some bytes =>
      simp only [Option.elim_some, Objects.window]
      by_cases hwindow : start < bytes.length ∧ start ≤ «end»
      · have hcount : min «end» (bytes.length - 1) - start + 1 = min («end» + 1) bytes.length - start := by omega
        rw [if_neg (by omega), if_pos hwindow, hcount]
      · rw [if_pos (by omega), if_neg hwindow]
  · obtain ⟨path, fault, hfault⟩ := hfail h
    exact ⟨path, fault, by rw [getRange, hfault]⟩

variable (key) in
/-- **Removing an object** takes it away, or finds that it is missing, just when nothing stands in the way. -/
theorem delete_spec (hroot : v.node store.root = some .dir) :
    store.Kept v (store.delete key.text v).2 ∧
      (store.Clear v (.delete key) → (store.delete key.text v).1 = .ok (store.objects v key).isSome ∧
        (store.delete key.text v).2.node = Function.update v.node (key.path ++ store.root) none) ∧
      (¬ store.Clear v (.delete key) → ∃ error, (store.delete key.text v).1 = .error error) := by
  have hsame : store.Kept v v := ⟨rfl, hroot, fun _ _ => rfl⟩
  rw [delete, key.pathFor_eq, objects, Clear]
  simp only
  split
  · rename_i made hremoved
    obtain ⟨⟨bytes, hnode⟩, rfl⟩ := Volume.removeFile_eq_ok.mp hremoved
    have hfile : v.node (key.path ++ store.root) ≠ some .dir := by simp [hnode]
    refine ⟨?_, fun _ => ⟨by simp [hnode], Volume.node_erase hfile⟩, fun h => absurd
      ⟨Volume.reachable_of_node (by simp [hnode]), hfile⟩ h⟩
    obtain ⟨name, pre, hpath⟩ := exists_path key
    rw [hpath] at hfile ⊢
    exact Kept.erase _ hroot hfile
  · rename_i hmissing
    obtain ⟨hnode, hreach⟩ := Volume.removeFile_eq_notFound.mp hmissing
    refine ⟨hsame, fun _ => ⟨by simp [hnode], ?_⟩, fun h => absurd ⟨hreach, by simp [hnode]⟩ h⟩
    rw [← hnode, Function.update_eq_self]
  · rename_i fault hne hfault
    refine ⟨hsame, fun ⟨hreach, hdir⟩ => ?_, fun _ => ⟨_, rfl⟩⟩
    exfalso
    cases hnode : v.node (key.path ++ store.root) with
    | none =>
      rw [Volume.removeFile_eq_notFound.mpr ⟨hnode, hreach⟩] at hfault
      exact hne (Except.error.inj hfault).symm
    | some n =>
      cases n with
      | dir => exact hdir hnode
      | file bytes =>
        rw [Volume.removeFile_eq_ok.mpr ⟨⟨bytes, hnode⟩, rfl⟩] at hfault
        cases hfault

/-- **The check** passes where its name fits and no directory has it, and leaves no file under that name. -/
theorem probe_spec (hroot : v.node store.root = some .dir) :
    store.Kept v (store.probe v).2 ∧
      ((store.probe v).1 = .ok () ↔ v.fits probeName = true ∧ v.node (probeName :: store.root) ≠ some .dir) ∧
      ((store.probe v).1 = .ok () → (store.probe v).2.node = Function.update v.node (probeName :: store.root) none) :=
        by
  rw [probe]
  split
  · rename_i fault hfault
    refine ⟨⟨rfl, hroot, fun _ _ => rfl⟩, iff_of_false (by simp) fun ⟨hfits, hfree⟩ => ?_, by simp⟩
    rw [Volume.writeFile_spec.mpr ⟨hroot, hfits, hfree, rfl⟩] at hfault
    cases hfault
  · rename_i written hwritten
    obtain ⟨-, hfits, hfree, hplaced⟩ := Volume.writeFile_spec.mp hwritten
    have hkept : store.Kept v written := hplaced ▸ Kept.place [] hroot hroot hfits hfree
    have hnode : written.node = Function.update v.node (probeName :: store.root) (some (.file probeBytes)) :=
      hplaced ▸ Volume.node_place hroot hfits hfree
    have hfile : written.node (probeName :: store.root) = some (.file probeBytes) := by rw [hnode, Function.update_self]
    have hremovable : written.node (probeName :: store.root) ≠ some .dir := by simp [hfile]
    rw [Volume.removeFile_eq_ok.mpr ⟨⟨_, hfile⟩, rfl⟩]
    refine ⟨hkept.trans (Kept.erase [] hkept.root hremovable), iff_of_true rfl ⟨hfits, hfree⟩, fun _ => ?_⟩
    rw [Volume.node_erase hremovable, hnode, Function.update_idem]

/-! ### The map -/

variable (made) in
theorem objects_update {n : Option (List UInt8)} (h : ∀ q, made.node q = v.node q ∨ v.node q = none ∧
    made.node q = some .dir)
    (hw : w.node = Function.update made.node (key.path ++ store.root) (n.map .file)) :
    store.objects w = Function.update (store.objects v) key n := by
  funext other
  by_cases hkey : other = key
  · subst hkey
    rw [objects, hw, Function.update_self, Function.update_self]
    cases n <;> rfl
  · have hpath : other.path ++ store.root ≠ key.path ++ store.root :=
      fun heq => hkey (Key.path_injective (List.append_cancel_right heq))
    rw [Function.update_of_ne hkey, objects, objects, hw, Function.update_of_ne hpath]
    rcases h (other.path ++ store.root) with hsame | ⟨hnone, hdir⟩
    · rw [hsame]
    · rw [hnone, hdir]

theorem objects_erase {n : Option (List UInt8)} (hw : w.node = Function.update v.node
    (key.path ++ store.root) (n.map .file)) :
    store.objects w = Function.update (store.objects v) key n :=
  objects_update v (fun _ => .inl rfl) hw

theorem objects_eq_none (h : v.node (key.path ++ store.root) = none) : store.objects v key = none := by
  rw [objects, h]

/-- The key that `probe` uses. -/
def probeKey : Key := ⟨".omnion-probe", by decide⟩

theorem probeKey_path : probeKey.path = [probeName] := by decide

/-- **The check takes an object away**, the one whose key is the name it uses. -/
theorem objects_probe (hroot : v.node store.root = some .dir) (hok : (store.probe v).1 = .ok ()) :
    store.objects (store.probe v).2 = Function.update (store.objects v) probeKey none :=
  objects_erase (n := none) (by rw [(probe_spec hroot).2.2 hok, probeKey_path]; rfl)

variable (payloadHash) in
theorem kept_answer (hroot : v.node store.root = some .dir) (op : Operation) :
    store.Kept v (store.answer payloadHash v op).2 := by
  cases op with
  | put key body => exact (put_spec payloadHash key body hroot).1
  | get key => exact ⟨rfl, hroot, fun _ _ => rfl⟩
  | getRange key start «end» => exact ⟨rfl, hroot, fun _ _ => rfl⟩
  | delete key => exact (delete_spec key hroot).1
  | probe => exact (probe_spec hroot).1

/-- **An operation does what the map does** just when nothing stands in its way. -/
theorem agrees_iff (hroot : v.node store.root = some .dir) (op : Operation) :
    store.Agrees payloadHash v op ↔ store.Clear v op := by
  cases op with
  | put key body =>
    obtain ⟨-, hdone, hfailed⟩ := put_spec payloadHash key body hroot
    refine ⟨fun ⟨hanswer, _⟩ => ?_, fun h => ?_⟩
    · by_contra h
      obtain ⟨error, herror⟩ := hfailed h
      simp [answer, Objects.answer, herror] at hanswer
    · obtain ⟨hresult, made, hgrown, hnode⟩ := hdone h
      refine ⟨by simp [answer, Objects.answer, hresult], objects_update made (fun q => ?_) hnode⟩
      exact (hgrown.2 q).imp_right fun ⟨hnone, hdir, _⟩ => ⟨hnone, hdir⟩
  | get key =>
    obtain ⟨hread, hfail⟩ := get_spec store v key
    refine ⟨fun ⟨hanswer, _⟩ => ?_, fun h => ⟨congrArg Answer.bytes (hread h), rfl⟩⟩
    by_contra h
    obtain ⟨path, fault, hfault⟩ := hfail h
    simp only [answer, Objects.answer, hfault, Answer.bytes.injEq] at hanswer
    cases hobject : store.objects v key <;> simp [hobject] at hanswer
  | getRange key start «end» =>
    obtain ⟨hread, hfail⟩ := getRange_spec store v key start «end»
    refine ⟨fun ⟨hanswer, _⟩ => ?_, fun h => ⟨congrArg Answer.bytes (hread h), rfl⟩⟩
    by_contra h
    obtain ⟨path, fault, hfault⟩ := hfail h
    simp only [answer, Objects.answer, hfault, Answer.bytes.injEq] at hanswer
    cases hobject : store.objects v key with
    | none => simp [hobject] at hanswer
    | some bytes =>
      rw [hobject, Option.elim_some, Objects.window] at hanswer
      split_ifs at hanswer
      cases hanswer
  | delete key =>
    obtain ⟨-, hdone, hfailed⟩ := delete_spec key hroot
    refine ⟨fun ⟨hanswer, _⟩ => ?_, fun h => ?_⟩
    · by_contra h
      obtain ⟨error, herror⟩ := hfailed h
      simp [answer, Objects.answer, herror] at hanswer
    · obtain ⟨hresult, hnode⟩ := hdone h
      exact ⟨by simp [answer, Objects.answer, hresult], objects_erase (n := none) hnode⟩
  | probe =>
    obtain ⟨-, hpassed, -⟩ := probe_spec hroot
    constructor
    · rintro ⟨hanswer, hsame⟩
      have hok : (store.probe v).1 = .ok () := by simpa [answer, Objects.answer] using hanswer
      obtain ⟨hfits, hfree⟩ := hpassed.mp hok
      refine ⟨?_, hfits⟩
      cases hprobe : v.node (probeName :: store.root) with
      | none => rfl
      | some n =>
        cases n with
        | dir => exact absurd hprobe hfree
        | file bytes =>
          have hgone : store.objects v probeKey = none := by
            have hsame' : store.objects (store.probe v).2 = store.objects v := hsame
            rw [← hsame', objects_probe hroot hok, Function.update_self]
          simp [objects, probeKey_path, hprobe] at hgone
    · rintro ⟨hnone, hfits⟩
      have hok := hpassed.mpr ⟨hfits, by simp [hnone]⟩
      refine ⟨by simp [answer, Objects.answer, hok], ?_⟩
      have hgone : store.objects v probeKey = none := objects_eq_none (by rw [probeKey_path]; exact hnone)
      change store.objects (store.probe v).2 = store.objects v
      rw [objects_probe hroot hok, ← hgone, Function.update_eq_self]

/-! ### Runs -/

theorem kept_after (hroot : v.node store.root = some .dir) (ops : List Operation) :
    store.Kept v (store.after payloadHash ops v) := by
  induction ops generalizing v with
  | nil => exact ⟨rfl, hroot, fun _ _ => rfl⟩
  | cons op ops ih =>
    have hstep := kept_answer payloadHash hroot op
    exact hstep.trans (ih hstep.root)

end FsStorage

/-! ### Keys apart -/

def Operation.key? : Operation → Option Key
  | .put key _ | .get key | .getRange key .. | .delete key => some key
  | .probe => none

/-- No key is a prefix of another, none starts with the name that `probe` uses, and their names fit. -/
structure Apart (fits : Name → Bool) (keys : List Key) : Prop where
  prefixes : ∀ key ∈ keys, ∀ other ∈ keys, key.path <:+ other.path → key = other
  probes : ∀ key ∈ keys, ¬ [FsStorage.probeName] <:+ key.path
  named : ∀ key ∈ keys, ∀ name ∈ key.path, fits name = true
  probe : fits FsStorage.probeName = true

namespace FsStorage

variable {payloadHash : List UInt8 → String} {store : FsStorage} {v : Volume Name} {keys : List Key}

/-- Below the root are the files of these keys, and directories above them. -/
structure Holds (store : FsStorage) (keys : List Key) (v : Volume Name) : Prop where
  root : v.node store.root = some .dir
  files : ∀ q bytes, q ≠ [] → v.node (q ++ store.root) = some (.file bytes) → ∃ key ∈ keys, q = key.path
  dirs : ∀ q, q ≠ [] → v.node (q ++ store.root) = some .dir → ∃ key ∈ keys, q <:+ key.path.tail

theorem Holds.not_dir (h : store.Holds keys v) (hapart : Apart v.fits keys) {key : Key} (hkey : key ∈ keys) :
    v.node (key.path ++ store.root) ≠ some .dir := by
  intro hdir
  obtain ⟨other, hother, hsuffix⟩ := h.dirs _ key.path_ne_nil hdir
  have hlonger := hsuffix.trans (List.tail_suffix _)
  have hsame := hapart.prefixes _ hkey _ hother hlonger
  subst hsame
  have hlength := hsuffix.length_le
  have hpos := List.length_pos_of_ne_nil key.path_ne_nil
  simp only [List.length_tail] at hlength
  omega

theorem Holds.reachable (h : store.Holds keys v) (hapart : Apart v.fits keys) {key : Key} (hkey : key ∈ keys) :
    v.Reachable (key.path ++ store.root) := by
  -- up the path, from its end
  suffices hup : ∀ q, q <:+ key.path → v.Reachable (q ++ store.root) from hup _ (List.suffix_refl _)
  intro q
  induction q with
  | nil => exact fun _ => Volume.reachable_of_node (by simp [h.root])
  | cons name q ih =>
    intro hsuffix
    have hq : q <:+ key.path := (List.suffix_cons _ _).trans hsuffix
    refine ⟨ih hq, fun bytes hfile => ?_, fun _ => hapart.named _ hkey _ (hsuffix.subset (by simp))⟩
    by_cases hnil : q = []
    · subst hnil
      simp [h.root] at hfile
    · obtain ⟨other, hother, rfl⟩ := h.files q bytes hnil hfile
      have hsame := hapart.prefixes _ hother _ hkey hq
      subst hsame
      exact absurd hsuffix.length_le (by simp)

/-- Nothing stands in the way of an operation on one of the keys. -/
theorem Holds.clear (h : store.Holds keys v) (hapart : Apart v.fits keys) {op : Operation}
    (hop : ∀ key ∈ op.key?, key ∈ keys) :
    store.Clear v op := by
  cases op with
  | put key body => exact ⟨h.reachable hapart (hop key rfl), h.not_dir hapart (hop key rfl),
    hapart.named _ (hop key rfl)⟩
  | get key => exact ⟨h.reachable hapart (hop key rfl), h.not_dir hapart (hop key rfl)⟩
  | getRange key start «end» => exact ⟨h.reachable hapart (hop key rfl), h.not_dir hapart (hop key rfl)⟩
  | delete key => exact ⟨h.reachable hapart (hop key rfl), h.not_dir hapart (hop key rfl)⟩
  | probe =>
    refine ⟨?_, hapart.probe⟩
    cases hnode : v.node (probeName :: store.root) with
    | none => rfl
    | some n =>
      exfalso
      cases n with
      | dir =>
        obtain ⟨key, hkey, hsuffix⟩ := h.dirs [probeName] (by simp) hnode
        exact hapart.probes key hkey (hsuffix.trans (List.tail_suffix _))
      | file bytes =>
        obtain ⟨key, hkey, hpath⟩ := h.files [probeName] bytes (by simp) hnode
        exact hapart.probes key hkey (by rw [hpath])

theorem Holds.erased {w : Volume Name} {path : List Name} (h : store.Holds keys v)
    (hroot : w.node store.root = some .dir)
    (hw : w.node = Function.update v.node path none) : store.Holds keys w := by
  have hold : ∀ q n, w.node q = some n → v.node q = some n := by
    intro q n hq
    rw [hw, Function.update_apply] at hq
    split_ifs at hq
    exact hq
  exact ⟨hroot, fun q bytes hq hfile => h.files q bytes hq (hold _ _ hfile),
    fun q hq hdir => h.dirs q hq (hold _ _ hdir)⟩

theorem Holds.answer (h : store.Holds keys v) (hapart : Apart v.fits keys) {op : Operation}
    (hop : ∀ key ∈ op.key?, key ∈ keys) :
    store.Holds keys (store.answer payloadHash v op).2 := by
  have hroot := (kept_answer payloadHash h.root op).root
  have hclear := h.clear hapart hop
  cases op with
  | put key body =>
    have hkey := hop key rfl
    obtain ⟨-, made, hgrown, hnode⟩ := (put_spec payloadHash _ _ h.root).2.1 hclear
    have hmade : ∀ q n, made.node (q ++ store.root) = some n →
        v.node (q ++ store.root) = some n ∨ n = .dir ∧ q ++ store.root <:+ key.path.tail ++ store.root := by
      intro q n hq
      rcases hgrown.2 (q ++ store.root) with hsame | ⟨-, hdir, hsuffix⟩
      · exact .inl (hsame ▸ hq)
      · exact .inr ⟨Option.some.inj (hq.symm.trans hdir), hsuffix⟩
    have hafter : ∀ q, q ≠ key.path → (store.answer payloadHash v (.put key body)).2.node (q ++ store.root) = made.node
      (q ++ store.root) := by
      intro q hq
      change (store.put payloadHash key.text body v).2.node _ = _
      rw [hnode, Function.update_of_ne fun heq => hq (List.append_cancel_right heq)]
    refine ⟨hroot, fun q bytes hq hfile => ?_, fun q hq hdir => ?_⟩
    · by_cases hself : q = key.path
      · exact ⟨key, hkey, hself⟩
      · rw [hafter q hself] at hfile
        rcases hmade q _ hfile with hold | ⟨hdir, -⟩
        · exact h.files q bytes hq hold
        · cases hdir
    · by_cases hself : q = key.path
      · subst hself
        change (store.put payloadHash key.text body v).2.node _ = _ at hdir
        rw [hnode, Function.update_self] at hdir
        cases hdir
      · rw [hafter q hself] at hdir
        rcases hmade q _ hdir with hold | ⟨-, hsuffix⟩
        · exact h.dirs q hq hold
        · exact ⟨key, hkey, List.suffix_append_self_iff.mp hsuffix⟩
  | get key => exact h
  | getRange key start «end» => exact h
  | delete key => exact h.erased hroot ((delete_spec _ h.root).2.1 hclear).2
  | probe =>
    obtain ⟨hnone, hfits⟩ := hclear
    exact h.erased hroot ((probe_spec h.root).2.2 ((probe_spec h.root).2.1.mpr ⟨hfits, by simp [hnone]⟩))

variable (payloadHash) in
/-- **Where no key is a prefix of another**, nothing ever stands in the way. -/
theorem allClear_of_apart (ops : List Operation) (h : store.Holds keys v) (hapart : Apart v.fits keys)
    (hops : ∀ op ∈ ops, ∀ key ∈ op.key?, key ∈ keys) : store.AllClear payloadHash ops v := by
  induction ops generalizing v with
  | nil => trivial
  | cons op ops ih =>
    have hop := hops op (by simp)
    have hkept := kept_answer payloadHash h.root op
    exact ⟨h.clear hapart hop, ih (h.answer hapart hop) (hkept.fits ▸ hapart)
      fun other hother => hops other (by simp [hother])⟩

/-! ### The driver is the map -/

/-- **Over any run**, what is outside of the root stays, and the driver is the map just when
nothing stands in the way. -/
theorem mirrors_iff (payloadHash : List UInt8 → String) (store : FsStorage) (v : Volume Name)
    (hroot : v.node store.root = some .dir)
    (ops : List Operation) :
    (∀ q, ¬ store.root <:+ q → (store.after payloadHash ops v).node q = v.node q) ∧
      (store.Mirrors payloadHash ops v (store.objects v) ↔ store.AllClear payloadHash ops v) := by
  refine ⟨(kept_after hroot ops).outside, ?_⟩
  induction ops generalizing v with
  | nil => rfl
  | cons op ops ih =>
    have hrest := ih _ (kept_answer payloadHash hroot op).root
    rw [AllClear, ← agrees_iff hroot, ← hrest, Mirrors]
    constructor
    · rintro ⟨hanswer, hobjects, hmirrors⟩
      exact ⟨⟨hanswer, hobjects⟩, hobjects ▸ hmirrors⟩
    · rintro ⟨⟨hanswer, hobjects⟩, hmirrors⟩
      exact ⟨hanswer, hobjects, hobjects ▸ hmirrors⟩

/-- The root is the root of the volume. -/
def fresh : FsStorage := { root := [] }

theorem holds_bare (fits : Name → Bool) : fresh.Holds keys (Volume.bare fits) := by
  have hnone : ∀ q n, q ≠ [] → (Volume.bare fits).node (q ++ fresh.root) ≠ some n := by simp [Volume.bare, fresh]
  exact ⟨rfl, fun q bytes hq hfile => absurd hfile (hnone q _ hq), fun q hq hdir => absurd hdir (hnone q _ hq)⟩

/-- Two images in one directory are written, read, checked around and removed. -/
def images : List Operation :=
  [.put ⟨"a/one.png", by decide⟩ [1, 2, 3], .put ⟨"a/two.png", by decide⟩ [4],
    .getRange ⟨"a/one.png", by decide⟩ 1 9, .probe,
    .delete ⟨"a/two.png", by decide⟩]

theorem mirrors_iff_images : (∀ q, ¬ fresh.root <:+ q →
    (fresh.after (fun _ => "") images (Volume.bare fun _ => true)).node q =
      (Volume.bare fun _ => true).node q) ∧
    fresh.Mirrors (fun _ => "") images (Volume.bare fun _ => true) (fresh.objects (Volume.bare fun _ => true)) := by
  have hapart : Apart (Volume.bare fun _ : Name => true).fits [⟨"a/one.png", by decide⟩, ⟨"a/two.png", by decide⟩] :=
    ⟨by decide, by decide, fun _ _ _ _ => rfl, rfl⟩
  have hclear := allClear_of_apart (fun _ => "") images (holds_bare _) hapart (by decide)
  obtain ⟨houtside, hiff⟩ := mirrors_iff (fun _ => "") fresh (Volume.bare fun _ => true) rfl images
  exact ⟨houtside, hiff.mpr hclear⟩

/-- **A key below another is refused**, which the map would have stored. -/
theorem prefix_refused : ¬ fresh.Mirrors (fun _ => "") [.put ⟨"a", by decide⟩ [7], .put ⟨"a/b", by decide⟩ [8]]
    (Volume.bare fun _ => true) (fresh.objects (Volume.bare fun _ => true)) := by
  rintro ⟨-, -, hanswer, -⟩
  have hrefused : (fresh.put (fun _ => "") "a/b" [8] (fresh.put (fun _ => "") "a" [7]
    (Volume.bare fun _ => true)).2).1 =
      .error (.io ["a".toList] .alreadyExists) := by decide +kernel
  simp [answer, Objects.answer, hrefused] at hanswer

end FsStorage

end Omnion.Storage
