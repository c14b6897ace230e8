import Omnion.Library.Keyed
import Omnion.Permissions.MatrixSave

/-!
# What changed between two permission sets

`diff` of `crates/permissions/src/versions.rs`: the record of what a role change did, drawn
by the history tab between consecutive versions and returned by the matrix save. The
comparison is over maps from key to effect, so the order of the entries does not matter.

## What is proved

* `diff_exact` — for sets with unique keys, what the diff says turns the one set into the
  other, it is empty just when they are equal as maps, and no order of the entries changes it.
-/

namespace Omnion.Permissions

open Std

variable {before after entries : List RolePermission} {key : String} {effect : Effect} {e : RolePermission}

/-- No key twice. -/
def UniqueKeys (entries : List RolePermission) : Prop := (entries.map (·.key)).Nodup

instance : Decidable (UniqueKeys entries) := inferInstanceAs (Decidable (List.Nodup _))

/-- A permission set as a function: the effect of a key. -/
def lookup (entries : List RolePermission) (key : String) : Option Effect :=
  (entries.find? (·.key = key)).map (·.effect)

/-- `true` when the two sets are equal. -/
def RoleDiff.isEmpty (d : RoleDiff) : Bool := d.added.isEmpty && d.changed.isEmpty && d.removed.isEmpty

/-- An entry with its new effect, if it was changed. -/
def RoleDiff.replace (d : RoleDiff) (e : RolePermission) : RolePermission :=
  match d.changed.find? (·.key = e.key) with
  | some c => ⟨e.key, c.after.getD e.effect⟩
  | none => e

/-- What a diff says is done to a set: the removed entries go, the changed ones are
replaced, and the added ones come. -/
def RoleDiff.apply (d : RoleDiff) (before : List RolePermission) : List RolePermission :=
  (before.filter (· ∉ d.removed)).map d.replace ++ d.added

/-! ### Sets with unique keys -/

theorem UniqueKeys.nodup (h : UniqueKeys entries) : entries.Nodup := List.Nodup.of_map _ h

theorem UniqueKeys.effect_eq {effect effect' : Effect} (h : UniqueKeys entries) (hmem : ⟨key, effect⟩ ∈ entries)
    (hmem' : ⟨key, effect'⟩ ∈ entries) : effect = effect' :=
  congrArg RolePermission.effect (List.inj_on_of_nodup_map h hmem hmem' rfl)

theorem lookup_eq_some_iff (h : UniqueKeys entries) : lookup entries key = some effect ↔ ⟨key, effect⟩ ∈ entries := by
  rw [lookup, Option.map_eq_some_iff]
  constructor
  · rintro ⟨e, hfind, rfl⟩
    have hkey : e.key = key := by simpa using List.find?_some hfind
    exact hkey ▸ List.mem_of_find?_eq_some hfind
  · intro hmem
    rcases hfind : entries.find? (·.key = key) with _ | ⟨key', effect'⟩
    · simpa using List.find?_eq_none.mp hfind _ hmem
    · have hfound := List.mem_of_find?_eq_some hfind
      obtain rfl : key' = key := by simpa using List.find?_some hfind
      exact ⟨_, hfind, h.effect_eq hfound hmem⟩

theorem perm_iff_lookup (hbefore : UniqueKeys before) (hafter : UniqueKeys after) :
    before.Perm after ↔ ∀ key, lookup before key = lookup after key := by
  rw [List.perm_ext_iff_of_nodup hbefore.nodup hafter.nodup]
  constructor
  · intro h key
    refine Option.ext fun effect => ?_
    rw [lookup_eq_some_iff hbefore, lookup_eq_some_iff hafter, h]
  · rintro h ⟨key, effect⟩
    rw [← lookup_eq_some_iff hbefore, ← lookup_eq_some_iff hafter, h]

/-! ### The map of a set -/

theorem getElem?_entryMap (h : UniqueKeys entries) : (entryMap entries)[key]? = some effect ↔
    ⟨key, effect⟩ ∈ entries := by
  have hkeyed : entryMap entries = Keyed.ofAll RolePermission.key RolePermission.effect entries := rfl
  rw [hkeyed, Keyed.getElem?_ofAll h]
  constructor
  · rintro ⟨⟨key, effect⟩, hmem, rfl, rfl⟩
    exact hmem
  · exact fun hmem => ⟨_, hmem, rfl, rfl⟩

theorem mem_toList_entryMap (h : UniqueKeys entries) : (key, effect) ∈ (entryMap entries).toList ↔
    ⟨key, effect⟩ ∈ entries := by
  rw [TreeMap.mem_toList_iff_getElem?_eq_some, getElem?_entryMap h]

theorem getElem?_entryMap_eq_none (h : UniqueKeys entries) :
    (entryMap entries)[key]? = none ↔ ∀ effect, ⟨key, effect⟩ ∉ entries := by
  simp only [Option.eq_none_iff_forall_ne_some, Ne, getElem?_entryMap h]

theorem nodup_toList (m : TreeMap String Effect) : m.toList.Nodup := by
  refine m.distinct_keys_toList.imp ?_
  rintro a b h rfl
  exact h compare_self

theorem entryMap_equiv {entries' : List RolePermission} (hperm : entries'.Perm entries) (h : UniqueKeys entries) :
    (entryMap entries').Equiv (entryMap entries) := by
  have h' : UniqueKeys entries' := (hperm.map _).nodup_iff.mpr h
  refine .of_toList_perm ((List.perm_ext_iff_of_nodup (nodup_toList _) (nodup_toList _)).mpr ?_)
  rintro ⟨key, effect⟩
  rw [mem_toList_entryMap h', mem_toList_entryMap h, hperm.mem_iff]

theorem replace_key (d : RoleDiff) (e : RolePermission) : (d.replace e).key = e.key := by
  rw [RoleDiff.replace]
  split <;> rfl

/-! ### What a diff holds -/

theorem nodup_added : (diff before after).added.Nodup := by
  rw [diff]
  refine (nodup_toList _).filterMap ?_
  rintro ⟨key, effect⟩ ⟨key', effect'⟩ e he he'
  simp only [Option.ite_none_right_eq_some, Option.some.injEq, Option.mem_def] at he he'
  obtain ⟨-, rfl⟩ := he
  obtain ⟨-, he'⟩ := he'
  rw [RolePermission.mk.injEq] at he'
  rw [he'.1, he'.2]

section

variable (hbefore : UniqueKeys before) (hafter : UniqueKeys after)
include hbefore hafter

theorem mem_added :
    ⟨key, effect⟩ ∈ (diff before after).added ↔ ⟨key, effect⟩ ∈ after ∧ ∀ previous, ⟨key, previous⟩ ∉ before := by
  simp only [diff, List.mem_filterMap, Prod.exists, Option.ite_none_right_eq_some, Option.isNone_iff_eq_none,
    Option.some.injEq, RolePermission.mk.injEq, mem_toList_entryMap hafter, getElem?_entryMap_eq_none hbefore]
  constructor
  · rintro ⟨_, _, hmem, hnone, rfl, rfl⟩
    exact ⟨hmem, hnone⟩
  · rintro ⟨hmem, hnone⟩
    exact ⟨_, _, hmem, hnone, rfl, rfl⟩

theorem mem_removed :
    ⟨key, effect⟩ ∈ (diff before after).removed ↔ ⟨key, effect⟩ ∈ before ∧ ∀ next, ⟨key, next⟩ ∉ after := by
  simp only [diff, List.mem_filterMap, Prod.exists, Option.ite_none_left_eq_some, TreeMap.contains_eq_isSome_getElem?,
    Option.not_isSome_iff_eq_none, Option.some.injEq, RolePermission.mk.injEq, mem_toList_entryMap hbefore,
    getElem?_entryMap_eq_none hafter]
  constructor
  · rintro ⟨_, _, hmem, hnone, rfl, rfl⟩
    exact ⟨hmem, hnone⟩
  · rintro ⟨hmem, hnone⟩
    exact ⟨_, _, hmem, hnone, rfl, rfl⟩

theorem mem_changed {c : PermissionChange} :
    c ∈ (diff before after).changed ↔ ∃ key previous next, c = ⟨key, some previous, some next⟩ ∧
      ⟨key, previous⟩ ∈ before ∧ ⟨key, next⟩ ∈ after ∧ previous ≠ next := by
  simp only [diff, List.mem_filterMap, Prod.exists, mem_toList_entryMap hafter]
  constructor
  · rintro ⟨key, next, hnext, hc⟩
    rcases hget : (entryMap before)[key]? with _ | previous
    · simp [hget] at hc
    · simp only [hget, Option.ite_none_right_eq_some, Option.some.injEq] at hc
      obtain ⟨hne, rfl⟩ := hc
      exact ⟨key, previous, next, rfl, (getElem?_entryMap hbefore).mp hget, hnext, hne⟩
  · rintro ⟨key, previous, next, rfl, hprevious, hnext, hne⟩
    refine ⟨key, next, hnext, ?_⟩
    simp only [(getElem?_entryMap hbefore).mpr hprevious, if_pos hne]

/-! ### What a diff does -/

theorem replace_eq {previous next : Effect} (hprevious : ⟨key, previous⟩ ∈ before) (hnext : ⟨key, next⟩ ∈ after) :
    (diff before after).replace ⟨key, previous⟩ = ⟨key, next⟩ := by
  rw [RoleDiff.replace]
  split
  next c hfind =>
    have hkey : c.key = key := by simpa using List.find?_some hfind
    obtain ⟨_, _, next', rfl, -, hnext', -⟩ := (mem_changed hbefore hafter).mp (List.mem_of_find?_eq_some hfind)
    obtain rfl : _ = key := hkey
    rw [hafter.effect_eq hnext hnext']
    rfl
  next hfind =>
    -- Nothing was changed at the key, so both effects are one.
    by_contra hne
    have hchanged := (mem_changed hbefore hafter).mpr
      ⟨key, previous, next, rfl, hprevious, hnext, fun heq => hne (heq ▸ rfl)⟩
    simpa using List.find?_eq_none.mp hfind _ hchanged

theorem mem_apply : e ∈ (diff before after).apply before ↔ e ∈ after := by
  obtain ⟨key, effect⟩ := e
  rw [RoleDiff.apply, List.mem_append, List.mem_map, mem_added hbefore hafter]
  constructor
  · rintro (⟨⟨key', previous⟩, hkept, heq⟩ | ⟨hadded, -⟩)
    · obtain ⟨hprevious, hnot⟩ := List.mem_filter.mp hkept
      have hheld : ∃ next, ⟨key', next⟩ ∈ after := by
        by_contra hnone
        have := (mem_removed hbefore hafter).mpr ⟨hprevious, not_exists.mp hnone⟩
        simp [this] at hnot
      obtain ⟨next, hnext⟩ := hheld
      rw [replace_eq hbefore hafter hprevious hnext] at heq
      exact heq ▸ hnext
    · exact hadded
  · intro hmem
    by_cases hheld : ∃ previous, ⟨key, previous⟩ ∈ before
    · obtain ⟨previous, hprevious⟩ := hheld
      refine .inl ⟨⟨key, previous⟩, List.mem_filter.mpr ⟨hprevious, ?_⟩, replace_eq hbefore hafter hprevious hmem⟩
      have : ⟨key, previous⟩ ∉ (diff before after).removed := fun hremoved =>
        ((mem_removed hbefore hafter).mp hremoved).2 _ hmem
      simpa using this
    · exact .inr ⟨hmem, not_exists.mp hheld⟩

theorem nodup_apply : ((diff before after).apply before).Nodup := by
  refine List.nodup_append.mpr ⟨?_, nodup_added, ?_⟩
  · refine List.Nodup.of_map (·.key) ?_
    have hkeys : (·.key) ∘ (diff before after).replace = (·.key) := funext fun e => replace_key _ e
    rw [List.map_map, hkeys]
    exact (List.filter_sublist.map _).nodup hbefore
  · rintro a ha ⟨key, effect⟩ hadded rfl
    obtain ⟨e, hkept, heq⟩ := List.mem_map.mp ha
    have hkey : e.key = key := (replace_key _ e).symm.trans (congrArg RolePermission.key heq)
    subst hkey
    exact ((mem_added hbefore hafter).mp hadded).2 _ (List.mem_of_mem_filter hkept)

theorem apply_perm : ((diff before after).apply before).Perm after :=
  (List.perm_ext_iff_of_nodup (nodup_apply hbefore hafter) hafter.nodup).mpr fun _ => mem_apply hbefore hafter

/-- The diff of two sets is empty just when they hold the same entries. -/
theorem isEmpty_diff : (diff before after).isEmpty = true ↔ before.Perm after := by
  rw [RoleDiff.isEmpty, Bool.and_eq_true, Bool.and_eq_true, List.isEmpty_iff, List.isEmpty_iff, List.isEmpty_iff]
  constructor
  · rintro ⟨⟨hadded, hchanged⟩, hremoved⟩
    have hsame : (diff before after).apply before = before := by
      have hreplace : (diff before after).replace = id := by
        funext e
        rw [RoleDiff.replace, hchanged]
        rfl
      rw [RoleDiff.apply, hadded, hremoved, hreplace]
      simp
    exact hsame ▸ apply_perm hbefore hafter
  · intro hperm
    refine ⟨⟨?_, ?_⟩, ?_⟩
    · refine List.eq_nil_iff_forall_not_mem.mpr fun ⟨key, effect⟩ hadded => ?_
      obtain ⟨hmem, hnone⟩ := (mem_added hbefore hafter).mp hadded
      exact hnone effect (hperm.mem_iff.mpr hmem)
    · refine List.eq_nil_iff_forall_not_mem.mpr fun c hchanged => ?_
      obtain ⟨key, previous, next, -, hprevious, hnext, hne⟩ := (mem_changed hbefore hafter).mp hchanged
      exact hne (hafter.effect_eq (hperm.mem_iff.mp hprevious) hnext)
    · refine List.eq_nil_iff_forall_not_mem.mpr fun ⟨key, effect⟩ hremoved => ?_
      obtain ⟨hmem, hnone⟩ := (mem_removed hbefore hafter).mp hremoved
      exact hnone effect (hperm.mem_iff.mp hmem)

theorem diff_perm {before' after' : List RolePermission} (hb : before'.Perm before) (ha : after'.Perm after) :
    diff before' after' = diff before after := by
  have hbefore' := entryMap_equiv hb hbefore
  have hafter' := entryMap_equiv ha hafter
  simp only [diff, hbefore'.toList_eq, hafter'.toList_eq, hbefore'.getElem?_eq, hafter'.contains_eq]

/-- **A diff is exact**: what it says turns the one set into the other, it is empty just when
they are equal as maps, and the order of the entries does not matter. -/
theorem diff_exact :
    ((diff before after).apply before).Perm after ∧
      ((diff before after).isEmpty = true ↔ ∀ key, lookup before key = lookup after key) ∧
      ∀ before' after', before'.Perm before → after'.Perm after → diff before' after' = diff before after := by
  refine ⟨apply_perm hbefore hafter, ?_, fun _ _ => diff_perm hbefore hafter⟩
  rw [isEmpty_diff hbefore hafter, perm_iff_lookup hbefore hafter]

end

/-- A save that grants one key, takes one away and turns one to a denial. -/
theorem diff_exact_matrix :
    ((diff [⟨"pages.read", .allow⟩, ⟨"media.upload", .allow⟩, ⟨"users.read", .deny⟩]
          [⟨"media.upload", .deny⟩, ⟨"users.create", .allow⟩, ⟨"pages.read", .allow⟩]).apply
        [⟨"pages.read", .allow⟩, ⟨"media.upload", .allow⟩, ⟨"users.read", .deny⟩]).Perm
      [⟨"media.upload", .deny⟩, ⟨"users.create", .allow⟩, ⟨"pages.read", .allow⟩] :=
  (diff_exact (by decide) (by decide)).1

end Omnion.Permissions
