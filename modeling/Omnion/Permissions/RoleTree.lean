import Omnion.Library.Forest
import Omnion.Library.Run
import Omnion.Library.Walk
import Omnion.Permissions.Roles

/-!
# The inheritance forest of an organization

What the checks of `create_role`, `update_role` and `duplicate_role` keep of the
parent links, over every sequence of accepted operations.

## What is proved

* `validateParentChange_eq_ok_iff` — which changes of a parent the check accepts.
* `run_bounded` — so every run keeps the links acyclic, and nobody gets more than
  twice `MAX_INHERITANCE_DEPTH` ancestors.
* `run_shallow` — the documented bound itself is kept by the runs whose moves leave
  room for the descendants of the role moved. The check compares the two lengths
  with the bound one by one and never adds them (`shallow_fails`).
-/

namespace Omnion.Permissions

open Std Forest

/-! ### The links a check sees -/

/-- Every parent is a role of the table, and one its child may inherit from; the
roles without an organization are the platform's. -/
structure Sane (roles : Table Role Role.id) : Prop where
  /-- A parent is there, and is a platform role or of the same organization. -/
  parents : ∀ r ∈ roles, ∀ p ∈ r.inheritsRoleId, ∃ q, roles.find? p = some q ∧
    (q.organizationId = none ∨ q.organizationId = r.organizationId)
  /-- A role without an organization is a system role. -/
  platform : ∀ r ∈ roles, r.organizationId = none → r.isSystem = true

variable {roles roles' : Table Role Role.id} {organizationId : Option Uuid}

theorem parentLink_of_find {id : Uuid} {r : Role} (h : roles.find? id = some r) :
    parentLink roles id = r.inheritsRoleId := by
  rw [parentLink, h, Option.bind_some]

theorem parentLink_of_not_mem {id : Uuid} (h : roles.find? id = none) : parentLink roles id = none := by
  rw [parentLink, h, Option.bind_none]

theorem visibleLinks_getElem? (id : Uuid) :
    (visibleLinks roles organizationId)[id]? =
      ((roles.find? id).filter (·.visibleIn organizationId)).map (·.inheritsRoleId) := by
  have hdistinct : ((roles.rows.filter (·.visibleIn organizationId)).map
      fun r => (r.id, r.inheritsRoleId)).Pairwise fun a b => ¬ compare a.1 b.1 = .eq := by
    have hnd := (roles.nodup.sublist ((List.filter_sublist (p := (·.visibleIn organizationId))).map _))
    rw [List.pairwise_map]
    refine (List.pairwise_map.mp hnd).imp fun h hc => h ?_
    exact LawfulEqCmp.eq_of_compare hc
  unfold visibleLinks
  cases hr : (roles.find? id).filter (·.visibleIn organizationId) with
  | some r =>
    obtain ⟨hfind, hvis⟩ := Option.filter_eq_some_iff.mp hr
    obtain ⟨hmem, rfl⟩ := Table.find?_eq_some.mp hfind
    rw [TreeMap.getElem?_ofList_of_mem (k := r.id) (v := r.inheritsRoleId) compare_self hdistinct]
    · rfl
    · exact List.mem_map.mpr ⟨r, List.mem_filter.mpr ⟨hmem, hvis⟩, rfl⟩
  | none =>
    rw [TreeMap.getElem?_ofList_of_contains_eq_false]
    · rfl
    · rw [Bool.eq_false_iff]
      intro hc
      rw [List.contains_iff_mem, List.map_map, List.mem_map] at hc
      obtain ⟨r, hr', hid⟩ := hc
      obtain ⟨hmem, hvis⟩ := List.mem_filter.mp hr'
      have hfind : roles.find? id = some r := Table.find?_eq_some.mpr ⟨hmem, hid⟩
      rw [hfind, Option.filter_some, if_pos hvis] at hr
      exact absurd hr (by simp)

/-- The link of a role in a map of links. -/
def linkIn (links : TreeMap Uuid (Option Uuid)) (id : Uuid) : Option Uuid := links[id]?.join

/-- The parent of a visible role is visible, so from there the check sees the links
as they are. -/
theorem climb_visibleLinks (hs : Sane roles) {id : Uuid} {r : Role} (hr : roles.find? id = some r)
    (hv : r.visibleIn organizationId = true) (k : ℕ) :
    climb (linkIn (visibleLinks roles organizationId)) k id = climb (parentLink roles) k id := by
  induction k generalizing id r with
  | zero => rfl
  | succ k ih =>
    have hlink : linkIn (visibleLinks roles organizationId) id = r.inheritsRoleId := by
      rw [linkIn, visibleLinks_getElem?, hr, Option.filter_some, if_pos hv]
      rfl
    rw [climb, climb, hlink, parentLink_of_find hr]
    cases hp : r.inheritsRoleId with
    | none => rfl
    | some p =>
      obtain ⟨q, hq, horg⟩ := hs.parents r (Table.find?_eq_some.mp hr).1 p hp
      apply ih hq
      rcases horg with h | h
      · simp [Role.visibleIn, h]
      · simpa [Role.visibleIn, h] using hv

theorem organization_of_climb (hs : Sane roles) {k : ℕ} {d id : Uuid} {r : Role} {o : Uuid}
    (hr : roles.find? id = some r) (ho : r.organizationId = some o)
    (hk : climb (parentLink roles) k d = some id) :
    ∃ c, roles.find? d = some c ∧ c.organizationId = some o := by
  induction k generalizing d with
  | zero =>
    obtain rfl := Option.some.inj hk
    exact ⟨r, hr, ho⟩
  | succ k ih =>
    rw [climb] at hk
    obtain ⟨e, he, hek⟩ := Option.bind_eq_some_iff.mp hk
    obtain ⟨c, hc, hce⟩ := Option.bind_eq_some_iff.mp he
    obtain ⟨q, hq, hqo⟩ := ih hek
    obtain ⟨q', hq', horg⟩ := hs.parents c (Table.find?_eq_some.mp hc).1 e hce
    rw [hq] at hq'
    obtain rfl := Option.some.inj hq'
    rcases horg with h | h
    · rw [hqo] at h
      exact absurd h (by simp)
    · exact ⟨c, hc, h ▸ hqo⟩

/-! ### What an accepted change is known to be -/

variable {links : TreeMap Uuid (Option Uuid)} {roleId : Uuid}

/-- The walk up found fewer than its limit of roles above the new parent, and not
the role itself. -/
theorem walkUp_ok {n : ℕ} {visited : List Uuid} {c : Option Uuid}
    (h : walkUp links roleId n visited c = .ok ()) :
    ∀ p ∈ c, climb (linkIn links) n p = none ∧ ∀ k, climb (linkIn links) k p ≠ some roleId := by
  induction n generalizing visited c with
  | zero =>
    cases c with
    | none => simp
    | some id =>
      simp only [walkUp] at h
      split at h <;> cases h
  | succ n ih =>
    cases c with
    | none => simp
    | some id =>
      simp only [walkUp] at h
      split_ifs at h with hid
      rintro p hp
      obtain rfl := Option.some.inj hp
      have hup := ih h
      constructor
      · rw [climb]
        cases hl : linkIn links id with
        | none => rfl
        | some q => exact (hup q hl).1
      · intro k
        cases k with
        | zero => exact fun he => hid (.inl (Option.some.inj he))
        | succ k =>
          rw [climb]
          cases hl : linkIn links id with
          | none => simp
          | some q => exact (hup q hl).2 k

theorem mem_childrenOf {id child : Uuid} :
    child ∈ childrenOf links id ↔ linkIn links child = some id := by
  simp only [childrenOf, linkIn, List.mem_filterMap, Prod.exists, TreeMap.mem_toList_iff_getElem?_eq_some]
  constructor
  · rintro ⟨c, parent, hc, h⟩
    split_ifs at h with hp
    obtain rfl := Option.some.inj h
    rw [hc, hp]
    rfl
  · intro h
    cases hc : links[child]? with
    | none => simp [hc] at h
    | some parent =>
      rw [hc] at h
      exact ⟨child, parent, hc, by rw [show parent = some id from h, if_pos rfl]⟩

/-- The walk down found every descendant within the limit. -/
theorem walkDown_ok {n : ℕ} {frontier : List (Uuid × ℕ)} {seen : List Uuid}
    (h : walkDown links n frontier seen = .ok ()) :
    ∀ x ∈ frontier, ∀ k d, climb (linkIn links) k d = some x.1 → x.2 + k ≤ maxInheritanceDepth := by
  induction n generalizing frontier seen with
  | zero => cases h
  | succ n ih =>
    cases frontier with
    | nil => simp
    | cons top frontier =>
      simp only [walkDown] at h
      split_ifs at h with hbad
      have hrest := ih h
      intro x hx k d hk
      rcases List.mem_cons.mp hx with rfl | hx
      · cases k with
        | zero => omega
        | succ k =>
          -- the last link of the climb comes from a child, one step deeper
          rw [climb_add k 1] at hk
          obtain ⟨c, hc, hcid⟩ := Option.bind_eq_some_iff.mp hk
          have hlink : linkIn links c = some x.1 := by simpa [climb] using hcid
          have hmem : (c, x.2 + 1) ∈ ((childrenOf links x.1).map fun child => (child, x.2 + 1)).reverse ++ frontier :=
            List.mem_append_left _ (List.mem_reverse.mpr (List.mem_map_of_mem (mem_childrenOf.mpr hlink)))
          have := hrest _ hmem k d hc
          simp only at this
          omega
      · exact hrest x (List.mem_append_right _ hx) k d hk

theorem walkUp_of_short {n : ℕ} {visited : List Uuid} {p : Uuid} (hshort : climb (linkIn links) n p = none)
    (havoid : ∀ k, climb (linkIn links) k p ≠ some roleId) (hvisited : ∀ v ∈ visited, Above (linkIn links) v p) :
    walkUp links roleId n visited (some p) = .ok () := by
  induction n generalizing visited p with
  | zero => cases hshort
  | succ n ih =>
    have hnew : p ∉ visited := fun hmem => Within.acyclic hshort (hvisited p hmem)
    have hother : p ≠ roleId := fun heq => havoid 0 (congrArg some heq)
    rw [walkUp, if_neg (not_or_intro hother hnew)]
    change walkUp links roleId n (p :: visited) (linkIn links p) = _
    cases hlink : linkIn links p with
    | none => cases n <;> rfl
    | some q =>
      refine ih (by rwa [climb, hlink] at hshort) (fun k hk => havoid (k + 1) (by rw [climb, hlink]; exact hk)) ?_
      intro v hv
      rcases List.mem_cons.mp hv with rfl | hv
      · exact .single hlink
      · exact (hvisited v hv).tail hlink

theorem childrenOf_nodup (id : Uuid) : (childrenOf links id).Nodup := by
  refine (TreeMap.distinct_keys_toList (t := links)).filterMap _ fun a b hab c hc d hd heq => ?_
  dsimp only at hc hd
  split_ifs at hc hd
  obtain rfl := Option.some.inj hc
  obtain rfl := Option.some.inj hd
  exact hab (by simp [heq])

theorem mem_insert_keys_of_child {id child : Uuid} (h : child ∈ childrenOf links id) :
    child ∈ insert roleId links.keys.toFinset := by
  have hlink := mem_childrenOf.mp h
  refine Finset.mem_insert_of_mem (List.mem_toFinset.mpr ?_)
  rw [TreeMap.mem_keys, TreeMap.mem_iff_isSome_getElem?]
  cases hl : links[child]? with
  | none => simp [linkIn, hl] at hlink
  | some _ => rfl

/-- **The walk down comes to its end** when nothing below the frontier is too deep, with fuel for the roles it has not
seen. -/
theorem walkDown_of_shallow (roleId : Uuid) {n : ℕ} {frontier : List (Uuid × ℕ)} {seen : List Uuid}
    (hdepth : ∀ x ∈ frontier, ∀ k d, climb (linkIn links) k d = some x.1 → x.2 + k ≤ maxInheritanceDepth)
    (hapart : frontier.Pairwise fun x y => Apart (linkIn links) x.1 y.1)
    (hseen : ∀ x ∈ frontier, ∀ s ∈ seen, ∀ k, climb (linkIn links) k s ≠ some x.1)
    (hall : ∀ x ∈ frontier, x.1 ∈ insert roleId links.keys.toFinset)
    (hfuel : (insert roleId links.keys.toFinset \ seen.toFinset).card + 1 ≤ n) :
    walkDown links n frontier seen = .ok () := by
  induction n generalizing frontier seen with
  | zero => exact absurd hfuel (by omega)
  | succ n ih =>
    cases frontier with
    | nil => rfl
    | cons top rest =>
      obtain ⟨id, depth⟩ := top
      obtain ⟨hfirst, hrest⟩ := List.pairwise_cons.mp hapart
      have hnew : id ∉ seen := fun hmem => hseen _ List.mem_cons_self id hmem 0 rfl
      have hshallow : ¬ maxInheritanceDepth < depth := Nat.not_lt.mpr (hdepth _ List.mem_cons_self 0 id rfl)
      have hacyc : ¬ Above (linkIn links) id id := acyclic_of_bounded fun k hk => by
        have := hdepth _ List.mem_cons_self k id hk
        exact (Nat.le_add_left k depth).trans this
      rw [walkDown, if_neg (not_or_intro hnew hshallow)]
      -- the children are one deeper, and apart from each other and from the rest
      have hchild : ∀ x ∈ ((childrenOf links id).map fun child => (child, depth + 1)).reverse,
          linkIn links x.1 = some id ∧ x.2 = depth + 1 := by
        intro x hx
        obtain ⟨c, hc, rfl⟩ := List.mem_map.mp (List.mem_reverse.mp hx)
        exact ⟨mem_childrenOf.mp hc, rfl⟩
      refine ih ?_ ?_ ?_ ?_ ?_
      · intro x hx k d hk
        rcases List.mem_append.mp hx with hx | hx
        · obtain ⟨hlink, hdeep⟩ := hchild x hx
          have := hdepth _ List.mem_cons_self (k + 1) d (climb_snoc hk hlink)
          omega
        · exact hdepth x (List.mem_cons_of_mem _ hx) k d hk
      · refine List.pairwise_append.mpr ⟨?_, hrest, fun x hx y hy => (hfirst y hy).child (hchild x hx).1⟩
        refine List.pairwise_reverse.mpr (List.pairwise_map.mpr ?_)
        refine (childrenOf_nodup id).imp_of_mem fun hb hc hne => ?_
        exact apart_of_children hacyc (mem_childrenOf.mp hc) (mem_childrenOf.mp hb) hne.symm
      · intro x hx s hs k hk
        rcases List.mem_append.mp hx with hbelow | hbeside
        · have hround := climb_snoc hk (hchild x hbelow).1
          rcases List.mem_cons.mp hs with rfl | hs
          · exact hacyc (above_iff.mpr ⟨k, hround⟩)
          · exact hseen _ List.mem_cons_self s hs (k + 1) hround
        · rcases List.mem_cons.mp hs with rfl | hs
          · exact (hfirst x hbeside).1 k hk
          · exact hseen x (List.mem_cons_of_mem _ hbeside) s hs k hk
      · intro x hx
        rcases List.mem_append.mp hx with hx | hx
        · obtain ⟨c, hc, rfl⟩ := List.mem_map.mp (List.mem_reverse.mp hx)
          exact mem_insert_keys_of_child hc
        · exact hall x (List.mem_cons_of_mem _ hx)
      · have hmem : id ∈ insert roleId links.keys.toFinset := hall _ List.mem_cons_self
        have := Walk.card_after hmem hnew
        omega

theorem validateParentChange_ok {parent : Option Uuid} (h : validateParentChange links roleId parent = .ok ()) :
    (∀ p ∈ parent, climb (linkIn links) maxInheritanceDepth p = none ∧ ∀ k, climb (linkIn links) k p ≠ some roleId) ∧
      ∀ k d, climb (linkIn links) k d = some roleId → k ≤ maxInheritanceDepth := by
  simp only [validateParentChange] at h
  cases hup : walkUp links roleId maxInheritanceDepth [] parent with
  | error e => rw [hup] at h; cases h
  | ok u =>
    rw [hup] at h
    refine ⟨walkUp_ok hup, fun k d hk => ?_⟩
    have := walkDown_ok h (roleId, 0) (List.mem_singleton_self _) k d hk
    simpa using this

/-- **When a change of the parent is accepted**: from the new parent up there are at most `MAX_INHERITANCE_DEPTH` roles,
and the role is not one of them; and no role is further below the role than that. -/
theorem validateParentChange_eq_ok_iff (links : TreeMap Uuid (Option Uuid)) (roleId : Uuid) (parent : Option Uuid) :
    validateParentChange links roleId parent = .ok () ↔
      (∀ p ∈ parent, climb (linkIn links) maxInheritanceDepth p = none ∧ ∀ k, climb (linkIn links) k p ≠ some roleId) ∧
        ∀ k d, climb (linkIn links) k d = some roleId → k ≤ maxInheritanceDepth := by
  constructor
  · exact validateParentChange_ok
  · rintro ⟨hup, hdown⟩
    have hwalkUp : walkUp links roleId maxInheritanceDepth [] parent = .ok () := by
      cases parent with
      | none => rfl
      | some p => exact walkUp_of_short (hup p rfl).1 (hup p rfl).2 fun v hv => absurd hv List.not_mem_nil
    have hcard : (insert roleId links.keys.toFinset).card ≤ links.size + 1 :=
      (Finset.card_insert_le _ _).trans (Nat.add_le_add_right ((List.toFinset_card_le _).trans
        (by rw [TreeMap.length_keys])) 1)
    have hwalkDown : walkDown links (links.size + 2) [(roleId, 0)] [] = .ok () :=
      walkDown_of_shallow roleId (by simpa using hdown) (List.pairwise_singleton _ _) (by simp) (by simp)
        (by simpa using hcard)
    rw [validateParentChange, hwalkUp]
    exact hwalkDown

/-! ### What an accepted operation does to the links -/

/-- Role `x` hangs below `q` afterwards, all other links are as before, and `x` is
not above `q`. -/
structure Rehung (roles roles' : Table Role Role.id) (x : Uuid) (q : Option Uuid) : Prop where
  links : parentLink roles' = Function.update (parentLink roles) x q
  sane : Sane roles'
  avoids : ∀ p ∈ q, ∀ k, climb (parentLink roles) k p ≠ some x

/-- There is room for bound `n` to hang `x` below `q`: no way from below `x` through
it and up from `q` is longer. -/
def Room (roles : Table Role Role.id) (x : Uuid) (q : Option Uuid) (n : ℕ) : Prop :=
  ∀ p ∈ q, ∀ d k j, climb (parentLink roles) k d = some x → climb (parentLink roles) j p ≠ none → k + 1 + j ≤ n

variable {x : Uuid} {q : Option Uuid} {n : ℕ}

theorem Rehung.within_iff (h : Rehung roles roles' x q) (hall : ∀ a, Within (parentLink roles) n a) :
    (∀ a, Within (parentLink roles') n a) ↔ Room roles x q n := by
  rw [h.links]
  exact within_update_iff hall h.avoids

theorem eq_of_climb_fresh (hs : Sane roles) (hx : roles.find? x = none) {k : ℕ} {d : Uuid}
    (hk : climb (parentLink roles) k d = some x) : k = 0 := by
  cases k with
  | zero => rfl
  | succ k =>
    rw [climb_add k 1] at hk
    obtain ⟨c, -, hcx⟩ := Option.bind_eq_some_iff.mp hk
    have hlink : parentLink roles c = some x := by simpa [climb] using hcx
    obtain ⟨r, hr, hrx⟩ := Option.bind_eq_some_iff.mp hlink
    obtain ⟨q, hq, -⟩ := hs.parents r (Table.find?_eq_some.mp hr).1 x hrx
    rw [hx] at hq
    exact absurd hq (by simp)

theorem Rehung.insert {r : Role} (hs : Sane roles) (hins : roles.insert? r = some roles')
    (horg : r.organizationId = none → r.isSystem = true)
    (hp : ∀ p ∈ r.inheritsRoleId, ∃ q, roles.find? p = some q ∧
      (q.organizationId = none ∨ q.organizationId = r.organizationId)) :
    Rehung roles roles' r.id r.inheritsRoleId := by
  have hfresh : roles.find? r.id = none := (Table.insert?_eq_some hins).1
  have hold : ∀ {p q}, roles.find? p = some q → roles'.find? p = some q := by
    intro p q hq
    have hne : r.id ≠ p := by
      rintro rfl
      rw [hfresh] at hq
      exact absurd hq (by simp)
    rw [Table.find?_insert? hins, if_neg hne]
    exact hq
  refine ⟨?_, ⟨?_, ?_⟩, ?_⟩
  · funext id
    by_cases hid : id = r.id
    · rw [hid, Function.update_self, parentLink, Table.find?_insert? hins, if_pos rfl, Option.bind_some]
    · rw [Function.update_of_ne hid, parentLink, Table.find?_insert? hins, if_neg (Ne.symm hid)]
      rfl
  · intro a ha p hap
    rcases (Table.mem_insert? hins).mp ha with ha | rfl
    · obtain ⟨q, hq, ho⟩ := hs.parents a ha p hap
      exact ⟨q, hold hq, ho⟩
    · obtain ⟨q, hq, ho⟩ := hp p hap
      exact ⟨q, hold hq, ho⟩
  · intro a ha
    rcases (Table.mem_insert? hins).mp ha with ha | rfl
    · exact hs.platform a ha
    · exact horg
  · intro p hap k hk
    obtain rfl := eq_of_climb_fresh hs hfresh hk
    obtain ⟨q, hq, -⟩ := hp p hap
    obtain rfl := Option.some.inj hk
    rw [hfresh] at hq
    exact absurd hq (by simp)

theorem Rehung.update {role : Role} (f : Role → Role) (hf : ∀ r, (f r).id = r.id) (hs : Sane roles)
    (hr : roles.find? x = some role) (horg : (f role).organizationId = role.organizationId)
    (hsys : (f role).isSystem = role.isSystem)
    (hp : ∀ p ∈ (f role).inheritsRoleId, ∃ q, roles.find? p = some q ∧
      (q.organizationId = none ∨ q.organizationId = role.organizationId))
    (havoid : ∀ p ∈ (f role).inheritsRoleId, ∀ k, climb (parentLink roles) k p ≠ some x) :
    Rehung roles (roles.update (·.id = x) f hf) x (f role).inheritsRoleId := by
  have hrow : ∀ a ∈ roles, a.id = x → a = role := fun a ha hax =>
    Table.eq_of_key ha (Table.find?_eq_some.mp hr).1 (hax.trans (Table.find?_eq_some.mp hr).2.symm)
  -- an updated row keeps its organization
  have hold : ∀ {p q}, roles.find? p = some q →
      ∃ q', (roles.update (·.id = x) f hf).find? p = some q' ∧ q'.organizationId = q.organizationId := by
    intro p q hq
    refine ⟨if q.id = x then f q else q, by rw [Table.find?_update, hq]; simp, ?_⟩
    split_ifs with h
    · rw [hrow q (Table.find?_eq_some.mp hq).1 h]
      exact horg
    · rfl
  refine ⟨?_, ⟨?_, ?_⟩, havoid⟩
  · funext id
    rw [parentLink, Table.find?_update]
    by_cases hid : id = x
    · rw [hid, Function.update_self, hr]
      simp [(Table.find?_eq_some.mp hr).2]
    · rw [Function.update_of_ne hid, parentLink]
      cases hi : roles.find? id with
      | none => rfl
      | some a => simp [(Table.find?_eq_some.mp hi).2, hid]
  · intro a ha p hap
    obtain ⟨b, hb, rfl⟩ := Table.mem_update.mp ha
    by_cases hbx : b.id = x
    · obtain rfl := hrow b hb hbx
      simp only [hbx, decide_true, if_true] at hap ⊢
      obtain ⟨q, hq, ho⟩ := hp p hap
      obtain ⟨q', hq', ho'⟩ := hold hq
      exact ⟨q', hq', by rw [ho', horg]; exact ho⟩
    · simp only [hbx, decide_false, if_false, Bool.false_eq_true] at hap ⊢
      obtain ⟨q, hq, ho⟩ := hs.parents b hb p hap
      obtain ⟨q', hq', ho'⟩ := hold hq
      exact ⟨q', hq', by rw [ho']; exact ho⟩
  · intro a ha hnone
    obtain ⟨b, hb, rfl⟩ := Table.mem_update.mp ha
    by_cases hbx : b.id = x
    · obtain rfl := hrow b hb hbx
      simp only [hbx, decide_true, if_true] at hnone ⊢
      rw [hsys]
      exact hs.platform b hb (horg ▸ hnone)
    · simp only [hbx, decide_false, if_false, Bool.false_eq_true] at hnone ⊢
      exact hs.platform b hb hnone

variable {db db' : Db} {r : Role}

theorem checkNewParent_returns {standIn o : Uuid} {parent : Option Uuid} {u : Unit} (hs : Sane db.roles)
    (h : (checkNewParent o standIn parent).Returns db u db') :
    db = db' ∧ ∀ p ∈ parent, (∃ q, db.roles.find? p = some q ∧
      (q.organizationId = none ∨ q.organizationId = some o)) ∧
      climb (parentLink db.roles) maxInheritanceDepth p = none := by
  cases parent with
  | none => exact ⟨(Query.returns_pure.mp h).2, by simp⟩
  | some parentId =>
    simp only [checkNewParent, Query.returns_bind, findRole_returns, parentLinks_returns, Query.returns_orFail,
      Query.returns_require, Query.returns_check] at h
    obtain ⟨_, _, ⟨rfl, rfl⟩, a, _, ⟨ha, rfl⟩, _, _, ⟨horg, rfl⟩, _, _, ⟨rfl, rfl⟩, hok, rfl⟩ := h
    refine ⟨rfl, fun p hp => ?_⟩
    obtain rfl := Option.some.inj hp
    refine ⟨⟨a, ha, horg⟩, ?_⟩
    have hv : a.visibleIn (some o) = true := by
      rcases horg with h | h <;> simp [Role.visibleIn, h]
    rw [← climb_visibleLinks hs ha hv]
    exact ((validateParentChange_ok hok).1 _ rfl).1

theorem createRole_returns {new : NewRole} {standIn id : Uuid} (hs : Sane db.roles)
    (h : (createRole new standIn id).Returns db r db') :
    Rehung db.roles db'.roles id new.inheritsRoleId ∧ db.roles.find? id = none ∧
      ∀ p ∈ new.inheritsRoleId, climb (parentLink db.roles) maxInheritanceDepth p = none := by
  simp only [createRole, Query.returns_bind, Query.returns_check] at h
  obtain ⟨key, _, ⟨-, rfl⟩, name, _, ⟨-, rfl⟩, priority, _, ⟨-, rfl⟩, _, db₁, hparent, hins⟩ := h
  obtain ⟨rfl, hall⟩ := checkNewParent_returns hs hparent
  obtain ⟨-, -, -, -, roles, hroles, rfl⟩ := insertRole_returns hins
  refine ⟨?_, (Table.insert?_eq_some hroles).1, fun p hp => (hall p hp).2⟩
  exact Rehung.insert hs hroles (by simp) fun p hp => (hall p hp).1

theorem copiedParent_returns {source : Role} {o : Uuid} {q : Option Uuid}
    (h : (copiedParent source o).Returns db q db') :
    db = db' ∧ ∀ p ∈ q, source.inheritsRoleId = some p ∧ ∃ a, db.roles.find? p = some a ∧
      (a.organizationId = none ∨ a.organizationId = some o) := by
  cases hp : source.inheritsRoleId with
  | none =>
    simp only [copiedParent, hp, Query.returns_pure] at h
    obtain ⟨rfl, rfl⟩ := h
    simp
  | some parentId =>
    simp only [copiedParent, hp, Query.returns_bind, findRole_returns, Query.returns_orFail,
      Query.returns_pure] at h
    obtain ⟨_, _, ⟨rfl, rfl⟩, a, _, ⟨ha, rfl⟩, rfl, rfl⟩ := h
    refine ⟨rfl, fun p hpq => ?_⟩
    split_ifs at hpq with horg
    · obtain rfl := Option.some.inj hpq
      exact ⟨rfl, a, ha, horg⟩
    · simp at hpq

theorem duplicateRole_returns {sourceId o id : Uuid} {key name : String} (hs : Sane db.roles)
    (h : (duplicateRole sourceId o key name id).Returns db r db') :
    ∃ q, Rehung db.roles db'.roles id q ∧ db.roles.find? id = none ∧
      ∀ p ∈ q, parentLink db.roles sourceId = some p := by
  simp only [duplicateRole, permissionEntries, Query.returns_bind, Query.returns_read, findRole_returns,
    Query.returns_orFail, Query.returns_require, Query.returns_check, Query.returns_transaction,
    Query.returns_pure] at h
  obtain ⟨_, _, ⟨rfl, rfl⟩, source, _, ⟨hsource, rfl⟩, _, _, ⟨-, rfl⟩, key, _, ⟨-, rfl⟩, name, _, ⟨-, rfl⟩,
    q, _, hq, _, _, ⟨-, rfl⟩, role, _, hins, _, _, hentries, -, rfl⟩ := h
  obtain ⟨rfl, hall⟩ := copiedParent_returns hq
  obtain ⟨-, -, -, -, roles, hroles, rfl⟩ := insertRole_returns hins
  rw [(insertEntries_returns hentries).1.1]
  refine ⟨q, ?_, (Table.insert?_eq_some hroles).1, fun p hp => ?_⟩
  · exact Rehung.insert hs hroles (by simp) fun p hp => (hall p hp).2
  · rw [parentLink_of_find hsource]
    exact (hall p hp).1

theorem writeRole_returns {f : Role → Role} {hf : ∀ a, (f a).id = a.id} {id : Uuid}
    (h : (writeRole id f hf).Returns db r db') :
    ∃ role, db.roles.find? id = some role ∧ r = f role ∧
      db' = { db with roles := db.roles.update (·.id = id) f hf } := by
  simp only [writeRole, Query.returns_statement] at h
  cases hfind : db.roles.find? id with
  | none => simp [hfind] at h
  | some role =>
    simp only [hfind] at h
    split_ifs at h
    simp only [Except.ok.injEq, Prod.mk.injEq] at h
    exact ⟨role, rfl, h.1.symm, h.2.symm⟩

/-- What the link an accepted change leads to is known to be. -/
def ChangeGives (roles : Table Role Role.id) (role : Role) : ParentChange → Option Uuid → Prop
  | .keep, q => q = role.inheritsRoleId
  | .clear, q => q = none
  | .set p, q => q = some p ∧
      (∃ a, roles.find? p = some a ∧ (a.organizationId = none ∨ a.organizationId = role.organizationId)) ∧
      climb (parentLink roles) maxInheritanceDepth p = none ∧
      (∀ k, climb (parentLink roles) k p ≠ some role.id) ∧
      ∀ k d, climb (parentLink roles) k d = some role.id → k ≤ maxInheritanceDepth

theorem updatedParent_returns {role : Role} {change : ParentChange} {q : Option Uuid}
    (hs : Sane db.roles) (hr : db.roles.find? role.id = some role) (hsys : role.isSystem = false)
    (h : (updatedParent role change).Returns db q db') :
    db = db' ∧ ChangeGives db.roles role change q := by
  cases change with
  | keep =>
    obtain ⟨rfl, rfl⟩ := Query.returns_pure.mp h
    exact ⟨rfl, rfl⟩
  | clear =>
    obtain ⟨rfl, rfl⟩ := Query.returns_pure.mp h
    exact ⟨rfl, rfl⟩
  | set p =>
    simp only [updatedParent, Query.returns_bind, findRole_returns, parentLinks_returns, Query.returns_orFail,
      Query.returns_require, Query.returns_check, Query.returns_pure] at h
    obtain ⟨_, _, ⟨-, rfl⟩, _, _, ⟨rfl, rfl⟩, a, _, ⟨ha, rfl⟩, _, _, ⟨horg, rfl⟩, _, _, ⟨rfl, rfl⟩, _, _, ⟨hok, rfl⟩,
      rfl, rfl⟩ := h
    -- a role that may be edited belongs to an organization
    obtain ⟨o, ho⟩ : ∃ o, role.organizationId = some o := by
      apply Option.ne_none_iff_exists'.mp
      intro hnone
      have := hs.platform role (Table.find?_eq_some.mp hr).1 hnone
      rw [hsys] at this
      exact absurd this (by simp)
    have hscope : role.organizationId.or a.organizationId = some o := by rw [ho, Option.some_or]
    rw [hscope] at hok
    have hv : a.visibleIn (some o) = true := by
      rcases horg with h | h <;> simp [Role.visibleIn, h, ho]
    obtain ⟨hup, hdown⟩ := validateParentChange_ok hok
    obtain ⟨hshort, havoid⟩ := hup _ rfl
    have hsame := climb_visibleLinks hs ha hv
    refine ⟨rfl, rfl, ⟨a, ha, horg⟩, hsame _ ▸ hshort, fun k => hsame k ▸ havoid k, fun k d hk => ?_⟩
    obtain ⟨c, hc, hco⟩ := organization_of_climb hs hr ho hk
    apply hdown k d
    rw [climb_visibleLinks hs hc (by simp [Role.visibleIn, hco])]
    exact hk

theorem ChangeGives.parent {role : Role} {change : ParentChange} {q : Option Uuid} (hs : Sane roles)
    (hr : roles.find? role.id = some role) (h : ChangeGives roles role change q) :
    ∀ p ∈ q, ∃ a, roles.find? p = some a ∧
      (a.organizationId = none ∨ a.organizationId = role.organizationId) := by
  cases change with
  | keep =>
    obtain rfl := h
    exact hs.parents role (Table.find?_eq_some.mp hr).1
  | clear =>
    obtain rfl := h
    simp
  | set p =>
    obtain ⟨rfl, ha, -⟩ := h
    rintro _ ⟨⟩
    exact ha

theorem ChangeGives.avoids {role : Role} {change : ParentChange} {q : Option Uuid}
    (hr : roles.find? role.id = some role) (hacyc : ∀ a, ¬ Above (parentLink roles) a a)
    (h : ChangeGives roles role change q) :
    ∀ p ∈ q, ∀ k, climb (parentLink roles) k p ≠ some role.id := by
  cases change with
  | keep =>
    obtain rfl := h
    intro p hp k hk
    refine hacyc role.id (above_iff.mpr ⟨k, ?_⟩)
    rw [climb, parentLink_of_find hr, Option.mem_def.mp hp]
    exact hk
  | clear =>
    obtain rfl := h
    simp
  | set p =>
    obtain ⟨rfl, -, -, havoid, -⟩ := h
    rintro _ ⟨⟩
    exact havoid

theorem updateRole_returns {id : Uuid} {u : RoleUpdate} (hs : Sane db.roles)
    (hacyc : ∀ a, ¬ Above (parentLink db.roles) a a) (h : (updateRole id u).Returns db r db') :
    ∃ role q, db.roles.find? id = some role ∧ ChangeGives db.roles role u.parent q ∧
      Rehung db.roles db'.roles id q := by
  simp only [updateRole, Query.returns_bind, findRole_returns, Query.returns_orFail, Query.returns_require,
    Query.returns_check] at h
  obtain ⟨_, _, ⟨rfl, rfl⟩, role, _, ⟨hr, rfl⟩, _, _, ⟨hsys, rfl⟩, name, _, ⟨-, rfl⟩, priority, _, ⟨-, rfl⟩,
    q, _, hq, hw⟩ := h
  obtain rfl : role.id = id := (Table.find?_eq_some.mp hr).2
  obtain ⟨rfl, hgives⟩ := updatedParent_returns hs hr hsys hq
  obtain ⟨role', hr', -, rfl⟩ := writeRole_returns hw
  rw [hr] at hr'
  obtain rfl := Option.some.inj hr'
  exact ⟨role, q, hr, hgives, Rehung.update (fun a => a.updated u name priority q) (fun _ => rfl) hs hr rfl rfl
    (hgives.parent hs hr) (hgives.avoids hr hacyc)⟩

/-! ### Runs -/

/-- The operations that write a role's row. -/
inductive RoleOp where
  /-- `create_role`, with the ids drawn for it. -/
  | create (new : NewRole) (standIn id : Uuid)
  /-- `update_role`. -/
  | update (id : Uuid) (change : RoleUpdate)
  /-- `duplicate_role`, with the id drawn for it. -/
  | duplicate (sourceId organizationId : Uuid) (key name : String) (id : Uuid)

/-- The call an operation makes. -/
def RoleOp.call : RoleOp → Call Role
  | .create new standIn id => createRole new standIn id
  | .update id change => updateRole id change
  | .duplicate sourceId organizationId key name id => duplicateRole sourceId organizationId key name id

/-- One accepted operation. -/
def roleStep (db : Db) (op : RoleOp) : Option Db :=
  match op.call db with
  | (.ok _, db') => some db'
  | (.error _, _) => none

theorem roleStep_eq_some {op : RoleOp} : roleStep db op = some db' ↔ ∃ r, op.call.Returns db r db' := by
  simp only [roleStep, Query.Returns]
  rcases op.call db with ⟨_ | r, t⟩ <;> simp

/-- The links are acyclic and nobody has more than `n` ancestors. -/
def Bounded (roles : Table Role Role.id) (n : ℕ) : Prop :=
  ∀ r ∈ roles, ¬ Above (parentLink roles) r.id r.id ∧ {a | Above (parentLink roles) r.id a}.encard ≤ n

theorem bounded_iff : Bounded roles n ↔ ∀ a, Within (parentLink roles) n a := by
  refine ⟨fun h => within_iff.mpr fun a => ?_, fun h r _ => within_iff.mp h r.id⟩
  cases ha : roles.find? a with
  | some r =>
    obtain ⟨hr, rfl⟩ := Table.find?_eq_some.mp ha
    exact h r hr
  | none =>
    have hnone : ∀ b, ¬ Above (parentLink roles) a b := by
      intro b hb
      obtain ⟨k, hk⟩ := above_iff.mp hb
      rw [climb, parentLink_of_not_mem ha] at hk
      exact absurd hk (by simp)
    exact ⟨hnone a, by simp [hnone]⟩

theorem bounded_of_rows (h : ∀ r ∈ roles.rows, climb (parentLink roles) (n + 1) r.id = none) :
    Bounded roles n :=
  fun r hr => ⟨Within.acyclic (h r hr), Within.encard_le (h r hr)⟩

theorem Room.of_fresh (hs : Sane roles) (hx : roles.find? x = none)
    (hq : ∀ p ∈ q, ∀ j, climb (parentLink roles) j p ≠ none → j < n) : Room roles x q n := by
  intro p hp d k j hk hj
  obtain rfl := eq_of_climb_fresh hs hx hk
  have := hq p hp j hj
  omega

/-- **One accepted operation** hangs one role below a parent; for every bound from
`MAX_INHERITANCE_DEPTH` on there is room to do so, unless it moves a role. -/
theorem roleStep_rehung {op : RoleOp} (hs : Sane db.roles)
    (hall : ∀ a, Within (parentLink db.roles) n a)
    (hn : maxInheritanceDepth ≤ n) (h : roleStep db op = some db')
    (hmove : ∀ id u p role, op = .update id u → u.parent = .set p → db.roles.find? id = some role →
      ChangeGives db.roles role (.set p) (some p) → Room db.roles id (some p) n) :
    ∃ x q, Rehung db.roles db'.roles x q ∧ Room db.roles x q n := by
  obtain ⟨r, h⟩ := roleStep_eq_some.mp h
  cases op with
  | create new standIn id =>
    obtain ⟨hrehung, hfresh, hshort⟩ := createRole_returns hs h
    refine ⟨_, _, hrehung, Room.of_fresh hs hfresh fun p hp j hj => ?_⟩
    by_contra hle
    exact hj (climb_eq_none_mono (hshort p hp) (by omega))
  | duplicate sourceId organizationId key name id =>
    obtain ⟨q, hrehung, hfresh, hsource⟩ := duplicateRole_returns hs h
    refine ⟨_, _, hrehung, Room.of_fresh hs hfresh fun p hp j hj => ?_⟩
    -- the copy sits where its source sits
    obtain ⟨b, hb⟩ := Option.ne_none_iff_exists'.mp hj
    have hup : climb (parentLink db.roles) (j + 1) sourceId = some b := by
      rw [climb, hsource p hp]
      exact hb
    have := (hall sourceId).lt_of_climb hup
    omega
  | update id u =>
    obtain ⟨role, q, hr, hgives, hrehung⟩ := updateRole_returns hs (fun a => (hall a).acyclic) h
    refine ⟨_, _, hrehung, ?_⟩
    cases hu : u.parent with
    | keep =>
      rw [hu] at hgives
      obtain rfl := hgives
      intro p hp d k j hk hj
      -- the link is the one that was there
      obtain ⟨b, hb⟩ := Option.ne_none_iff_exists'.mp hj
      have hup : climb (parentLink db.roles) (k + (j + 1)) d = some b := by
        rw [climb_add, hk, Option.bind_some, climb, parentLink_of_find hr, Option.mem_def.mp hp]
        exact hb
      have := (hall d).lt_of_climb hup
      omega
    | clear =>
      rw [hu] at hgives
      obtain rfl := hgives
      exact fun p hp => absurd hp (by simp)
    | set p =>
      rw [hu] at hgives
      obtain rfl := hgives.1
      exact hmove id u p role rfl hu hr hgives

/-- **Every run keeps the links acyclic**, and nobody gets more than twice
`MAX_INHERITANCE_DEPTH` ancestors: the walk up and the walk down each allow that
many. -/
theorem run_bounded {ops : List RoleOp} (hs : Sane db.roles) (hb : Bounded db.roles maxInheritanceDepth)
    (h : Transition.Run roleStep Transition.Any db ops db') :
    Bounded db'.roles (2 * maxInheritanceDepth) := by
  have hstart : ∀ a, Within (parentLink db.roles) (2 * maxInheritanceDepth) a := fun a =>
    climb_eq_none_mono (bounded_iff.mp hb a) (by decide)
  refine bounded_iff.mpr (h.invariant (I := fun db => Sane db.roles ∧
    ∀ a, Within (parentLink db.roles) (2 * maxInheritanceDepth) a) ⟨hs, hstart⟩ ?_).2
  rintro x op y ⟨hs, hall⟩ - hstep
  obtain ⟨_, _, hrehung, hroom⟩ := roleStep_rehung hs hall (by decide) hstep (by
    intro id u p role _ _ hr hgives p' hp d k j hk hj
    obtain rfl : p = p' := Option.some.inj hp
    obtain ⟨-, -, hshort, -, hdown⟩ := hgives
    rw [(Table.find?_eq_some.mp hr).2] at hdown
    have hj8 : j < maxInheritanceDepth := by
      by_contra hle
      exact hj (climb_eq_none_mono hshort (by omega))
    have := hdown k d hk
    omega)
  exact ⟨hrehung.sane, (hrehung.within_iff hall).mpr hroom⟩

/-- A move leaves room for the descendants of the role moved: from the lowest of
them, through the role, up to the top of the new chain there are no more than
`MAX_INHERITANCE_DEPTH` links. -/
def LeavesRoom (db : Db) : RoleOp → Prop
  | .update id u => ∀ p, u.parent = .set p → Room db.roles id (some p) maxInheritanceDepth
  | _ => True

/-- **The documented bound is kept** by every run whose moves leave room: acyclic
links, and no more than `MAX_INHERITANCE_DEPTH` ancestors of any role, the
descendants of a role moved included. -/
theorem run_shallow {ops : List RoleOp} (hs : Sane db.roles) (hb : Bounded db.roles maxInheritanceDepth)
    (h : Transition.Run roleStep LeavesRoom db ops db') : Bounded db'.roles maxInheritanceDepth := by
  refine bounded_iff.mpr (h.invariant (I := fun db => Sane db.roles ∧
    ∀ a, Within (parentLink db.roles) maxInheritanceDepth a) ⟨hs, bounded_iff.mp hb⟩ ?_).2
  rintro x op y ⟨hs, hall⟩ hok hstep
  obtain ⟨_, _, hrehung, hroom⟩ := roleStep_rehung hs hall le_rfl hstep
    (by rintro id u p role rfl hu - -; exact hok p hu)
  exact ⟨hrehung.sane, (hrehung.within_iff hall).mpr hroom⟩

theorem leavesRoom_of_bounded {op : RoleOp} (hs : Sane db.roles)
    (hb : Bounded db.roles maxInheritanceDepth)
    (h : roleStep db op = some db') (hb' : Bounded db'.roles maxInheritanceDepth) :
    LeavesRoom db op := by
  have hall := bounded_iff.mp hb
  cases op with
  | create => trivial
  | duplicate => trivial
  | update id u =>
    intro p hu
    obtain ⟨r, h⟩ := roleStep_eq_some.mp h
    obtain ⟨role, q, -, hgives, hrehung⟩ := updateRole_returns hs (fun a => (hall a).acyclic) h
    rw [hu] at hgives
    obtain rfl := hgives.1
    exact (hrehung.within_iff hall).mp (bounded_iff.mp hb')

/-- A role of organization 7. -/
def rung (id : Uuid) (key : String) (parent : Option Uuid) : Role :=
  ⟨id, some 7, key, "Rung", "", 100, parent, true, false⟩

/-- A ladder of eight roles, and beside it a role with one child. -/
def ladder : Db where
  roles :=
    { rows := [rung 1 "a" none, rung 2 "b" (some 1), rung 3 "c" (some 2), rung 4 "d" (some 3), rung 5 "e" (some 4),
        rung 6 "f" (some 5), rung 7 "g" (some 6), rung 8 "h" (some 7), rung 9 "i" none, rung 10 "j" (some 9)]
      nodup := by decide }

theorem ladder_sane : Sane ladder.roles := by
  have hparents : ∀ r ∈ ladder.roles.rows, ∀ p ∈ r.inheritsRoleId, ∃ q ∈ ladder.roles.rows, q.id = p ∧
      (q.organizationId = none ∨ q.organizationId = r.organizationId) := by decide
  refine ⟨fun r hr p hp => ?_, ?_⟩
  · obtain ⟨q, hq, hqp, ho⟩ := hparents r hr p hp
    exact ⟨q, Table.find?_eq_some.mpr ⟨hq, hqp⟩, ho⟩
  · show ∀ r ∈ ladder.roles.rows, r.organizationId = none → r.isSystem = true
    decide

theorem ladder_bounded : Bounded ladder.roles maxInheritanceDepth := bounded_of_rows (by decide)

/-- The role with a child hung below the ladder: accepted, and the child has nine
ancestors. -/
theorem shallow_fails :
    ¬ ∀ (db : Db) (ops : List RoleOp) (db' : Db), Sane db.roles → Bounded db.roles maxInheritanceDepth →
      Transition.Run roleStep Transition.Any db ops db' → Bounded db'.roles maxInheritanceDepth := by
  intro h
  have hstep : (Transition.exec roleStep ladder [.update 9 { parent := .set 8 }]).isSome := by decide
  obtain ⟨moved, hmoved⟩ := Option.isSome_iff_exists.mp hstep
  have hwithin := bounded_iff.mp (h ladder _ moved ladder_sane ladder_bounded (.of_exec hmoved)) 10
  have hclimb : (Transition.exec roleStep ladder [.update 9 { parent := .set 8 }]).bind
      (fun db => climb (parentLink db.roles) (maxInheritanceDepth + 1) 10) = some 1 := by decide
  rw [hmoved, Option.bind_some, show climb _ _ _ = none from hwithin] at hclimb
  exact absurd hclimb (by decide)

/-- A role is created below the ladder and copied, the role with a child is hung below the ladder and let go again. -/
def busyDay : List RoleOp :=
  [.create ⟨7, "k", "Rung", "", 100, some 7⟩ 20 11, .duplicate 11 7 "l" "Rung" 12,
    .update 9 { parent := .set 8 }, .update 9 { parent := .clear }]

theorem run_bounded_busy : ∃ moved, Transition.Run roleStep Transition.Any ladder busyDay moved ∧
    Bounded moved.roles (2 * maxInheritanceDepth) := by
  have hsteps : (Transition.exec roleStep ladder busyDay).isSome := by decide +kernel
  obtain ⟨moved, hmoved⟩ := Option.isSome_iff_exists.mp hsteps
  exact ⟨moved, .of_exec hmoved, run_bounded ladder_sane ladder_bounded (.of_exec hmoved)⟩

/-- The same role hung below the top of the ladder, where there is room. -/
def shelved : Db :=
  { ladder with
    roles := ladder.roles.update (·.id = 9) (fun r => { r with inheritsRoleId := some 1 }) fun _ => rfl }

theorem run_shallow_ladder :
    Transition.Run roleStep LeavesRoom ladder [.update 9 { parent := .set 1 }] shelved ∧
      Bounded shelved.roles maxInheritanceDepth := by
  have hstep : roleStep ladder (.update 9 { parent := .set 1 }) = some shelved := rfl
  have hroom : LeavesRoom ladder (.update 9 { parent := .set 1 }) :=
    leavesRoom_of_bounded ladder_sane ladder_bounded hstep (bounded_of_rows (by decide))
  have hrun : Transition.Run roleStep LeavesRoom ladder [.update 9 { parent := .set 1 }] shelved :=
    .snoc .nil hroom hstep
  exact ⟨hrun, run_shallow ladder_sane ladder_bounded hrun⟩

end Omnion.Permissions
