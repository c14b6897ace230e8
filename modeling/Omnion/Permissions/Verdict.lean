import Omnion.Permissions.Evaluate

/-!
# The verdict, and the trace beside it

What `RoleGraph.effective` decides, stated over the inheritance relation of the
graph instead of the walk that computes it.

## The reference

`Inherits g` links a role to its parent where the link inherits and the parent is
in the graph. The closure of a list of bound roles (`InClosure`) is what can be
reached from them along it. A key is refused when a role of the closure denies
it, held when none denies it and one allows it, and otherwise not granted
(`Verdict`).

## What is proved

* `decision_verdict` — the decision is the reference verdict, for every graph,
  list of bound roles and key; what it reports is a strongest entry, the same up
  to ties whatever the order and repetition of the bound roles.
* `trace_agrees_iff` — exactly when the traces of the bound roles agree with the
  decision. A trace stops at the nearest role that speaks, so it misses a deny
  further up.
-/

namespace Omnion.Permissions

open Relation Std

namespace RoleGraph

variable (g : RoleGraph)

/-! ### The inheritance relation -/

/-- `child` inherits from `parent`: the link is there, it inherits, and the parent
is a role of the graph. -/
def Inherits (child parent : Uuid) : Prop :=
  ∃ a, g.role child = some a ∧ a.role.inheritPermissions = true ∧
    a.role.inheritsRoleId = some parent ∧ (g.role parent).isSome

def InClosure (bound : List Uuid) (r : Uuid) : Prop :=
  ∃ b ∈ bound, (g.role b).isSome ∧ ReflTransGen g.Inherits b r

/-- Role `r` carries an entry of this effect for the key. -/
def Carries (r : Uuid) (key : String) (effect : Effect) : Prop :=
  ∃ a, g.role r = some a ∧ ⟨key, effect⟩ ∈ a.permissions

/-- Some role of the closure carries an entry of this effect for the key. -/
def Spoken (bound : List Uuid) (key : String) (effect : Effect) : Prop :=
  ∃ r, g.InClosure bound r ∧ g.Carries r key effect

/-- `grant` is the provenance of an entry for the key in the closure: it comes from
the bound role itself, or is inherited from one of its ancestors. -/
def Provenance (bound : List Uuid) (key : String) (effect : Effect) (grant : Grant) : Prop :=
  ∃ b ∈ bound, (g.role b).isSome ∧ ∃ a, g.role a.role.id = some a ∧
    ReflTransGen g.Inherits b a.role.id ∧ ⟨key, effect⟩ ∈ a.permissions ∧
    grant = .of (viaOf effect (a.role.id ≠ b)) a.role

/-- **The reference verdict**: a deny anywhere in the closure refuses, otherwise an
allow anywhere in it grants, otherwise the key is not granted. -/
structure Verdict (bound : List Uuid) (key : String) (d : Decision) : Prop where
  /-- Refused just when a role of the closure denies. -/
  deny : d.isExplicitDeny = true ↔ g.Spoken bound key .deny
  /-- Allowed just when none denies and one allows. -/
  allow : d.isAllowed = true ↔ ¬ g.Spoken bound key .deny ∧ g.Spoken bound key .allow
  missing : d = .denied .missingPermission none ↔
    ¬ g.Spoken bound key .deny ∧ ¬ g.Spoken bound key .allow
  /-- What is reported is a strongest entry of the effect that decided. -/
  strongest : ∀ grant ∈ d.source,
    g.Provenance bound key (if d.isAllowed then .allow else .deny) grant ∧
    ∀ other, g.Provenance bound key (if d.isAllowed then .allow else .deny) other →
      isStronger other grant = false

/-! ### The roles a walk meets -/

/-- The roles the loops of `effective` and `trace` meet, each with whether it was
reached by inheritance. -/
def lineage : ℕ → List Uuid → Option RoleAssignment → Bool → List (RoleAssignment × Bool)
  | 0, _, _, _ => []
  | _ + 1, _, none, _ => []
  | n + 1, visited, some a, inherited =>
    if a.role.id ∈ visited then []
    else (a, inherited) :: lineage n (a.role.id :: visited) ((parentOf a).bind g.role) true

theorem effectiveLoop_eq (n : ℕ) (visited : List Uuid) (c : Option RoleAssignment) (inherited : Bool)
    (p : EffectivePermissions) :
    g.effectiveLoop n visited c inherited p =
      (g.lineage n visited c inherited).foldl (fun p x => recordAll p x.1 x.2) p := by
  induction n generalizing visited c inherited p with
  | zero => rfl
  | succ n ih =>
    cases c with
    | none => rfl
    | some a =>
      simp only [effectiveLoop, lineage]
      split_ifs
      · rfl
      · rw [ih, List.foldl_cons]

theorem traceLoop_effect (key : String) (n : ℕ) (visited : List Uuid) (c : Option RoleAssignment)
    (inherited : Bool) (from_ : Option (Uuid × String)) :
    (g.traceLoop key n visited c inherited from_).map (·.effect) =
      (g.lineage n visited c inherited).findSome? fun x => x.1.entry key := by
  induction n generalizing visited c inherited from_ with
  | zero => rfl
  | succ n ih =>
    cases c with
    | none => rfl
    | some a =>
      by_cases hv : a.role.id ∈ visited
      · simp [traceLoop, lineage, hv]
      · cases he : a.entry key <;> simp [traceLoop, lineage, hv, he, ih]

/-- The role the walk goes to from role `id`. -/
def nextId (id : Uuid) : Option Uuid :=
  ((g.role id).bind fun a => (parentOf a).bind g.role).map (·.role.id)

theorem role_id {id : Uuid} {a : RoleAssignment} (h : g.role id = some a) : a.role.id = id := g.keyed h

theorem link_nextId : Walk.Link g.nextId = g.Inherits := by
  funext child parent
  apply propext
  simp only [Walk.Link, nextId, Inherits, parentOf, Option.map_eq_some_iff, Option.bind_eq_some_iff,
    Option.filter_eq_some_iff]
  constructor
  · rintro ⟨p, ⟨a, ha, q, ⟨hq, hi⟩, hp⟩, rfl⟩
    obtain rfl := g.role_id hp
    exact ⟨a, ha, hi, hq, by simp [hp]⟩
  · rintro ⟨a, ha, hi, hq, hp⟩
    obtain ⟨p, hp⟩ := Option.isSome_iff_exists.mp hp
    exact ⟨p, ⟨a, ha, parent, ⟨hq, hi⟩, hp⟩, g.role_id hp⟩

/-- The ids the walk meets are the chain of `nextId`. -/
theorem lineage_ids (n : ℕ) (visited : List Uuid) (c : Option RoleAssignment) (inherited : Bool)
    (hc : ∀ a ∈ c, g.role a.role.id = some a) :
    (g.lineage n visited c inherited).map (·.1.role.id) =
      Walk.chain g.nextId n visited (c.map (·.role.id)) := by
  induction n generalizing visited c inherited with
  | zero => rfl
  | succ n ih =>
    cases c with
    | none => rfl
    | some a =>
      have ha : g.role a.role.id = some a := hc a rfl
      have hnext : g.nextId a.role.id = ((parentOf a).bind g.role).map (·.role.id) := by
        rw [nextId, ha, Option.bind_some]
      simp only [lineage, Walk.chain, Option.map_some, hnext]
      split_ifs
      · rfl
      · rw [List.map_cons, ih]
        intro p hp
        obtain ⟨q, -, hq⟩ := Option.bind_eq_some_iff.mp hp
        rw [g.role_id hq]
        exact hq

theorem role_of_mem_lineage {n : ℕ} {visited : List Uuid} {c : Option RoleAssignment} {inherited : Bool}
    (hc : ∀ a ∈ c, g.role a.role.id = some a) {x : RoleAssignment × Bool}
    (hx : x ∈ g.lineage n visited c inherited) : g.role x.1.role.id = some x.1 := by
  induction n generalizing visited c inherited with
  | zero => simp [lineage] at hx
  | succ n ih =>
    cases c with
    | none => simp [lineage] at hx
    | some a =>
      simp only [lineage] at hx
      split_ifs at hx
      · simp at hx
      rcases List.mem_cons.mp hx with rfl | hx
      · exact hc a rfl
      · refine ih (fun p hp => ?_) hx
        obtain ⟨q, -, hq⟩ := Option.bind_eq_some_iff.mp hp
        rw [g.role_id hq]
        exact hq

/-- The ids of the graph, as a set the walks cannot leave. -/
def ids : Finset Uuid := g.roles.keys.toFinset

theorem mem_ids {id : Uuid} : id ∈ g.ids ↔ (g.role id).isSome := by
  simp [ids, role, TreeMap.mem_keys]

theorem card_ids_le : g.ids.card ≤ g.fuel :=
  (List.toFinset_card_le _).trans (by rw [TreeMap.length_keys, fuel]; omega)

theorem next_mem_ids : ∀ a ∈ g.ids, ∀ b, g.nextId a = some b → b ∈ g.ids := by
  intro a _ b hb
  have h : Walk.Link g.nextId a b := hb
  rw [link_nextId] at h
  obtain ⟨-, -, -, -, hp⟩ := h
  exact g.mem_ids.mpr hp

theorem inherited_of_mem_lineage {n : ℕ} {visited : List Uuid} {c : Option RoleAssignment}
    {x : RoleAssignment × Bool} (hx : x ∈ g.lineage n visited c true) : x.2 = true := by
  induction n generalizing visited c with
  | zero => simp [lineage] at hx
  | succ n ih =>
    cases c with
    | none => simp [lineage] at hx
    | some a =>
      simp only [lineage] at hx
      split_ifs at hx
      · simp at hx
      · rcases List.mem_cons.mp hx with rfl | hx
        · rfl
        · exact ih hx

/-- The walk of a bound role meets it first, and as not inherited; every other role
it meets is inherited. -/
theorem inherited_iff {n : ℕ} {bound : RoleAssignment} {x : RoleAssignment × Bool}
    (hx : x ∈ g.lineage n [] (some bound) false) :
    x.2 = decide (x.1.role.id ≠ bound.role.id) := by
  cases n with
  | zero => simp [lineage] at hx
  | succ n =>
    have hc : ∀ a ∈ (parentOf bound).bind g.role, g.role a.role.id = some a := by
      intro a ha
      obtain ⟨q, -, hq⟩ := Option.bind_eq_some_iff.mp ha
      rw [g.role_id hq]
      exact hq
    simp only [lineage, List.not_mem_nil, if_false] at hx
    rcases List.mem_cons.mp hx with rfl | hx
    · simp
    · rw [g.inherited_of_mem_lineage hx, eq_comm, decide_eq_true_eq]
      have hid := List.mem_map_of_mem (f := fun x => x.1.role.id) hx
      rw [g.lineage_ids _ _ _ _ hc] at hid
      have hns := (Walk.chain_nodup _ _ _).2 _ hid
      simpa using hns

/-- **What the walk of a bound role meets**: the roles its inheritance chain
reaches. -/
theorem mem_lineage {b : Uuid} {bound a : RoleAssignment} (hb : g.role b = some bound) :
    (∃ inherited, (a, inherited) ∈ g.lineage g.fuel [] (some bound) false) ↔
      g.role a.role.id = some a ∧ ReflTransGen g.Inherits b a.role.id := by
  obtain rfl := g.role_id hb
  have hc : ∀ x ∈ some bound, g.role x.role.id = some x := by
    intro x hx
    cases hx
    exact hb
  have hids := g.lineage_ids g.fuel [] (some bound) false hc
  have hchain {r : Uuid} := Walk.mem_chain_iff (b := r) g.next_mem_ids
    (g.mem_ids.mpr (by rw [hb]; rfl)) g.card_ids_le
  rw [link_nextId] at hchain
  constructor
  · rintro ⟨i, hi⟩
    refine ⟨g.role_of_mem_lineage hc hi, hchain.mp ?_⟩
    rw [show some bound.role.id = (some bound).map (·.role.id) from rfl, ← hids]
    exact List.mem_map_of_mem (f := fun x => x.1.role.id) hi
  · rintro ⟨ha, hr⟩
    have hmem := hchain.mpr hr
    rw [show some bound.role.id = (some bound).map (·.role.id) from rfl, ← hids] at hmem
    obtain ⟨⟨x, i⟩, hx, hxa⟩ := List.mem_map.mp hmem
    have hxr := g.role_of_mem_lineage hc hx
    simp only at hxa hxr
    rw [hxa, ha] at hxr
    cases hxr
    exact ⟨i, hx⟩

end RoleGraph

/-! ### What is recorded -/

/-- The order in which provenance is preferred: route, then priority, then key. -/
def Grant.rank (g : Grant) : ℕ ×ₗ ℤ ×ₗ String := toLex (g.via.rank, toLex (g.rolePriority, g.roleKey))

/-- `is_stronger` compares ranks. -/
theorem isStronger_iff (c e : Grant) : isStronger c e = true ↔ e.rank < c.rank := by
  simp only [isStronger, Grant.rank, Prod.Lex.toLex_lt_toLex]
  rcases Nat.lt_trichotomy c.via.rank e.via.rank with h | h | h
  · simp [compare_lt_iff_lt.mpr h, h.not_gt, h.ne']
  · simp [h]
  · simp [compare_gt_iff_gt.mpr h, h]

theorem Grant.rank_eq_iff {a b : Grant} :
    a.rank = b.rank ↔ a.via.rank = b.via.rank ∧ a.rolePriority = b.rolePriority ∧ a.roleKey = b.roleKey := by
  simp [Grant.rank, Prod.ext_iff]

theorem recordIn_getElem? (target : TreeMap String Grant) (k key : String) (grant : Grant) :
    (recordIn target k grant)[key]? =
      if k = key then Strongest.keep Grant.rank target[key]? grant else target[key]? := by
  unfold recordIn
  by_cases hk : k = key
  · subst hk
    cases ht : target[k]? with
    | none => simp [Strongest.keep]
    | some existing =>
      by_cases hs : isStronger grant existing = true
      · simp [hs, Strongest.keep, (isStronger_iff _ _).mp hs]
      · simp [hs, Strongest.keep, ht, (isStronger_iff _ _).not.mp hs]
  · cases target[k]? with
    | none => simp [TreeMap.getElem?_insert, hk]
    | some existing =>
      by_cases hs : isStronger grant existing = true <;> simp [hs, TreeMap.getElem?_insert, hk]

/-- An entry of a role met on a walk, and whether the role was inherited. -/
structure Speech where
  entry : RolePermission
  /-- The role was reached by inheritance. -/
  inherited : Bool
  /-- The role that carries the entry. -/
  role : Role

/-- The provenance recorded for an entry. -/
def Speech.grant (s : Speech) : Grant := .of (RoleGraph.viaOf s.entry.effect s.inherited) s.role

namespace EffectivePermissions

/-- The map an effect is recorded in. -/
def side (p : EffectivePermissions) : Effect → TreeMap String Grant
  | .allow => p.grants
  | .deny => p.denials

/-- Record one entry met on a walk. -/
def hear (p : EffectivePermissions) (s : Speech) : EffectivePermissions :=
  p.record s.entry.key s.entry.effect (RoleGraph.viaOf s.entry.effect s.inherited) s.role

theorem hear_side (p : EffectivePermissions) (s : Speech) (key : String) (e : Effect) :
    ((p.hear s).side e)[key]? =
      if s.entry = ⟨key, e⟩ then Strongest.keep Grant.rank (p.side e)[key]? s.grant
      else (p.side e)[key]? := by
  obtain ⟨⟨k, f⟩, i, r⟩ := s
  cases e <;> cases f <;>
    simp [hear, record, side, Speech.grant, recordIn_getElem?, RolePermission.mk.injEq]

/-- After a list of entries, each side holds for a key the strongest of the
entries of that key and effect. -/
theorem foldl_hear_side (l : List Speech) (p : EffectivePermissions) (key : String) (e : Effect) :
    ((l.foldl hear p).side e)[key]? =
      ((l.filter fun s => s.entry = ⟨key, e⟩).map Speech.grant).foldl (Strongest.keep Grant.rank)
        (p.side e)[key]? := by
  induction l generalizing p with
  | nil => rfl
  | cons s l ih =>
    rw [List.foldl_cons, ih, hear_side, List.filter_cons]
    by_cases hs : s.entry = ⟨key, e⟩ <;> simp [hs]

end EffectivePermissions

namespace RoleGraph

variable (g : RoleGraph)

/-- The entries the walk of bound role `b` meets, in order. -/
def speeches (b : Uuid) : List Speech :=
  match g.role b with
  | none => []
  | some bound =>
    (g.lineage g.fuel [] (some bound) false).flatMap fun x =>
      x.1.permissions.map fun entry => ⟨entry, x.2, x.1.role⟩

theorem foldl_recordAll (l : List (RoleAssignment × Bool)) (p : EffectivePermissions) :
    l.foldl (fun p x => recordAll p x.1 x.2) p =
      (l.flatMap fun x => x.1.permissions.map fun entry => (⟨entry, x.2, x.1.role⟩ : Speech)).foldl
        EffectivePermissions.hear p := by
  induction l generalizing p with
  | nil => rfl
  | cons x l ih =>
    rw [List.foldl_cons, ih, List.flatMap_cons, List.foldl_append, List.foldl_map]
    rfl

/-- `effective` records every entry the walks of the bound roles meet. -/
theorem effective_eq (bound : List Uuid) :
    g.effective bound = (bound.flatMap g.speeches).foldl EffectivePermissions.hear {} := by
  rw [List.foldl_flatMap, effective]
  congr 1
  funext p b
  unfold speeches
  cases g.role b with
  | none => rfl
  | some a => simp only [effectiveLoop_eq, foldl_recordAll]

/-- The provenances recorded for one key and effect. -/
def recorded (bound : List Uuid) (key : String) (e : Effect) : List Grant :=
  ((bound.flatMap g.speeches).filter fun s => s.entry = ⟨key, e⟩).map Speech.grant

theorem effective_side (bound : List Uuid) (key : String) (e : Effect) :
    ((g.effective bound).side e)[key]? = Strongest.pick Grant.rank (g.recorded bound key e) := by
  rw [effective_eq, EffectivePermissions.foldl_hear_side]
  cases e <;> simp [EffectivePermissions.side, Strongest.pick, recorded]

theorem mem_speeches {b : Uuid} {s : Speech} :
    s ∈ g.speeches b ↔ ∃ bound a, g.role b = some bound ∧
      (a, s.inherited) ∈ g.lineage g.fuel [] (some bound) false ∧ a.role = s.role ∧ s.entry ∈ a.permissions := by
  unfold speeches
  cases g.role b with
  | none => simp
  | some bound =>
    simp only [List.mem_flatMap, List.mem_map, Prod.exists]
    constructor
    · rintro ⟨a, i, ha, e, he, rfl⟩
      exact ⟨bound, a, rfl, ha, rfl, he⟩
    · rintro ⟨b', a, hb, ha, hr, he⟩
      cases hb
      exact ⟨a, s.inherited, ha, s.entry, he, by cases s; simp_all⟩

theorem mem_recorded {bound : List Uuid} {key : String} {e : Effect} {grant : Grant} :
    grant ∈ g.recorded bound key e ↔ g.Provenance bound key e grant := by
  simp only [recorded, List.mem_map, List.mem_filter, List.mem_flatMap, mem_speeches, decide_eq_true_eq]
  constructor
  · rintro ⟨s, ⟨⟨b, hb, boundRole, a, hbr, hi, hrole, he⟩, hs⟩, rfl⟩
    obtain ⟨ha, hr⟩ := (g.mem_lineage hbr).mp ⟨_, hi⟩
    obtain rfl := g.role_id hbr
    have hinh := g.inherited_iff hi
    refine ⟨_, hb, by rw [hbr]; rfl, a, ha, hr, hs ▸ he, ?_⟩
    simp only at hinh
    rw [Speech.grant, hs, hinh, hrole]
  · rintro ⟨b, hb, hbg, a, ha, hr, he, rfl⟩
    obtain ⟨boundRole, hbr⟩ := Option.isSome_iff_exists.mp hbg
    obtain ⟨i, hi⟩ := (g.mem_lineage hbr).mpr ⟨ha, hr⟩
    obtain rfl := g.role_id hbr
    have hinh := g.inherited_iff hi
    simp only at hinh
    refine ⟨⟨⟨key, e⟩, i, a.role⟩, ⟨⟨_, hb, boundRole, a, hbr, hi, rfl, he⟩, rfl⟩, ?_⟩
    rw [Speech.grant, hinh]

theorem exists_provenance {bound : List Uuid} {key : String} {e : Effect} :
    (∃ grant, g.Provenance bound key e grant) ↔ g.Spoken bound key e := by
  constructor
  · rintro ⟨_, b, hb, hbg, a, ha, hr, he, -⟩
    exact ⟨a.role.id, ⟨b, hb, hbg, hr⟩, a, ha, he⟩
  · rintro ⟨r, ⟨b, hb, hbg, hr⟩, a, ha, he⟩
    obtain rfl := g.role_id ha
    exact ⟨_, b, hb, hbg, a, ha, hr, he, rfl⟩

theorem side_eq_none {bound : List Uuid} {key : String} {e : Effect} :
    ((g.effective bound).side e)[key]? = none ↔ ¬ g.Spoken bound key e := by
  rw [effective_side, Strongest.pick_eq_none, List.eq_nil_iff_forall_not_mem, ← exists_provenance,
    not_exists]
  simp only [mem_recorded]

theorem side_eq_some {bound : List Uuid} {key : String} {e : Effect} {grant : Grant}
    (h : ((g.effective bound).side e)[key]? = some grant) :
    g.Spoken bound key e ∧ g.Provenance bound key e grant ∧
      ∀ other, g.Provenance bound key e other → isStronger other grant = false := by
  rw [effective_side] at h
  obtain ⟨hmem, hmax⟩ := Strongest.of_pick_eq_some _ h
  rw [mem_recorded] at hmem
  refine ⟨g.exists_provenance.mp ⟨_, hmem⟩, hmem, fun other ho => ?_⟩
  rw [Bool.eq_false_iff, Ne, isStronger_iff]
  exact (hmax _ (g.mem_recorded.mpr ho)).not_gt

/-! ### The decision -/

/-- What `decision` answers, by what the two sides hold. -/
theorem decision_eq (p : EffectivePermissions) (key : String) :
    p.decision key =
      match (p.side .deny)[key]?, (p.side .allow)[key]? with
      | some grant, _ => .denied .explicitDeny (some grant)
      | none, some grant => .allowed grant
      | none, none => .denied .missingPermission none := by
  unfold EffectivePermissions.decision
  simp only [EffectivePermissions.side]
  cases p.denials[key]? with
  | some _ => rfl
  | none => cases p.grants[key]? <;> rfl

theorem decision_isVerdict (bound : List Uuid) (key : String) :
    g.Verdict bound key ((g.effective bound).decision key) := by
  rw [decision_eq]
  cases hd : ((g.effective bound).side .deny)[key]? with
  | some grant =>
    obtain ⟨hs, hp, hmax⟩ := g.side_eq_some hd
    constructor <;> simp [Decision.isExplicitDeny, Decision.isAllowed, Decision.source, hs]
    exact ⟨hp, hmax⟩
  | none =>
    have hs := g.side_eq_none.mp hd
    cases ha : ((g.effective bound).side .allow)[key]? with
    | some grant =>
      obtain ⟨ha, hp, hmax⟩ := g.side_eq_some ha
      constructor <;> simp [Decision.isExplicitDeny, Decision.isAllowed, Decision.source, hs, ha]
      exact ⟨hp, hmax⟩
    | none =>
      have ha := g.side_eq_none.mp ha
      constructor <;> simp [Decision.isExplicitDeny, Decision.isAllowed, Decision.source, hs, ha]

/-- Two decisions that differ at most in which of several equally strong roles they
name. -/
structure Alike (d d' : Decision) : Prop where
  allowed : d.isAllowed = d'.isAllowed
  refused : d.isExplicitDeny = d'.isExplicitDeny
  /-- Entries of the same route, priority and key reported. -/
  source : d.source.map (fun x => (x.via, x.rolePriority, x.roleKey)) =
    d'.source.map fun x => (x.via, x.rolePriority, x.roleKey)

/-- No two roles of the graph share both priority and key. -/
def Distinguished : Prop :=
  ∀ a b : RoleAssignment, g.role a.role.id = some a → g.role b.role.id = some b →
    a.role.priority = b.role.priority → a.role.key = b.role.key → a = b

variable {bound bound' : List Uuid} {key : String} {e : Effect}

/-- A provenance depends on which roles are bound, not on their order or
repetition. -/
theorem Provenance.congr (h : ∀ id, id ∈ bound' ↔ id ∈ bound) {grant : Grant} :
    g.Provenance bound' key e grant ↔ g.Provenance bound key e grant := by
  simp only [Provenance, h]

theorem viaOf_rank_inj {e : Effect} {i j : Bool} (h : (viaOf e i).rank = (viaOf e j).rank) : i = j := by
  cases e <;> cases i <;> cases j <;> simp_all [viaOf, Via.rank]

/-- Equally strong provenances agree on the route, the priority and the key, and on
everything when the graph tells its roles apart. -/
theorem Provenance.eq_of_rank {x y : Grant} (hx : g.Provenance bound key e x)
    (hy : g.Provenance bound key e y) (h : x.rank = y.rank) :
    (x.via, x.rolePriority, x.roleKey) = (y.via, y.rolePriority, y.roleKey) ∧
      (g.Distinguished → x = y) := by
  obtain ⟨b, -, -, a, ha, -, -, rfl⟩ := hx
  obtain ⟨b', -, -, a', ha', -, -, rfl⟩ := hy
  obtain ⟨hv, hp, hk⟩ := Grant.rank_eq_iff.mp h
  have hi := viaOf_rank_inj hv
  simp only [Grant.of] at hp hk ⊢
  refine ⟨by rw [hi, hp, hk], fun hg => ?_⟩
  obtain rfl := hg a a' ha ha' hp hk
  rw [hi]

/-- Whichever order and repetition, the entries kept are equally strong. -/
theorem side_congr (key : String) (e : Effect) (h : ∀ id, id ∈ bound' ↔ id ∈ bound) :
    (((g.effective bound').side e)[key]? = none ∧ ((g.effective bound).side e)[key]? = none) ∨
      ∃ x y, ((g.effective bound').side e)[key]? = some x ∧ ((g.effective bound).side e)[key]? = some y ∧
        (x.via, x.rolePriority, x.roleKey) = (y.via, y.rolePriority, y.roleKey) ∧
        (g.Distinguished → x = y) := by
  have hmem : ∀ x, x ∈ g.recorded bound' key e ↔ x ∈ g.recorded bound key e := fun x => by
    rw [mem_recorded, mem_recorded, Provenance.congr g h]
  have hrank := Strongest.rank_pick_eq Grant.rank hmem
  rw [← effective_side, ← effective_side] at hrank
  cases hx : ((g.effective bound').side e)[key]? with
  | none =>
    cases hy : ((g.effective bound).side e)[key]? with
    | none => exact .inl ⟨rfl, rfl⟩
    | some y => simp [hx, hy] at hrank
  | some x =>
    cases hy : ((g.effective bound).side e)[key]? with
    | none => simp [hx, hy] at hrank
    | some y =>
      have hxp := (Provenance.congr g h).mp (g.side_eq_some hx).2.1
      have hyp := (g.side_eq_some hy).2.1
      rw [hx, hy] at hrank
      exact .inr ⟨x, y, rfl, rfl, hxp.eq_of_rank g hyp (Option.some.inj hrank)⟩

theorem decision_congr (h : ∀ id, id ∈ bound' ↔ id ∈ bound) :
    Alike ((g.effective bound').decision key) ((g.effective bound).decision key) ∧
      (g.Distinguished → (g.effective bound').decision key = (g.effective bound).decision key) := by
  rw [decision_eq, decision_eq]
  rcases g.side_congr key .deny h with ⟨hx, hy⟩ | ⟨x, y, hx, hy, hxy, hg⟩
  · rw [hx, hy]
    rcases g.side_congr key .allow h with ⟨hx, hy⟩ | ⟨x, y, hx, hy, hxy, hg⟩
    · rw [hx, hy]
      exact ⟨⟨rfl, rfl, rfl⟩, fun _ => rfl⟩
    · rw [hx, hy]
      exact ⟨⟨rfl, rfl, congrArg some hxy⟩, fun h => by rw [hg h]⟩
  · rw [hx, hy]
    exact ⟨⟨rfl, rfl, congrArg some hxy⟩, fun h => by rw [hg h]⟩

/-- **The decision is the reference verdict**, reports a strongest entry, and does
not depend on the order or the repetition of the bound roles but for the choice
among roles of one priority and one key. -/
theorem decision_verdict (bound bound' : List Uuid) (key : String)
    (h : ∀ id, id ∈ bound' ↔ id ∈ bound) :
    g.Verdict bound key ((g.effective bound).decision key) ∧
      Alike ((g.effective bound').decision key) ((g.effective bound).decision key) ∧
      (g.Distinguished → (g.effective bound').decision key = (g.effective bound).decision key) :=
  ⟨g.decision_isVerdict bound key, g.decision_congr h⟩

/-- A platform role and an organization's role of the same key and priority. -/
def twins : RoleGraph :=
  .new [⟨⟨1, none, "editor", "Editor", "", 500, none, true, true⟩, [⟨"content.pages.publish", .allow⟩]⟩,
    ⟨⟨2, some 7, "editor", "House editor", "", 500, none, true, false⟩, [⟨"content.pages.publish", .allow⟩]⟩]

/-- The same roles bound in the other order: the same verdict, another role
reported. -/
theorem decision_order :
    ¬ ∀ (g : RoleGraph) (bound bound' : List Uuid) (key : String), bound'.Perm bound →
      (g.effective bound').decision key = (g.effective bound).decision key := by
  intro h
  exact absurd (h twins [1, 2] [2, 1] "content.pages.publish" (List.Perm.swap _ _ _)) (by decide)

theorem decision_verdict_twins :
    twins.Verdict [1, 2] "content.pages.publish" ((twins.effective [1, 2]).decision "content.pages.publish") ∧
      Alike ((twins.effective [2, 1, 2]).decision "content.pages.publish")
        ((twins.effective [1, 2]).decision "content.pages.publish") :=
  let h := decision_verdict twins [1, 2] [2, 1, 2] "content.pages.publish" (by simp)
  ⟨h.1, h.2.1⟩

/-! ### The trace -/

/-- Role `r` has no entry for the key. -/
def Silent (key : String) (r : Uuid) : Prop := ∃ a, g.role r = some a ∧ a.entry key = none

/-- The nearest role that speaks about the key, from `b` on up, says `e`. -/
def Nearest (key : String) (b : Uuid) (e : Effect) : Prop :=
  ∃ r a, ReflTransGen (fun x y => g.Silent key x ∧ g.Inherits x y) b r ∧
    g.role r = some a ∧ a.entry key = some e

theorem inherits_unique : Relator.RightUnique fun x y => g.Silent key x ∧ g.Inherits x y := by
  rintro x y z ⟨-, a, ha, -, hy, -⟩ ⟨-, a', ha', -, hz, -⟩
  rw [ha] at ha'
  cases ha'
  exact Option.some.inj (hy.symm.trans hz)

theorem not_silent {r : Uuid} {a : RoleAssignment} (ha : g.role r = some a)
    (he : a.entry key = some e) :
    ¬ g.Silent key r := by
  rintro ⟨a', ha', hn⟩
  rw [ha] at ha'
  cases ha'
  rw [he] at hn
  exact absurd hn (by simp)

theorem Nearest.unique {b : Uuid} {e' : Effect} (h : g.Nearest key b e) (h' : g.Nearest key b e') :
    e = e' := by
  obtain ⟨r, a, hr, ha, he⟩ := h
  obtain ⟨r', a', hr', ha', he'⟩ := h'
  have hrr : r = r' := by
    rcases ReflTransGen.total_of_right_unique g.inherits_unique hr hr' with h | h
    · rcases h.cases_head with rfl | ⟨_, ⟨hs, -⟩, -⟩
      · rfl
      · exact absurd hs (g.not_silent ha he)
    · rcases h.cases_head with rfl | ⟨_, ⟨hs, -⟩, -⟩
      · rfl
      · exact absurd hs (g.not_silent ha' he')
  subst hrr
  rw [ha] at ha'
  cases ha'
  exact Option.some.inj (he.symm.trans he')

/-- The first entry a walk finds is the one of the nearest role that speaks. -/
theorem nearest_of_findSome {n : ℕ} {visited : List Uuid} {a : RoleAssignment} {inherited : Bool}
    (ha : g.role a.role.id = some a)
    (h : (g.lineage n visited (some a) inherited).findSome? (fun x => x.1.entry key) = some e) :
    g.Nearest key a.role.id e := by
  induction n generalizing visited a inherited with
  | zero => simp [lineage] at h
  | succ n ih =>
    simp only [lineage] at h
    split_ifs at h
    · simp at h
    cases he : a.entry key with
    | some e' =>
      rw [List.findSome?_cons, he] at h
      exact ⟨_, a, .refl, ha, he.trans h⟩
    | none =>
      rw [List.findSome?_cons, he] at h
      cases hp : (parentOf a).bind g.role with
      | none => rw [hp] at h; cases n <;> simp [lineage] at h
      | some p =>
        rw [hp] at h
        obtain ⟨q, hq, hqp⟩ := Option.bind_eq_some_iff.mp hp
        obtain rfl := g.role_id hqp
        obtain ⟨r, c, hr, hc⟩ := ih hqp h
        obtain ⟨hq, hi⟩ := Option.filter_eq_some_iff.mp hq
        exact ⟨r, c, .head ⟨⟨a, ha, he⟩, a, ha, hi, hq, by rw [hqp]; rfl⟩ hr, hc⟩

/-- **What a trace ends in**: the entry of the nearest role that speaks. -/
theorem trace_effect_iff {b : Uuid} : (g.trace b key).map (·.effect) = some e ↔ g.Nearest key b e := by
  unfold trace
  cases hb : g.role b with
  | none =>
    refine ⟨by simp, ?_⟩
    rintro ⟨r, a, hr, ha, -⟩
    rcases hr.cases_head with rfl | ⟨_, ⟨⟨a', ha', -⟩, -⟩, -⟩
    · simp [hb] at ha
    · simp [hb] at ha'
  | some bound =>
    obtain rfl := g.role_id hb
    rw [Option.bind_some, traceLoop_effect]
    refine ⟨g.nearest_of_findSome hb, fun h => ?_⟩
    obtain ⟨r, a, hr, ha, he⟩ := id h
    obtain rfl := g.role_id ha
    have hreach : ReflTransGen g.Inherits bound.role.id a.role.id := hr.lift id fun _ _ h => h.2
    obtain ⟨i, hi⟩ := (g.mem_lineage hb).mpr ⟨ha, hreach⟩
    cases hf : (g.lineage g.fuel [] (some bound) false).findSome? (fun x => x.1.entry key) with
    | none =>
      have := List.findSome?_eq_none_iff.mp hf _ hi
      simp only [he, reduceCtorEq] at this
    | some e' => rw [(g.nearest_of_findSome hb hf).unique g h]

theorem Nearest.spoken {b : Uuid} (hb : b ∈ bound) (h : g.Nearest key b e) : g.Spoken bound key e := by
  obtain ⟨r, a, hr, ha, he⟩ := h
  have hsome : (g.role b).isSome := by
    rcases hr.cases_head with rfl | ⟨_, ⟨⟨a', ha', -⟩, -⟩, -⟩
    · rw [ha]; rfl
    · rw [ha']; rfl
  exact ⟨r, ⟨b, hb, hsome, hr.lift id fun _ _ h => h.2⟩, a, ha, a.mem_of_entry he⟩

theorem exists_nearest (h : g.Spoken bound key e) : ∃ b ∈ bound, ∃ e', g.Nearest key b e' := by
  obtain ⟨r, ⟨b, hb, hbg, hr⟩, a, ha, he⟩ := h
  obtain ⟨boundRole, hbr⟩ := Option.isSome_iff_exists.mp hbg
  obtain rfl := g.role_id ha
  obtain rfl := g.role_id hbr
  obtain ⟨i, hi⟩ := (g.mem_lineage hbr).mpr ⟨ha, hr⟩
  refine ⟨_, hb, ?_⟩
  cases hf : (g.lineage g.fuel [] (some boundRole) false).findSome? (fun x => x.1.entry key) with
  | none =>
    have hn := List.findSome?_eq_none_iff.mp hf _ hi
    exact absurd he (a.entry_eq_none.mp hn e)
  | some e' => exact ⟨e', g.nearest_of_findSome hbr hf⟩

/-- The traces of the bound roles agree with the decision: it refuses just when one
of them ends in a deny, and allows just when one ends in an allow and none in a
deny. -/
structure TracesAgree (bound : List Uuid) (key : String) : Prop where
  deny : ((g.effective bound).decision key).isExplicitDeny = true ↔
    ∃ b ∈ bound, (g.trace b key).map (·.effect) = some .deny
  allow : ((g.effective bound).decision key).isAllowed = true ↔
    (∃ b ∈ bound, (g.trace b key).map (·.effect) = some .allow) ∧
      ¬ ∃ b ∈ bound, (g.trace b key).map (·.effect) = some .deny

/-- **When the traces agree with the decision**: just when a deny in the closure is
never hidden behind a nearer entry for every bound role. -/
theorem trace_agrees_iff (bound : List Uuid) (key : String) :
    g.TracesAgree bound key ↔
      (g.Spoken bound key .deny → ∃ b ∈ bound, g.Nearest key b .deny) := by
  obtain ⟨hdeny, hallow, -, -⟩ := g.decision_isVerdict bound key
  constructor
  · intro h hs
    obtain ⟨b, hb, hn⟩ := h.deny.mp (hdeny.mpr hs)
    exact ⟨b, hb, g.trace_effect_iff.mp hn⟩
  · intro h
    have hback : (∃ b ∈ bound, g.Nearest key b .deny) → g.Spoken bound key .deny := by
      rintro ⟨b, hb, hn⟩
      exact hn.spoken g hb
    refine ⟨?_, ?_⟩
    · simp only [trace_effect_iff]
      exact hdeny.trans ⟨h, hback⟩
    · simp only [trace_effect_iff]
      rw [hallow]
      constructor
      · rintro ⟨hnd, hs⟩
        refine ⟨?_, fun hd => hnd (hback hd)⟩
        obtain ⟨b, hb, e', hn⟩ := g.exists_nearest hs
        cases e' with
        | allow => exact ⟨b, hb, hn⟩
        | deny => exact absurd (hback ⟨b, hb, hn⟩) hnd
      · rintro ⟨⟨b, hb, hn⟩, hnd⟩
        exact ⟨fun hs => hnd (h hs), hn.spoken g hb⟩

/-- A role that allows a key its parent denies. -/
def overruled : RoleGraph :=
  .new [⟨⟨1, some 7, "base", "Base", "", 100, none, true, false⟩, [⟨"content.pages.publish", .deny⟩]⟩,
    ⟨⟨2, some 7, "editor", "Editor", "", 500, some 1, true, false⟩, [⟨"content.pages.publish", .allow⟩]⟩]

/-- The trace of the child ends in an allow, the decision is a deny. -/
theorem trace_disagrees :
    ¬ ∀ (g : RoleGraph) (bound : List Uuid) (key : String), g.TracesAgree bound key := by
  intro h
  have hdeny := (h overruled [2] "content.pages.publish").deny
  exact absurd (hdeny.mp (by decide)) (by decide)

end RoleGraph

end Omnion.Permissions
