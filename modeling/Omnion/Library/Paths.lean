import Omnion.Library.Forest

/-!
# Materialised paths

A node names its parent, has a name, and keeps its path: the path of its parent, a separator and its name.
Nodes are `Consistent` when every path is what the links say. Then the links are acyclic, and siblings with
distinct names have distinct paths. A node is moved by giving it a new parent and writing the new path in front
of everything below it: that keeps the nodes consistent when nothing else is written (`Consistent.move`).
-/

namespace Paths

variable {κ α : Type*} {sep : α} {p q name name' path old new rest : List α}

/-! ### Paths -/

/-- The path of a child. -/
def join (sep : α) (q name : List α) : List α := q ++ sep :: name

/-- The path leads below another one. -/
def Below (sep : α) (old path : List α) : Prop := ∃ rest, path = join sep old rest

/-- The path is written behind a new prefix. -/
def rebase (old new path : List α) : List α := new ++ path.drop old.length

theorem rebase_join : rebase old new (join sep old rest) = join sep new rest := by simp [rebase, join]

theorem length_join : (join sep q name).length = q.length + name.length + 1 := by
  simp [join]
  omega

theorem Below.length_lt (h : Below sep old path) : old.length < path.length := by
  obtain ⟨rest, rfl⟩ := h
  rw [length_join]
  omega

theorem below_join : Below sep q (join sep q name) := ⟨name, rfl⟩

theorem Below.trans (h : Below sep p q) (h' : Below sep q path) : Below sep p path := by
  obtain ⟨rest, rfl⟩ := h
  obtain ⟨rest', rfl⟩ := h'
  exact ⟨join sep rest rest', by simp [join]⟩

theorem not_below_of_not_mem (h : sep ∉ path) : ¬ Below sep old path := by
  rintro ⟨rest, rfl⟩
  exact h (by simp [join])

/-- **What leads below a path is a child of it, or its parent leads below it too.** -/
theorem below_join_iff (hname : sep ∉ name) : Below sep old (join sep q name) ↔ q = old ∨ Below sep old q := by
  constructor
  · rintro ⟨rest, heq⟩
    rcases List.append_eq_append_iff.mp heq with ⟨t, rfl, ht⟩ | ⟨t, rfl, ht⟩
    · -- the separator of `old` would be in the name
      cases t with
      | nil => exact .inl (by simp)
      | cons c t =>
        obtain ⟨-, rfl⟩ := List.cons.inj ht
        exact absurd (by simp) hname
    · cases t with
      | nil => exact .inl (by simp)
      | cons c t =>
        obtain ⟨rfl, -⟩ := List.cons.inj ht
        exact .inr ⟨t, rfl⟩
  · rintro (rfl | h)
    · exact below_join
    · exact h.trans below_join

theorem join_inj (hname : sep ∉ name) (hname' : sep ∉ name') (h : join sep p name = join sep q name') :
    p = q ∧ name = name' := by
  have hpq : p = q := by
    rcases (below_join_iff hname).mp (h ▸ below_join : Below sep q (join sep p name)) with heq | hbelow
    · exact heq
    · rcases (below_join_iff hname').mp (h ▸ below_join : Below sep p (join sep q name')) with heq | hbelow'
      · exact heq.symm
      · exact absurd hbelow.length_lt (not_lt.mpr (le_of_lt hbelow'.length_lt))
  subst hpq
  exact ⟨rfl, (List.cons.inj (List.append_cancel_left h)).2⟩

theorem Below.compare (h : Below sep p path) (h' : path = q ∨ Below sep q path) :
    p = q ∨ Below sep p q ∨ Below sep q p := by
  rcases h' with rfl | ⟨rest', hrest'⟩
  · exact .inr (.inl h)
  · obtain ⟨rest, rfl⟩ := h
    rcases List.append_eq_append_iff.mp hrest' with ⟨t, rfl, ht⟩ | ⟨t, rfl, ht⟩
    · cases t with
      | nil => exact .inl (by simp)
      | cons c t =>
        obtain ⟨rfl, -⟩ := List.cons.inj ht
        exact .inr (.inl ⟨t, rfl⟩)
    · cases t with
      | nil => exact .inl (by simp)
      | cons c t =>
        obtain ⟨rfl, -⟩ := List.cons.inj ht
        exact .inr (.inr ⟨t, rfl⟩)

/-! ### Nodes -/

structure Node (κ α : Type*) where
  parent : Option κ
  name : List α
  path : List α

/-- The link of a node. -/
def parentOf (nodes : κ → Option (Node κ α)) (k : κ) : Option κ := (nodes k).bind (·.parent)

/-- The path is what the links say. -/
def Fits (sep : α) (nodes : κ → Option (Node κ α)) (a : Node κ α) : Prop :=
  match a.parent with
  | none => a.path = a.name
  | some p => ∃ b, nodes p = some b ∧ a.path = join sep b.path a.name

/-- **Every path is what the links say**, and names have no separator. -/
structure Consistent (sep : α) (nodes : κ → Option (Node κ α)) : Prop where
  fits : ∀ k a, nodes k = some a → Fits sep nodes a
  names : ∀ k a, nodes k = some a → sep ∉ a.name

/-- Siblings have distinct names. -/
def Siblings (nodes : κ → Option (Node κ α)) : Prop :=
  ∀ k l a b, nodes k = some a → nodes l = some b → a.parent = b.parent → (a.parent = none ∨ a.name = b.name) → k = l

variable {nodes nodes' : κ → Option (Node κ α)} {k l m g : κ} {a b c : Node κ α}

theorem Consistent.of_parent (h : Consistent sep nodes) (hk : nodes k = some a) {p : κ} (hp : a.parent = some p) :
    ∃ b, nodes p = some b ∧ a.path = join sep b.path a.name := by
  have hfits := h.fits k a hk
  rwa [Fits, hp] at hfits

theorem Consistent.of_root (h : Consistent sep nodes) (hk : nodes k = some a) (hp : a.parent = none) :
    a.path = a.name := by
  have hfits := h.fits k a hk
  rwa [Fits, hp] at hfits

theorem Consistent.length_lt_of_above (h : Consistent sep nodes) (habove : Forest.Above (parentOf nodes) k l) :
    ∀ a b, nodes k = some a → nodes l = some b → b.path.length < a.path.length := by
  have hlink : ∀ x y, parentOf nodes x = some y → ∃ a b, nodes x = some a ∧ nodes y = some b ∧
    b.path.length < a.path.length := by
    intro x y hxy
    obtain ⟨a, ha, hp⟩ := Option.bind_eq_some_iff.mp hxy
    obtain ⟨b, hb, hpath⟩ := h.of_parent ha hp
    exact ⟨a, b, ha, hb, by rw [hpath, length_join]; omega⟩
  induction habove with
  | single hxy =>
    intro a b ha hb
    obtain ⟨a', b', ha', hb', hlt⟩ := hlink _ _ hxy
    obtain rfl := Option.some.inj (ha'.symm.trans ha)
    obtain rfl := Option.some.inj (hb'.symm.trans hb)
    exact hlt
  | tail _ hxy ih =>
    intro a b ha hb
    obtain ⟨c, b', hc, hb', hlt⟩ := hlink _ _ hxy
    obtain rfl := Option.some.inj (hb'.symm.trans hb)
    exact hlt.trans (ih a c ha hc)

/-- **The links are acyclic.** -/
theorem Consistent.acyclic (h : Consistent sep nodes) (k : κ) : ¬ Forest.Above (parentOf nodes) k k := by
  intro habove
  obtain ⟨l, hkl, -⟩ := Relation.TransGen.head'_iff.mp habove
  obtain ⟨a, ha, -⟩ := Option.bind_eq_some_iff.mp hkl
  exact lt_irrefl _ (h.length_lt_of_above habove a a ha ha)

theorem Consistent.path_inj (h : Consistent sep nodes) (hsiblings : Siblings nodes) :
    ∀ k l a b, nodes k = some a → nodes l = some b → a.path = b.path → k = l := by
  suffices hall : ∀ n k l a b, a.path.length = n → nodes k = some a → nodes l = some b → a.path = b.path → k = l from
    fun k l a b => hall _ k l a b rfl
  intro n
  induction n using Nat.strongRecOn with
  | ind n ih =>
    intro k l a b hn hk hl hpath
    cases hp : a.parent with
    | none =>
      have ha := h.of_root hk hp
      cases hq : b.parent with
      | none => exact hsiblings k l a b hk hl (hp.trans hq.symm) (.inl hp)
      | some q =>
        obtain ⟨d, -, hb⟩ := h.of_parent hl hq
        exact absurd (⟨_, (ha.symm.trans hpath).trans hb⟩ : Below sep d.path a.name)
          (not_below_of_not_mem (h.names k a hk))
    | some p =>
      obtain ⟨c, hc, ha⟩ := h.of_parent hk hp
      cases hq : b.parent with
      | none =>
        have hb := h.of_root hl hq
        exact absurd (⟨_, (hb.symm.trans hpath.symm).trans ha⟩ : Below sep c.path b.name)
          (not_below_of_not_mem (h.names l b hl))
      | some q =>
        obtain ⟨d, hd, hb⟩ := h.of_parent hl hq
        obtain ⟨hparents, hnames⟩ := join_inj (h.names k a hk) (h.names l b hl) (ha.symm.trans (hpath.trans hb))
        have hlt : c.path.length < n := by
          rw [← hn, ha, length_join]
          omega
        obtain rfl := ih _ hlt p q c d rfl hc hd hparents
        exact hsiblings k l a b hk hl (hp.trans hq.symm) (.inr hnames)

/-- What holds of the roots and goes from a parent to its children holds of every node. -/
theorem Consistent.induction_key (h : Consistent sep nodes) {motive : κ → Node κ α → Prop}
    (root : ∀ k a, nodes k = some a → a.parent = none → a.path = a.name → motive k a)
    (child : ∀ k a p b, nodes k = some a → nodes p = some b → a.parent = some p → a.path = join sep b.path a.name →
      motive p b → motive k a) :
    ∀ k a, nodes k = some a → motive k a := by
  suffices hall : ∀ n k a, a.path.length = n → nodes k = some a → motive k a from fun k a => hall _ k a rfl
  intro n
  induction n using Nat.strongRecOn with
  | ind n ih =>
    intro k a hn hk
    cases hp : a.parent with
    | none => exact root k a hk hp (h.of_root hk hp)
    | some p =>
      obtain ⟨b, hb, hpath⟩ := h.of_parent hk hp
      refine child k a p b hk hb hp hpath (ih b.path.length ?_ p b rfl hb)
      rw [← hn, hpath, length_join]
      omega

theorem Consistent.induction (h : Consistent sep nodes) {motive : Node κ α → Prop}
    (root : ∀ k a, nodes k = some a → a.parent = none → a.path = a.name → motive a)
    (child : ∀ k a p b, nodes k = some a → nodes p = some b → a.parent = some p → a.path = join sep b.path a.name →
      motive b → motive a) :
    ∀ k a, nodes k = some a → motive a :=
  h.induction_key root child

theorem Consistent.exists_of_below (h : Consistent sep nodes) :
    ∀ k a, nodes k = some a → Below sep q a.path → ∃ l b, nodes l = some b ∧ b.path = q := by
  refine h.induction (fun k a hk _ hpath hbelow => ?_) fun k a p b hk hb _ hpath ih hbelow => ?_
  · rw [hpath] at hbelow
    exact absurd hbelow (not_below_of_not_mem (h.names k a hk))
  · rw [hpath] at hbelow
    rcases (below_join_iff (h.names k a hk)).mp hbelow with heq | hbelow
    · exact ⟨p, b, hb, heq⟩
    · exact ih hbelow

theorem Consistent.exists_root (h : Consistent sep nodes) :
    ∀ k a, nodes k = some a → ∃ r b, nodes r = some b ∧ b.parent = none ∧
      (a.path = b.path ∨ Below sep b.path a.path) := by
  refine h.induction (fun k a hk hroot _ => ⟨k, a, hk, hroot, .inl rfl⟩) fun k a p b hk hb _ hpath ih => ?_
  obtain ⟨r, c, hc, hroot, hbelow⟩ := ih
  refine ⟨r, c, hc, hroot, .inr ?_⟩
  rw [hpath]
  rcases hbelow with heq | hbelow
  · rw [heq]
    exact below_join
  · exact hbelow.trans below_join

/-- A node is added below one there is. -/
theorem Consistent.insert (h : Consistent sep nodes) (hnew : nodes k = none) (hname : sep ∉ a.name)
    (hkeep : ∀ l, l ≠ k → nodes' l = nodes l) (hself : nodes' k = some a) (hparent : a.parent = some g)
      (hg : nodes g = some b)
    (hpath : a.path = join sep b.path a.name) : Consistent sep nodes' := by
  have hold : ∀ l c, nodes l = some c → nodes' l = some c := by
    intro l c hl
    rw [hkeep l]
    · exact hl
    · rintro rfl
      rw [hnew] at hl
      cases hl
  have hcases : ∀ l c, nodes' l = some c → c = a ∧ l = k ∨ nodes l = some c := by
    intro l c hl
    by_cases hlk : l = k
    · subst hlk
      exact .inl ⟨Option.some.inj (hl.symm.trans hself), rfl⟩
    · exact .inr (hkeep l hlk ▸ hl)
  refine ⟨fun l c hl => ?_, fun l c hl => ?_⟩
  · rcases hcases l c hl with ⟨rfl, -⟩ | hl
    · rw [Fits, hparent]
      exact ⟨b, hold g b hg, hpath⟩
    · have hfits := h.fits l c hl
      unfold Fits at hfits ⊢
      split at hfits
      · exact hfits
      · obtain ⟨d, hd, hpath⟩ := hfits
        exact ⟨d, hold _ d hd, hpath⟩
  · rcases hcases l c hl with ⟨rfl, -⟩ | hl
    · exact hname
    · exact h.names l c hl

theorem Consistent.erase (h : Consistent sep nodes) (hleaf : ∀ l a, nodes l = some a → a.parent ≠ some k)
    (hkeep : ∀ l, l ≠ k → nodes' l = nodes l) (hgone : nodes' k = none) : Consistent sep nodes' := by
  have hold : ∀ l c, nodes' l = some c → nodes l = some c := by
    intro l c hl
    by_cases hlk : l = k
    · rw [hlk, hgone] at hl
      cases hl
    · exact hkeep l hlk ▸ hl
  refine ⟨fun l c hl => ?_, fun l c hl => h.names l c (hold l c hl)⟩
  have hfits := h.fits l c (hold l c hl)
  have hne := hleaf l c (hold l c hl)
  unfold Fits at hfits ⊢
  split at hfits
  · exact hfits
  · rename_i p hp
    obtain ⟨d, hd, hpath⟩ := hfits
    exact ⟨d, (hkeep p fun heq => hne (by rw [hp, heq])).trans hd, hpath⟩

/-- Node `m` is moved below `g`, with everything below it. -/
structure Moved (sep : α) (nodes nodes' : κ → Option (Node κ α)) (m g : κ) (old new : List α) : Prop where
  /-- The node was at the old path, -/
  before : ∃ a, nodes m = some a ∧ a.path = old
  /-- and is at the new one, below `g`. -/
  after : ∃ a b, nodes' m = some a ∧ nodes g = some b ∧ a.parent = some g ∧ sep ∉ a.name ∧ a.path = new ∧
    new = join sep b.path a.name
  /-- What was below it is written behind the new path, -/
  below : ∀ k a, k ≠ m → nodes k = some a → Below sep old a.path →
    nodes' k = some { a with path := rebase old new a.path }
  /-- and nothing else is. -/
  others : ∀ k, k ≠ m → (∀ a, nodes k = some a → ¬ Below sep old a.path) → nodes' k = nodes k
  /-- The new path does not lead below the old one. -/
  acyclic : ¬ Below sep old new

theorem Moved.cases (h : Moved sep nodes nodes' m g old new) (hk : nodes' k = some a) (hne : k ≠ m) :
    (nodes k = some a ∧ ¬ Below sep old a.path) ∨
      ∃ c, nodes k = some c ∧ Below sep old c.path ∧ a = { c with path := rebase old new c.path } := by
  by_cases hbelow : ∃ c, nodes k = some c ∧ Below sep old c.path
  · obtain ⟨c, hc, hbelow⟩ := hbelow
    exact .inr ⟨c, hc, hbelow, Option.some.inj (hk.symm.trans (h.below k c hne hc hbelow))⟩
  · have hnot : ∀ c, nodes k = some c → ¬ Below sep old c.path := fun c hc hb => hbelow ⟨c, hc, hb⟩
    have hsame := (h.others k hne hnot).symm.trans hk
    exact .inl ⟨hsame, hnot a hsame⟩

/-- **A move keeps the nodes consistent.** -/
theorem Consistent.move (h : Consistent sep nodes) (hsiblings : Siblings nodes)
    (hmoved : Moved sep nodes nodes' m g old new) :
    Consistent sep nodes' := by
  obtain ⟨a, ha, rfl⟩ := hmoved.before
  obtain ⟨a', b, ha', hb, hparent, hname, rfl, hnew⟩ := hmoved.after
  -- the new parent stays where it is
  have hacyclic := hmoved.acyclic
  rw [hnew, below_join_iff hname, not_or] at hacyclic
  have hgm : g ≠ m := by
    rintro rfl
    rw [ha] at hb
    exact hacyclic.1 (congrArg _ (Option.some.inj hb)).symm
  have hgstays : nodes' g = some b := by
    rw [hmoved.others g hgm]
    · exact hb
    · intro c hc
      obtain rfl := Option.some.inj (hc.symm.trans hb)
      exact hacyclic.2
  refine ⟨fun k c hk => ?_, fun k c hk => ?_⟩
  · by_cases hkm : k = m
    · subst hkm
      obtain rfl := Option.some.inj (ha'.symm.trans hk)
      rw [Fits, hparent]
      exact ⟨b, hgstays, hnew⟩
    · rcases hmoved.cases hk hkm with ⟨hk, hnot⟩ | ⟨d, hd, hbelow, rfl⟩
      · -- the node stays, and so does its parent
        cases hp : c.parent with
        | none =>
          rw [Fits, hp]
          exact h.of_root hk hp
        | some p =>
          obtain ⟨e, he, hpath⟩ := h.of_parent hk hp
          rw [hpath, below_join_iff (h.names k c hk), not_or] at hnot
          have hpm : p ≠ m := by
            rintro rfl
            rw [ha] at he
            exact hnot.1 (congrArg _ (Option.some.inj he)).symm
          rw [Fits, hp]
          refine ⟨e, (hmoved.others p hpm fun x hx => ?_).trans he, hpath⟩
          obtain rfl := Option.some.inj (hx.symm.trans he)
          exact hnot.2
      · -- the node goes along with its parent
        cases hp : d.parent with
        | none =>
          rw [h.of_root hd hp] at hbelow
          exact absurd hbelow (not_below_of_not_mem (h.names k d hd))
        | some p =>
          obtain ⟨e, he, hpath⟩ := h.of_parent hd hp
          rw [Fits]
          dsimp only
          rw [hpath]
          rw [hpath] at hbelow
          rcases (below_join_iff (h.names k d hd)).mp hbelow with heq | hbelow
          · obtain rfl := h.path_inj hsiblings p m e a he ha heq
            exact ⟨a', ha', by rw [heq, rebase_join]⟩
          · obtain ⟨rest, hrest⟩ := hbelow
            have hpm : p ≠ m := by
              rintro rfl
              obtain rfl := Option.some.inj (ha.symm.trans he)
              have hlt := Below.length_lt (⟨rest, hrest⟩ : Below sep a.path a.path)
              exact lt_irrefl _ hlt
            refine ⟨_, hmoved.below p e hpm he ⟨rest, hrest⟩, ?_⟩
            rw [hrest, rebase_join]
            simp [join, rebase]
  · by_cases hkm : k = m
    · subst hkm
      obtain rfl := Option.some.inj (ha'.symm.trans hk)
      exact hname
    · rcases hmoved.cases hk hkm with ⟨hk, -⟩ | ⟨d, hd, -, rfl⟩
      · exact h.names k c hk
      · exact h.names k d hd

/-- **A move hangs nothing below a node it leaves in its place**, when it hangs nothing below what
is below that node. -/
theorem Moved.apart (hmoved : Moved sep nodes nodes' m g old new) (h : Consistent sep nodes)
    (hsiblings : Siblings nodes)
    (hsiblings' : Siblings nodes') {n : κ} {d : Node κ α} (hn : nodes n = some d) (hne : n ≠ m)
      (hnot : ¬ Below sep old d.path)
    (hparent : ∀ b, nodes g = some b → b.path ≠ d.path ∧ ¬ Below sep d.path b.path) :
    ∀ k a, nodes' k = some a → nodes k ≠ some a → ¬ Below sep d.path a.path := by
  intro k a hk hchanged hbelow
  have h' := h.move hsiblings hmoved
  obtain ⟨a', b, ha', hb, -, hname, hat, hnew⟩ := hmoved.after
  have hstays : nodes' n = some d := by
    rw [hmoved.others n hne]
    · exact hn
    · intro c hc
      obtain rfl := Option.some.inj (hc.symm.trans hn)
      exact hnot
  -- what is written is at the new path, or below it
  have hwritten : a.path = new ∨ Below sep new a.path := by
    by_cases hkm : k = m
    · subst hkm
      obtain rfl := Option.some.inj (ha'.symm.trans hk)
      exact .inl hat
    · rcases hmoved.cases hk hkm with ⟨hold, -⟩ | ⟨c, -, ⟨rest, hrest⟩, rfl⟩
      · exact absurd hold hchanged
      · refine .inr ⟨rest, ?_⟩
        dsimp only
        rw [hrest, rebase_join]
  rcases hbelow.compare hwritten with heq | hbelow | hbelow
  · exact hne (h'.path_inj hsiblings' n m d a' hstays ha' (heq.trans hat.symm))
  · rw [hnew, below_join_iff hname] at hbelow
    rcases hbelow with heq | hbelow
    · exact (hparent b hb).1 heq
    · exact (hparent b hb).2 hbelow
  · -- there was a node at the new path, which stays there too
    obtain ⟨l, c, hl, hpath⟩ := h.exists_of_below n d hn hbelow
    by_cases hlm : l = m
    · subst hlm
      obtain ⟨c', hc', hold⟩ := hmoved.before
      obtain rfl := Option.some.inj (hc'.symm.trans hl)
      rw [← hpath, hold] at hbelow
      exact hnot hbelow
    · have hl' : nodes' l = some c := by
        rw [hmoved.others l hlm]
        · exact hl
        · intro e he
          obtain rfl := Option.some.inj (he.symm.trans hl)
          rw [hpath]
          exact hmoved.acyclic
      exact hlm (h'.path_inj hsiblings' l m c a' hl' ha' (hpath.trans hat.symm))

end Paths
