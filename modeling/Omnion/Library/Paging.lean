import Mathlib.Data.List.Basic
import Mathlib.Order.Lattice

/-!
# Pages by a cursor

Rows are listed from the latest to the earliest, and a page has so many of the rows before an instant. The cursor to the
next page is made of the last row of this one. `Follows` says what the pages come to when they are followed to the end;
`follows_iff`, that these are all the rows just when each cursor comes back as an instant between the rows on both sides
of the border.
-/

namespace Paging

variable {α τ : Type*}

/-- The pages from a cursor on, joined: a page that is not the last is followed by that of its last row's cursor. -/
inductive Follows (page : Option τ → List α × Bool) (cursor : α → Option τ) : Option τ → List α → Prop where
  | last {before} (h : (page before).2 = false) : Follows page cursor before (page before).1
  | more {before last c rest} (h : (page before).2 = true) (hlast : (page before).1.getLast? = some last)
      (hcursor : cursor last = some c) (hrest : Follows page cursor (some c) rest) :
      Follows page cursor before ((page before).1 ++ rest)

variable [LinearOrder τ] (time : α → τ)

/-- The rows before an instant, or all of them. -/
def below (before : Option τ) (rows : List α) : List α := rows.filter fun a => before.all fun t => time a < t

/-- So many rows before an instant, and whether there are more. -/
def keysetPage (limit : ℕ) (rows : List α) (before : Option τ) : List α × Bool :=
  ((below time before rows).take limit, limit < (below time before rows).length)

/-- At the end of each full page the cursor comes back as an instant that the next row is before, and the last is not. -/
def Borders (limit : ℕ) (cursor : α → Option τ) (rows : List α) : Prop :=
  ∀ before last next after, rows = before ++ last :: next :: after → limit ∣ before.length + 1 →
    ∃ c, cursor last = some c ∧ time next < c ∧ c ≤ time last

variable {time} {limit : ℕ} {cursor : α → Option τ} {rows rest page after : List α} {before : Option τ}
  {c : τ} {a last next : α}

theorem borders_of_length_le (h : rows.length ≤ limit) : Borders time limit cursor rows := by
  intro before last next after hrows hdvd
  have hle := Nat.le_of_dvd (Nat.succ_pos _) hdvd
  rw [hrows] at h
  simp only [List.length_append, List.length_cons] at h
  omega

/-- The borders are that of the first page, and those of the rest. -/
theorem borders_append_iff (hlength : page.length + 1 = limit) :
    Borders time limit cursor (page ++ last :: next :: after) ↔
      (∃ c, cursor last = some c ∧ time next < c ∧ c ≤ time last) ∧ Borders time limit cursor (next :: after) := by
  constructor
  · intro h
    refine ⟨h page last next after rfl ⟨1, by omega⟩, fun before last' next' after' hrest hdvd => ?_⟩
    refine h (page ++ last :: before) last' next' after' (by rw [hrest]; simp) ?_
    rw [List.length_append, List.length_cons, show page.length + (before.length + 1) + 1 =
      (page.length + 1) + (before.length + 1) by omega, hlength]
    exact (Nat.dvd_add_right (Nat.dvd_refl limit)).mpr hdvd
  · rintro ⟨hfirst, hrest⟩ before last' next' after' hrows hdvd
    -- The border is behind the first page, or further on.
    obtain ⟨k, hk⟩ := hdvd
    have hk1 : k ≠ 0 := by
      rintro rfl
      omega
    by_cases hone : k = 1
    · have hlen : page.length = before.length := by
        rw [hone, Nat.mul_one] at hk
        omega
      obtain ⟨-, htail⟩ := List.append_inj hrows hlen
      simp only [List.cons.injEq] at htail
      obtain ⟨rfl, rfl, -⟩ := htail
      exact hfirst
    · have hlen : page.length + 1 ≤ before.length := by
        have : limit * 2 ≤ limit * k := Nat.mul_le_mul_left limit (by omega)
        omega
      have hsplit : before = page ++ last :: before.drop (page.length + 1) := by
        have htake := congrArg (List.take (page.length + 1)) hrows
        rw [List.take_append_of_le_length hlen, show page ++ last :: next :: after =
          (page ++ [last]) ++ next :: after by simp, List.take_left' (by simp)] at htake
        conv_lhs => rw [← List.take_append_drop (page.length + 1) before, ← htake]
        simp
      rw [hsplit] at hrows
      simp only [List.append_assoc, List.cons_append, List.append_cancel_left_eq, List.cons.injEq, true_and] at hrows
      refine hrest _ _ _ _ hrows ?_
      rw [List.length_drop, show before.length - (page.length + 1) + 1 = (before.length + 1) - limit by omega, hk]
      exact Nat.dvd_sub (Nat.dvd_mul_right limit k) (Nat.dvd_refl limit)

theorem head?_of_follows (hlimit : 0 < limit)
    (h : Follows (keysetPage time limit rows) cursor before (a :: rest)) : (below time before rows).head? = some a := by
  generalize hresult : a :: rest = result at h
  have hhead : result.head? = some a := by rw [← hresult]; rfl
  have htake : ∀ l : List α, (l.take limit).head? = l.head? := fun l => by
    rw [List.head?_take, if_neg (by omega)]
  cases h with
  | last h =>
    rw [← htake]
    exact hhead
  | @more _ last c rest' hmore hlast _ _ =>
    have hne : (keysetPage time limit rows before).1 ≠ [] := by
      intro hnil
      rw [hnil] at hlast
      cases hlast
    rw [List.head?_append_of_ne_nil _ hne] at hhead
    rw [← htake]
    exact hhead

theorem le_of_head? (hnodup : rows.Nodup) (hbelow : below time before rows = page ++ last :: next :: after)
    (hhead : (below time (some c) rows).head? = some next) : time next < c ∧ c ≤ time last := by
  have hmem := List.mem_of_mem_head? hhead
  refine ⟨by simpa using (List.mem_filter.mp hmem).2, le_of_not_gt fun hlt => ?_⟩
  obtain ⟨rows₁, rows₂, rfl, -, hrows₂⟩ := List.filter_eq_append_iff.mp hbelow
  obtain ⟨rows₃, rows₄, rfl, -, -, hrows₄⟩ := List.filter_eq_cons_iff.mp hrows₂
  have hnext : next ∈ rows₄ := List.mem_of_mem_filter (hrows₄ ▸ List.mem_cons_self)
  rw [← List.append_assoc] at hnodup hhead
  obtain ⟨-, hnodup₂, hdisjoint⟩ := List.nodup_append.mp hnodup
  have hlast : next ≠ last := fun heq =>
    (List.nodup_cons.mp hnodup₂).1 (heq ▸ hnext)
  rw [below, List.filter_append, List.filter_cons_of_pos (by simpa using hlt)] at hhead
  rcases hfirst : (rows₁ ++ rows₃).filter (fun a => (some c).all fun t => time a < t) with _ | ⟨b, others⟩
  · rw [hfirst] at hhead
    exact hlast (Option.some.inj hhead).symm
  · rw [hfirst] at hhead
    have hb : b ∈ rows₁ ++ rows₃ := List.mem_of_mem_filter (hfirst ▸ List.mem_cons_self)
    rw [Option.some.inj hhead] at hb
    exact hdisjoint next hb next (List.mem_cons_of_mem last hnext) rfl

/-- Behind a border that the cursor keeps there are the rows from the next on. -/
theorem below_of_border (hsorted : rows.Pairwise fun a b => time b ≤ time a)
    (hbelow : below time before rows = page ++ last :: next :: after) (hnext : time next < c) (hlast : c ≤ time last) :
    below time (some c) rows = next :: after := by
  have hpairwise : (page ++ last :: next :: after).Pairwise fun a b => time b ≤ time a :=
    hbelow ▸ hsorted.sublist List.filter_sublist
  have hinside : ∀ a, a ∈ rows → time a < c → before.all (fun t => time a < t) = true := by
    intro a _ hc
    have hlastBefore := (List.mem_filter.mp (hbelow ▸ List.mem_append_right page List.mem_cons_self :
      last ∈ below time before rows)).2
    cases before with
    | none => rfl
    | some t => exact decide_eq_true ((hc.trans_le hlast).trans (of_decide_eq_true hlastBefore))
  have hfilter : below time (some c) rows = (page ++ last :: next :: after).filter fun a => time a < c := by
    rw [← hbelow, below, below, List.filter_filter]
    refine List.filter_congr fun a ha => ?_
    by_cases hc : time a < c
    · simp [hc, hinside a ha hc]
    · simp [hc]
  obtain ⟨-, htail, hpage⟩ := List.pairwise_append.mp hpairwise
  obtain ⟨-, htail⟩ := List.pairwise_cons.mp htail
  rw [hfilter, List.filter_append, List.filter_eq_nil_iff.mpr, List.nil_append, List.filter_cons_of_neg,
    List.filter_eq_self.mpr]
  · intro a ha
    rcases List.mem_cons.mp ha with rfl | ha
    · exact decide_eq_true hnext
    · exact decide_eq_true (((List.pairwise_cons.mp htail).1 a ha).trans_lt hnext)
  · simpa using hlast
  · intro a ha
    simpa using hlast.trans (hpage a ha last List.mem_cons_self)

/-- **The pages come to all the rows**, each once and in order, just when every border is kept. -/
theorem follows_iff (hlimit : 0 < limit) (hsorted : rows.Pairwise fun a b => time b ≤ time a) (hnodup : rows.Nodup) :
    Follows (keysetPage time limit rows) cursor before (below time before rows) ↔
      Borders time limit cursor (below time before rows) := by
  generalize hn : (below time before rows).length = n
  induction n using Nat.strongRecOn generalizing before with
  | ind n ih =>
    by_cases hmore : limit < n
    · -- The first page, its last row, and the next.
      obtain ⟨page, last, next, after, hbelow, hlength⟩ : ∃ page last next after,
          below time before rows = page ++ last :: next :: after ∧ page.length + 1 = limit := by
        obtain ⟨last, hlast⟩ : ∃ last, (below time before rows)[limit - 1]? = some last :=
          ⟨_, List.getElem?_eq_getElem (by omega)⟩
        obtain ⟨next, hnext⟩ : ∃ next, (below time before rows)[limit]? = some next :=
          ⟨_, List.getElem?_eq_getElem (by omega)⟩
        refine ⟨(below time before rows).take (limit - 1), last, next, (below time before rows).drop (limit + 1), ?_, ?_⟩
        · conv_lhs => rw [← List.take_append_drop (limit - 1) (below time before rows)]
          rw [List.drop_eq_getElem?_toList_append, hlast, show limit - 1 + 1 = limit by omega,
            List.drop_eq_getElem?_toList_append, hnext]
          simp
        · rw [List.length_take]
          omega
      have hpage : keysetPage time limit rows before = (page ++ [last], true) := by
        rw [keysetPage, hbelow, show page ++ last :: next :: after = (page ++ [last]) ++ next :: after by simp,
          List.take_left' (by simpa using hlength)]
        simp [← hlength]
      have hrest : ∀ c, below time (some c) rows = next :: after →
          (Follows (keysetPage time limit rows) cursor (some c) (next :: after) ↔
            Borders time limit cursor (next :: after)) := by
        intro c hc
        have hlt : (below time (some c) rows).length < n := by
          rw [hc, ← hn, hbelow]
          simp
          omega
        have h := ih _ hlt rfl
        rwa [hc] at h
      rw [hbelow, borders_append_iff hlength]
      constructor
      · intro h
        generalize hresult : page ++ last :: next :: after = result at h
        cases h with
        | last h => simp [hpage] at h
        | @more _ last' c rest _ hlast hcursor hfollows =>
          rw [hpage] at hlast hresult
          obtain rfl : last = last' := by simpa using hlast
          obtain rfl : next :: after = rest := by simpa using hresult
          obtain ⟨hnext, hle⟩ := le_of_head? hnodup hbelow (head?_of_follows hlimit hfollows)
          exact ⟨⟨c, hcursor, hnext, hle⟩, (hrest c (below_of_border hsorted hbelow hnext hle)).mp hfollows⟩
      · rintro ⟨⟨c, hcursor, hnext, hle⟩, hborders⟩
        have hfollows := (hrest c (below_of_border hsorted hbelow hnext hle)).mpr hborders
        have hmore : (keysetPage time limit rows before).2 = true := by rw [hpage]
        have h := Follows.more hmore (by rw [hpage]; simp) hcursor hfollows
        rw [hpage] at h
        simpa using h
    · have hlast : (keysetPage time limit rows before).2 = false := by
        simp only [keysetPage, hn]
        exact decide_eq_false hmore
      have hall : (keysetPage time limit rows before).1 = below time before rows :=
        List.take_of_length_le (by omega)
      refine iff_of_true ?_ (borders_of_length_le (by omega))
      have h : Follows (keysetPage time limit rows) cursor before (keysetPage time limit rows before).1 := .last hlast
      rwa [hall] at h

end Paging
