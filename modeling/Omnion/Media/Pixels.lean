import Mathlib.Algebra.GroupWithZero.Nat
import Mathlib.Algebra.Order.Floor.Div
import Mathlib.Data.Int.Notation
import Omnion.Library.Guarded

/-!
# The box of a transformation

`target_box` of `crates/media/src/pixels.rs`: the box that a recipe makes of a picture of some width and height. A recipe
names one edge of the box, or both. Where it names one, the other goes with it, so that the picture keeps its
proportions; that edge is to be rounded up (`scale_one`).

## The model

Edges are words of 32 bits, and what a recipe names is an `i32` that is taken as a word. The products are made of words
of 64 bits, with `Guarded` arithmetic, which stops where a product does not fit.

## What is proved

* `targetBox_right_iff` — a picture that has an edge named is enlarged, or gets the box it is to have, just when the
  edges are positive and, where there is one, the other edge is more than 1 without its fraction, and has one; or is the
  edge of the picture, or all of it. `scale_one` adds 1 to the whole part of the edge, also where there is no fraction
  (`thirds_too_high`), and to the 1 that it makes of 0.

## Honest scope

Of a recipe the two edges are modelled: the others are about what is done with the pixels.
-/

namespace Omnion.Media.Pixels

open Guarded

/-- Why there is no box (of `MediaError`). -/
inductive TransformError where
  | transformFailed (reason : String)
  | invalidPreset (reason : String)
  deriving DecidableEq

/-- The edges that a recipe names. -/
structure Recipe where
  width : Option Int32
  height : Option Int32

/-- The box a transformation produces. -/
structure Box2 where
  width : UInt32
  height : UInt32
  deriving DecidableEq

/-- The other edge that goes with a named edge. -/
def scaleOne (sourceLong sourceShort target : UInt32) : Except Trap UInt32 := do
  let product ← mul sourceShort.toNat target.toNat
  let scaled ← div product sourceLong.toNat
  let rounded := max scaled 1
  let next ← add rounded 1
  pure (UInt32.ofNat (min next sourceShort.toNat))

/-- The error of a request that would enlarge. -/
def enlarges (label : String) (asked available : UInt32) : TransformError :=
  .transformFailed ("a " ++ label ++ " of " ++ toString asked ++ "px would enlarge a " ++ toString available ++
    "px source; a transformation produces something at most as large as its input, so serve the original instead")

/-- The box of a recipe, for a source. -/
def targetBox (recipe : Recipe) (sourceWidth sourceHeight : UInt32) : Except Trap (Except TransformError Box2) :=
  if sourceWidth = 0 ∨ sourceHeight = 0 then
    pure (.error (.transformFailed "the source has a zero dimension, so there is nothing to fit"))
  else
    match recipe.width, recipe.height with
    | some width, none =>
      let width := width.toUInt32
      if sourceWidth < width then pure (.error (enlarges "width" width sourceWidth))
      else do
        let height ← scaleOne sourceWidth sourceHeight width
        pure (.ok { width, height })
    | none, some height =>
      let height := height.toUInt32
      if sourceHeight < height then pure (.error (enlarges "height" height sourceHeight))
      else do
        let width ← scaleOne sourceHeight sourceWidth height
        pure (.ok { width, height })
    | some width, some height =>
      let width := width.toUInt32
      let height := height.toUInt32
      if sourceWidth < width ∨ sourceHeight < height then
        pure (.error (enlarges "box" (max width height) (max sourceWidth sourceHeight)))
      else pure (.ok { width, height })
    | none, none => pure (.error (.invalidPreset "a preset needs a width or a height"))

/-! ### What is to come of it -/

/-- The box that is asked for is wider than the source, or higher. -/
def Enlarges (recipe : Recipe) (sourceWidth sourceHeight : UInt32) : Prop :=
  (∃ width ∈ recipe.width, (sourceWidth.toNat : ℤ) < width.toInt) ∨
    ∃ height ∈ recipe.height, (sourceHeight.toNat : ℤ) < height.toInt

/-- A box within the source, with the edges that were named, in proportion. -/
structure Box2.Fits (box : Box2) (recipe : Recipe) (sourceWidth sourceHeight : UInt32) : Prop where
  width : ∀ width ∈ recipe.width, (box.width.toNat : ℤ) = width.toInt
  height : ∀ height ∈ recipe.height, (box.height.toNat : ℤ) = height.toInt
  /-- An edge that was not named is the ceiling of the length in proportion. -/
  derivedHeight : recipe.height = none →
    box.height.toNat = sourceHeight.toNat * box.width.toNat ⌈/⌉ sourceWidth.toNat
  derivedWidth : recipe.width = none →
    box.width.toNat = sourceWidth.toNat * box.height.toNat ⌈/⌉ sourceHeight.toNat
  within : (1 ≤ box.width ∧ box.width ≤ sourceWidth) ∧ 1 ≤ box.height ∧ box.height ≤ sourceHeight

/-- **The box is right**: nothing overflows, what enlarges is refused and nothing else, and a box fits. -/
def Right (recipe : Recipe) (sourceWidth sourceHeight : UInt32) : Prop :=
  ∃ answer, targetBox recipe sourceWidth sourceHeight = .ok answer ∧
    ((∃ error, answer = .error error) ↔ Enlarges recipe sourceWidth sourceHeight) ∧
    ∀ box, answer = .ok box → box.Fits recipe sourceWidth sourceHeight

/-- The other edge is more than 1 and has a fraction, or it is the edge of the source, or the only one. -/
def Rounds (long short target : ℕ) : Prop :=
  long < short * target ∧ ¬ long ∣ short * target ∨ target = long ∨ short = 1

/-- The edges that are named are edges, and the other edge is rounded as it is to be. -/
def Framed (recipe : Recipe) (sourceWidth sourceHeight : UInt32) : Prop :=
  match recipe.width, recipe.height with
  | some width, none => 1 ≤ width.toInt ∧ Rounds sourceWidth.toNat sourceHeight.toNat width.toInt.toNat
  | none, some height => 1 ≤ height.toInt ∧ Rounds sourceHeight.toNat sourceWidth.toNat height.toInt.toNat
  | some width, some height => 1 ≤ width.toInt ∧ 1 ≤ height.toInt
  | none, none => False

/-! ### The other edge -/

section

variable {long short target : ℕ}

theorem ceilDiv_of_dvd (hlong : 0 < long) (h : long ∣ target) : target ⌈/⌉ long = target / long := by
  obtain ⟨n, rfl⟩ := h
  rw [Nat.mul_div_cancel_left n hlong]
  refine le_antisymm ?_ ?_
  · rw [ceilDiv_le_iff_le_mul hlong]
  · exact Nat.le_of_mul_le_mul_left (le_smul_ceilDiv hlong) hlong

theorem ceilDiv_of_not_dvd (hlong : 0 < long) (h : ¬ long ∣ target) : target ⌈/⌉ long = target / long + 1 := by
  refine le_antisymm ?_ ?_
  · rw [ceilDiv_le_iff_le_mul hlong]
    exact (Nat.lt_mul_div_succ target hlong).le
  · by_contra hless
    have hle := (ceilDiv_le_iff_le_mul hlong).mp (Nat.le_of_lt_succ (not_le.mp hless))
    exact h ⟨_, le_antisymm hle (Nat.mul_div_le target long)⟩

/-- **The edge is the ceiling** just when it rounds. -/
theorem next_eq_ceilDiv_iff (hshort : 1 ≤ short) (htarget : 1 ≤ target) (hle : target ≤ long) :
    min (max (short * target / long) 1 + 1) short = short * target ⌈/⌉ long ↔ Rounds long short target := by
  have hlong : 0 < long := htarget.trans hle
  have hpos : 0 < short * target := Nat.mul_pos hshort htarget
  have hceil : short * target ⌈/⌉ long ≤ short := by
    rw [ceilDiv_le_iff_le_mul hlong, mul_comm long]
    exact Nat.mul_le_mul_left short hle
  rw [Rounds]
  by_cases hdvd : long ∣ short * target
  · -- The whole part is the length, and 1 more is one too many but for the edge of the source.
    have hquot : 1 ≤ short * target / long := Nat.div_pos (Nat.le_of_dvd hpos hdvd) hlong
    have hedge : short * target / long = short ↔ target = long := by
      rw [Nat.div_eq_iff_eq_mul_left hlong hdvd]
      exact ⟨fun h => Nat.eq_of_mul_eq_mul_left hshort h, fun h => by rw [h]⟩
    rw [ceilDiv_of_dvd hlong hdvd] at hceil ⊢
    rw [max_eq_left hquot]
    constructor
    · intro h
      exact .inr (.inl (hedge.mp (by omega)))
    · rintro (⟨-, hnot⟩ | htop | hone)
      · exact absurd hdvd hnot
      · rw [hedge.mpr htop]
        omega
      · omega
  · have hne : target ≠ long := fun h => hdvd (h ▸ dvd_mul_left target short)
    rw [ceilDiv_of_not_dvd hlong hdvd] at hceil ⊢
    rcases Nat.eq_zero_or_pos (short * target / long) with hzero | hquot
    · -- There is no whole part, and 1 stands in for it.
      have hless := (Nat.div_eq_zero_iff_lt hlong).mp hzero
      rw [hzero]
      constructor
      · intro h
        exact .inr (.inr (by omega))
      · rintro (⟨hmore, -⟩ | htop | hone)
        · omega
        · exact absurd htop hne
        · omega
    · have hmore : long < short * target := by
        have hle := (Nat.div_pos_iff.mp hquot).2
        exact hle.lt_of_ne fun h => hdvd (h ▸ dvd_refl _)
      rw [max_eq_left hquot, min_eq_left hceil]
      exact iff_of_true rfl (.inl ⟨hmore, hdvd⟩)

end

def otherEdge (long short target : UInt32) : UInt32 :=
  UInt32.ofNat (min (max (short.toNat * target.toNat / long.toNat) 1 + 1) short.toNat)

theorem toNat_otherEdge (long short target : UInt32) : (otherEdge long short target).toNat =
    min (max (short.toNat * target.toNat / long.toNat) 1 + 1) short.toNat := by
  rw [otherEdge, UInt32.toNat_ofNat']
  exact Nat.mod_eq_of_lt (lt_of_le_of_lt (min_le_right _ _) short.toNat_lt)

/-- **The other edge**: nothing overflows. -/
theorem scaleOne_eq {sourceLong : UInt32} (hlong : sourceLong ≠ 0) (sourceShort target : UInt32) :
    scaleOne sourceLong sourceShort target = .ok (otherEdge sourceLong sourceShort target) := by
  have hshort := sourceShort.toNat_lt
  have htarget := target.toNat_lt
  have hproduct : sourceShort.toNat * target.toNat ≤ 0xffffffff * 0xffffffff :=
    Nat.mul_le_mul (by omega) (by omega)
  have hscaled : sourceShort.toNat * target.toNat / sourceLong.toNat ≤ 0xffffffff * 0xffffffff :=
    (Nat.div_le_self _ _).trans hproduct
  have hdivisor : sourceLong.toNat ≠ 0 := fun h => hlong (UInt32.toNat_inj.mp h)
  have hnext : max (sourceShort.toNat * target.toNat / sourceLong.toNat) 1 + 1 ≤ wordMax := by
    rw [wordMax]
    omega
  rw [scaleOne, mul, if_pos (hproduct.trans (by decide)), ok_bind, div, if_neg hdivisor, ok_bind]
  dsimp only
  rw [add_eq hnext]
  rfl

/-! ### Named edges -/

theorem toNat_of_nonneg {edge : Int32} (h : 0 ≤ edge.toInt) : (edge.toUInt32.toNat : ℤ) = edge.toInt := by
  have hcond : edge.toInt = edge.toUInt32.toBitVec.toInt := rfl
  have hnat : edge.toUInt32.toNat = edge.toUInt32.toBitVec.toNat := rfl
  rw [hcond, BitVec.toInt_eq_toNat_cond] at h ⊢
  split_ifs at h ⊢ with hsmall
  · rw [hnat]
  · have hlt := edge.toUInt32.toBitVec.isLt
    omega

/-- **An edge that is named gives the other** just when it is one, and rounds. -/
theorem otherEdge_iff {long short : UInt32} {edge : Int32} (hshort : short ≠ 0) (hwithin : edge.toUInt32 ≤ long) :
    ((edge.toUInt32.toNat : ℤ) = edge.toInt ∧
      (otherEdge long short edge.toUInt32).toNat = short.toNat * edge.toUInt32.toNat ⌈/⌉ long.toNat ∧
      1 ≤ edge.toUInt32 ∧ 1 ≤ otherEdge long short edge.toUInt32 ∧ otherEdge long short edge.toUInt32 ≤ short) ↔
    1 ≤ edge.toInt ∧ Rounds long.toNat short.toNat edge.toInt.toNat := by
  have hpos : ∀ {n : UInt32}, n ≠ 0 → 1 ≤ n.toNat := fun hn =>
    Nat.pos_of_ne_zero fun h => hn (UInt32.toNat_inj.mp h)
  have hle : edge.toUInt32.toNat ≤ long.toNat := UInt32.le_iff_toNat_le.mp hwithin
  rw [UInt32.le_iff_toNat_le, UInt32.le_iff_toNat_le, UInt32.le_iff_toNat_le, toNat_otherEdge, UInt32.toNat_one]
  constructor
  · rintro ⟨hedge, hceil, hone, -, -⟩
    have hnat : edge.toInt.toNat = edge.toUInt32.toNat := by omega
    rw [hnat]
    exact ⟨by omega, (next_eq_ceilDiv_iff (hpos hshort) hone hle).mp hceil⟩
  · rintro ⟨hone, hrounds⟩
    have hedge := toNat_of_nonneg (show 0 ≤ edge.toInt by omega)
    have hnat : edge.toInt.toNat = edge.toUInt32.toNat := by omega
    rw [hnat] at hrounds
    have hfirst : 1 ≤ edge.toUInt32.toNat := by omega
    have hother := hpos hshort
    exact ⟨hedge, (next_eq_ceilDiv_iff hother hfirst hle).mpr hrounds, hfirst, by omega, min_le_right _ _⟩

/-! ### Boxes -/

variable {recipe : Recipe} {sourceWidth sourceHeight : UInt32} {width height : Int32}

theorem right_iff {answer : Except TransformError Box2} (h : targetBox recipe sourceWidth sourceHeight = .ok answer) :
    Right recipe sourceWidth sourceHeight ↔
      ((∃ error, answer = .error error) ↔ Enlarges recipe sourceWidth sourceHeight) ∧
        ∀ box, answer = .ok box → box.Fits recipe sourceWidth sourceHeight := by
  constructor
  · rintro ⟨answer', h', hright⟩
    rwa [← Except.ok.inj (h.symm.trans h')] at hright
  · exact fun hright => ⟨answer, h, hright⟩

theorem right_iff_of_error {error : TransformError} (h : targetBox recipe sourceWidth sourceHeight = .ok (.error error)) :
    Right recipe sourceWidth sourceHeight ↔ Enlarges recipe sourceWidth sourceHeight := by
  rw [right_iff h]
  constructor
  · exact fun hright => hright.1.mp ⟨error, rfl⟩
  · exact fun henlarges => ⟨iff_of_true ⟨error, rfl⟩ henlarges, nofun⟩

theorem right_iff_of_ok {box : Box2} (h : targetBox recipe sourceWidth sourceHeight = .ok (.ok box)) :
    Right recipe sourceWidth sourceHeight ↔
      ¬ Enlarges recipe sourceWidth sourceHeight ∧ box.Fits recipe sourceWidth sourceHeight := by
  rw [right_iff h]
  constructor
  · rintro ⟨herror, hfits⟩
    refine ⟨fun henlarges => ?_, hfits box rfl⟩
    obtain ⟨error, herror⟩ := herror.mpr henlarges
    cases herror
  · rintro ⟨hnot, hfits⟩
    refine ⟨iff_of_false nofun hnot, fun box' hbox => ?_⟩
    cases hbox
    exact hfits

/-- What is above the source as an `i32` is above it as a word. -/
theorem lt_toUInt32 {source : UInt32} {edge : Int32} (h : (source.toNat : ℤ) < edge.toInt) :
    source < edge.toUInt32 := by
  have hedge := toNat_of_nonneg (show 0 ≤ edge.toInt by omega)
  rw [UInt32.lt_iff_toNat_lt]
  omega

theorem lt_toInt {source : UInt32} {edge : Int32} (h : source < edge.toUInt32) (hone : 1 ≤ edge.toInt) :
    (source.toNat : ℤ) < edge.toInt := by
  have hedge := toNat_of_nonneg (show 0 ≤ edge.toInt by omega)
  rw [UInt32.lt_iff_toNat_lt] at h
  omega

theorem right_width_iff (hwidth : sourceWidth ≠ 0) (hheight : sourceHeight ≠ 0) :
    Right ⟨some width, none⟩ sourceWidth sourceHeight ↔ Enlarges ⟨some width, none⟩ sourceWidth sourceHeight ∨
      Framed ⟨some width, none⟩ sourceWidth sourceHeight := by
  have henlarges : Enlarges ⟨some width, none⟩ sourceWidth sourceHeight ↔ (sourceWidth.toNat : ℤ) < width.toInt := by
    simp [Enlarges]
  by_cases hlt : sourceWidth < width.toUInt32
  · have hanswer : targetBox ⟨some width, none⟩ sourceWidth sourceHeight =
        .ok (.error (enlarges "width" width.toUInt32 sourceWidth)) := by
      simp only [targetBox, hwidth, hheight, or_self, if_false, if_pos hlt]
      rfl
    rw [right_iff_of_error hanswer, henlarges]
    exact (or_iff_left_of_imp fun hframed => lt_toInt hlt hframed.1).symm
  · have hanswer : targetBox ⟨some width, none⟩ sourceWidth sourceHeight =
        .ok (.ok ⟨width.toUInt32, otherEdge sourceWidth sourceHeight width.toUInt32⟩) := by
      simp only [targetBox, hwidth, hheight, or_self, if_false, if_neg hlt, scaleOne_eq hwidth]
      rfl
    have hnot : ¬ (sourceWidth.toNat : ℤ) < width.toInt := fun h => hlt (lt_toUInt32 h)
    have hle := UInt32.not_lt.mp hlt
    rw [right_iff_of_ok hanswer, henlarges, or_iff_right hnot, and_iff_right hnot]
    refine Iff.trans ?_ (otherEdge_iff hheight hle)
    constructor
    · exact fun h => ⟨h.width width rfl, h.derivedHeight rfl, h.within.1.1, h.within.2⟩
    · rintro ⟨hedge, hceil, hone, hother⟩
      refine ⟨?_, nofun, fun _ => hceil, nofun, ⟨hone, hle⟩, hother⟩
      rintro _ ⟨⟩
      exact hedge

theorem right_height_iff (hwidth : sourceWidth ≠ 0) (hheight : sourceHeight ≠ 0) :
    Right ⟨none, some height⟩ sourceWidth sourceHeight ↔ Enlarges ⟨none, some height⟩ sourceWidth sourceHeight ∨
      Framed ⟨none, some height⟩ sourceWidth sourceHeight := by
  have henlarges : Enlarges ⟨none, some height⟩ sourceWidth sourceHeight ↔ (sourceHeight.toNat : ℤ) < height.toInt := by
    simp [Enlarges]
  by_cases hlt : sourceHeight < height.toUInt32
  · have hanswer : targetBox ⟨none, some height⟩ sourceWidth sourceHeight =
        .ok (.error (enlarges "height" height.toUInt32 sourceHeight)) := by
      simp only [targetBox, hwidth, hheight, or_self, if_false, if_pos hlt]
      rfl
    rw [right_iff_of_error hanswer, henlarges]
    exact (or_iff_left_of_imp fun hframed => lt_toInt hlt hframed.1).symm
  · have hanswer : targetBox ⟨none, some height⟩ sourceWidth sourceHeight =
        .ok (.ok ⟨otherEdge sourceHeight sourceWidth height.toUInt32, height.toUInt32⟩) := by
      simp only [targetBox, hwidth, hheight, or_self, if_false, if_neg hlt, scaleOne_eq hheight]
      rfl
    have hnot : ¬ (sourceHeight.toNat : ℤ) < height.toInt := fun h => hlt (lt_toUInt32 h)
    have hle := UInt32.not_lt.mp hlt
    rw [right_iff_of_ok hanswer, henlarges, or_iff_right hnot, and_iff_right hnot]
    refine Iff.trans ?_ (otherEdge_iff hwidth hle)
    constructor
    · exact fun h => ⟨h.height height rfl, h.derivedWidth rfl, h.within.2.1, h.within.1⟩
    · rintro ⟨hedge, hceil, hone, hother⟩
      refine ⟨nofun, ?_, nofun, fun _ => hceil, hother, ⟨hone, hle⟩⟩
      rintro _ ⟨⟩
      exact hedge

theorem right_box_iff (hwidth : sourceWidth ≠ 0) (hheight : sourceHeight ≠ 0) :
    Right ⟨some width, some height⟩ sourceWidth sourceHeight ↔
      Enlarges ⟨some width, some height⟩ sourceWidth sourceHeight ∨
        Framed ⟨some width, some height⟩ sourceWidth sourceHeight := by
  have henlarges : Enlarges ⟨some width, some height⟩ sourceWidth sourceHeight ↔
      (sourceWidth.toNat : ℤ) < width.toInt ∨ (sourceHeight.toNat : ℤ) < height.toInt := by
    simp [Enlarges]
  by_cases hlt : sourceWidth < width.toUInt32 ∨ sourceHeight < height.toUInt32
  · have hanswer : targetBox ⟨some width, some height⟩ sourceWidth sourceHeight = .ok (.error
        (enlarges "box" (max width.toUInt32 height.toUInt32) (max sourceWidth sourceHeight))) := by
      simp only [targetBox, hwidth, hheight, or_self, if_false, if_pos hlt]
      rfl
    rw [right_iff_of_error hanswer, henlarges]
    refine (or_iff_left_of_imp fun hframed => ?_).symm
    exact hlt.imp (fun h => lt_toInt h hframed.1) fun h => lt_toInt h hframed.2
  · have hanswer : targetBox ⟨some width, some height⟩ sourceWidth sourceHeight =
        .ok (.ok ⟨width.toUInt32, height.toUInt32⟩) := by
      simp only [targetBox, hwidth, hheight, or_self, if_false, if_neg hlt]
      rfl
    have hnot : ¬ ((sourceWidth.toNat : ℤ) < width.toInt ∨ (sourceHeight.toNat : ℤ) < height.toInt) :=
      fun h => hlt (h.imp lt_toUInt32 lt_toUInt32)
    obtain ⟨hwide, hhigh⟩ := not_or.mp hlt
    rw [right_iff_of_ok hanswer, henlarges, or_iff_right hnot, and_iff_right hnot, Framed]
    constructor
    · intro h
      have hw := h.width width rfl
      have hh := h.height height rfl
      have hfirst := UInt32.le_iff_toNat_le.mp h.within.1.1
      have hsecond := UInt32.le_iff_toNat_le.mp h.within.2.1
      rw [UInt32.toNat_one] at hfirst hsecond
      dsimp only at hw hh hfirst hsecond
      omega
    · rintro ⟨hone, hone'⟩
      have hw := toNat_of_nonneg (show 0 ≤ width.toInt by omega)
      have hh := toNat_of_nonneg (show 0 ≤ height.toInt by omega)
      refine ⟨?_, ?_, nofun, nofun, ⟨?_, UInt32.not_lt.mp hwide⟩, ?_, UInt32.not_lt.mp hhigh⟩
      · rintro _ ⟨⟩
        exact hw
      · rintro _ ⟨⟩
        exact hh
      · rw [UInt32.le_iff_toNat_le, UInt32.toNat_one]
        dsimp only
        omega
      · rw [UInt32.le_iff_toNat_le, UInt32.toNat_one]
        dsimp only
        omega

/-- **The box is right** when the recipe enlarges, and else just when its edges are edges and the other edge rounds. -/
theorem targetBox_right_iff (recipe : Recipe) (sourceWidth sourceHeight : UInt32) (hwidth : sourceWidth ≠ 0)
    (hheight : sourceHeight ≠ 0) : Right recipe sourceWidth sourceHeight ↔
      Enlarges recipe sourceWidth sourceHeight ∨ Framed recipe sourceWidth sourceHeight := by
  obtain ⟨width, height⟩ := recipe
  cases width with
  | some width =>
    cases height with
    | some height => exact right_box_iff hwidth hheight
    | none => exact right_width_iff hwidth hheight
  | none =>
    cases height with
    | some height => exact right_height_iff hwidth hheight
    | none =>
      have hanswer : targetBox ⟨none, none⟩ sourceWidth sourceHeight =
          .ok (.error (.invalidPreset "a preset needs a width or a height")) := by
        simp only [targetBox, hwidth, hheight, or_self, if_false]
        rfl
      rw [right_iff_of_error hanswer]
      exact (or_iff_left (by simp [Framed])).symm

/-- A picture of 1200 by 630 is to be 300 wide: 158 high. -/
theorem targetBox_right_card : Right ⟨some 300, none⟩ 1200 630 ↔
    Enlarges ⟨some 300, none⟩ 1200 630 ∨ Framed ⟨some 300, none⟩ 1200 630 :=
  targetBox_right_iff ⟨some 300, none⟩ 1200 630 (by decide) (by decide)

/-- **A third is one too high**: a picture of 1200 by 630 that is to be 400 wide is to be 210 high, and is 211. -/
theorem thirds_too_high : ¬ ∀ (recipe : Recipe) (sourceWidth sourceHeight : UInt32), sourceWidth ≠ 0 →
    sourceHeight ≠ 0 → Right recipe sourceWidth sourceHeight := by
  intro h
  obtain ⟨answer, hanswer, -, hfits⟩ := h ⟨some 400, none⟩ 1200 630 (by decide) (by decide)
  have hbox : targetBox ⟨some 400, none⟩ 1200 630 = .ok (.ok ⟨400, 211⟩) := by decide
  have hheight := (hfits ⟨400, 211⟩ (Except.ok.inj (hanswer.symm.trans hbox))).derivedHeight rfl
  exact absurd hheight (by decide)

end Omnion.Media.Pixels
