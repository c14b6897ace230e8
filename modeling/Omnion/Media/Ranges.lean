import Omnion.Core.NetText
import Omnion.Library.Checked

/-!
# Byte ranges

`RangePlan::decide` of `crates/media/src/ranges.rs`: which bytes of an object answer a request
with a `Range` header.

## The model

Beside the code stands what a header asks for: `Asks` reads one range from its text, the numbers
as `u64` reads them with white space around them, and a `ByteRange` names bytes.

## What is proved

* `decide_follows_iff` — the object whole, the bytes that the range names, or a refusal when it
  names none, just when the header is no `Overlooked` one.
* `reversed_refused` — a reversed range past the end, refused and not ignored.
-/

namespace Omnion

namespace Text

/-- `str::strip_prefix`. -/
def stripPrefix (pat text : List Char) : Option (List Char) :=
  if pat.isPrefixOf text then some (text.drop pat.length) else none

/-- `str::get(..n)` and `str::get(n..)`: the two sides of a byte, if it begins a character. -/
def splitAtByte : (text : List Char) → (n : ℕ) → Option (List Char × List Char)
  | text, 0 => some ([], text)
  | [], _ + 1 => none
  | c :: rest, n + 1 =>
    if c.utf8Size ≤ n + 1 then
      (splitAtByte rest (n + 1 - c.utf8Size)).map fun (before, after) => (c :: before, after)
    else none

/-- `str::parse::<u64>`: digits, after a plus sign or none. -/
def parseU64 (text : List Char) : Option ℕ :=
  let digits := if text.head? = some '+' then text.tail else text
  if Digits digits ∧ decimal digits ≤ 0xffffffffffffffff then some (decimal digits) else none

end Text

namespace Media

open Checked (Halt)

/-- A window of an object. -/
structure ByteWindow where
  start : ℕ
  /-- Its last byte, inclusive (`end`). -/
  last : ℕ
  deriving DecidableEq

/-- What to answer a request with. -/
inductive RangePlan where
  /-- The whole object, with a `200`. -/
  | whole
  /-- A window, with a `206` (`Partial`). -/
  | window (window : ByteWindow) (total : ℕ)
  /-- Nothing, with a `416`. -/
  | unsatisfiable (total : ℕ)
  deriving DecidableEq

/-- Why a specification is no window (`Window`). -/
inductive WindowRefusal where
  | malformed
  | unsatisfiable

/-- A number that has to be there. -/
def parseBound (text : List Char) : Except (Halt WindowRefusal) ℕ :=
  match Text.parseU64 text with
  | some n => .ok n
  | none => .error (.refused .malformed)

/-- Parse `first-last`. -/
def parseWindow (spec : List Char) (total : ℕ) : Except (Halt WindowRefusal) ByteWindow :=
  match Text.splitOnce ['-'] spec with
  | none => .error (.refused .malformed)
  | some (first, last) =>
    if Words.trim Text.isWhitespace first = [] then do
      let suffix ← parseBound (Words.trim Text.isWhitespace last)
      if suffix = 0 then .error (.refused .unsatisfiable)
      else
        let lastByte ← Checked.sub total 1
        pure { start := total - suffix, last := lastByte }
    else do
      let start ← parseBound (Words.trim Text.isWhitespace first)
      if total ≤ start then .error (.refused .unsatisfiable)
      else
        let lastByte ← Checked.sub total 1
        let stop ←
          if Words.trim Text.isWhitespace last = [] then pure lastByte
          else do
            let digits ← parseBound (Words.trim Text.isWhitespace last)
            pure (min digits lastByte)
        if stop < start then .error (.refused .malformed)
        else pure { start, last := stop }

/-- The specification after the unit, if that is `bytes`. -/
def rangeSpec (raw : List Char) : Option (List Char) :=
  (Text.stripPrefix "bytes=".toList raw).or <|
    (Text.stripPrefix "BYTES=".toList raw).or <|
      match Text.splitAtByte raw 6 with
      | some (unit, spec) => if Text.eqIgnoreAsciiCase unit "bytes=".toList then some spec else none
      | none => none

def onlySpec (header : Option String) : Option (List Char) := do
  let raw ← (header.map fun value => Words.trim Text.isWhitespace value.toList).filter (· ≠ [])
  let spec ← rangeSpec raw
  match (spec.splitOn ',').map (Words.trim Text.isWhitespace) with
  | [only] => some only
  | _ => none

/-- Decide the answer for a request against an object of `total` bytes. -/
def RangePlan.decide (header : Option String) (total : ℕ) : Except (Halt Empty) RangePlan :=
  if total = 0 then .ok .whole
  else
    match onlySpec header with
    | none => .ok .whole
    | some only =>
      match parseWindow only total with
      | .ok w => .ok (.window w total)
      | .error (.refused .unsatisfiable) => .ok (.unsatisfiable total)
      | .error (.refused .malformed) => .ok .whole
      | .error .overflow => .error .overflow

/-! ### What a header asks for -/

inductive ByteRange where
  | suffix (n : ℕ)
  | starting (first : ℕ)
  | between (first last : ℕ)

/-- The byte of an object is one of the range. -/
def ByteRange.Names (total : ℕ) : ByteRange → ℕ → Prop
  | .suffix n, i => i < total ∧ total ≤ i + n
  | .starting first, i => i < total ∧ first ≤ i
  | .between first last, i => i < total ∧ first ≤ i ∧ i ≤ last

/-- A number, with white space around it. -/
def Number (text : List Char) (n : ℕ) : Prop := Text.parseU64 (Words.trim Text.isWhitespace text) = some n

/-- The texts on the two sides of a hyphen are those of a range. -/
inductive ByteRange.Spelled (first last : List Char) : ByteRange → Prop where
  | suffix {n : ℕ} (hfirst : Words.trim Text.isWhitespace first = []) (hlast : Number last n) : Spelled
    first last (.suffix n)
  | starting {n : ℕ} (hfirst : Number first n) (hlast : Words.trim Text.isWhitespace last = []) : Spelled
    first last (.starting n)
  /-- The end is not before the start. -/
  | between {n m : ℕ} (hfirst : Number first n) (hlast : Number last m)
    (hle : n ≤ m) : Spelled first last (.between n m)

/-- The header has the unit `bytes`, in any case, and one specification, with a hyphen. -/
def Specifies (header : Option String) (first last : List Char) : Prop :=
  ∃ text unit spec, header = some text ∧ Words.trim Text.isWhitespace text.toList = unit ++ spec ∧
    unit.map Char.toLower = "bytes=".toList ∧ ',' ∉ spec ∧
    Text.splitOnce ['-'] (Words.trim Text.isWhitespace spec) = some (first, last)

def Asks (header : Option String) (range : ByteRange) : Prop :=
  ∃ first last, Specifies header first last ∧ range.Spelled first last

/-- **What `decide` is to answer**, of an object of `total` bytes. -/
structure Follows (header : Option String) (total : ℕ) (plan : RangePlan) : Prop where
  /-- The whole object when it is empty, or no range is asked for. -/
  whole : plan = .whole ↔ total = 0 ∨ ∀ range, ¬ Asks header range
  /-- A refusal when the range names no byte. -/
  unsatisfiable : ∀ t, plan = .unsatisfiable t ↔
    t = total ∧ 0 < total ∧ ∃ range, Asks header range ∧ ∀ i, ¬ range.Names total i
  window : ∀ w t, plan = .window w t → t = total ∧ w.start ≤ w.last ∧ w.last < total ∧
    ∃ range, Asks header range ∧ ∀ i, w.start ≤ i ∧ i ≤ w.last ↔ range.Names total i

/-- The first byte is past the end, and the last one is not read, or is before it. -/
def PastEnd (first last : List Char) (total : ℕ) : Prop :=
  ∃ n, Number first n ∧ total ≤ n ∧ Words.trim Text.isWhitespace last ≠ [] ∧ ∀ m, Number last m → m < n

/-- The header is malformed, which is not seen as its first byte is past the end. -/
def Overlooked (header : Option String) (total : ℕ) : Prop :=
  0 < total ∧ ∃ first last, Specifies header first last ∧ PastEnd first last total

end Media

/-! ### The unit -/

namespace Text

variable {c : Char} {text unit rest pat : List Char}

theorem stripPrefix_eq_some : stripPrefix pat text = some rest ↔ text = pat ++ rest := by
  simp only [stripPrefix, Option.ite_none_right_eq_some, List.isPrefixOf_iff_prefix, Option.some.injEq]
  constructor
  · rintro ⟨⟨after, rfl⟩, rfl⟩
    simp
  · rintro rfl
    simp

theorem utf8Size_eq_one (h : c.toLower.toNat < 0x80) : c.utf8Size = 1 := by
  rw [Char.utf8Size_eq_one_iff, UInt32.le_iff_toNat_le]
  by_contra hlarge
  have hsame : c.toLower = c := by
    refine dif_neg ?_
    rintro ⟨-, hz⟩
    exact hlarge ((UInt32.le_iff_toNat_le.mp hz).trans (by decide))
  rw [hsame] at h
  exact hlarge (Nat.le_of_lt_succ h)

theorem splitAtByte_eq_some {n : ℕ} (h : splitAtByte text n = some (unit, rest)) : text = unit ++ rest := by
  induction text generalizing n unit with
  | nil => cases n <;> simp_all [splitAtByte]
  | cons c text ih =>
    cases n with
    | zero =>
      obtain ⟨rfl, rfl⟩ : [] = unit ∧ c :: text = rest := by simpa [splitAtByte] using h
      rfl
    | succ n =>
      rw [splitAtByte] at h
      split_ifs at h with hle
      obtain ⟨⟨before, after⟩, hsplit, hcut⟩ := Option.map_eq_some_iff.mp h
      obtain ⟨rfl, rfl⟩ : c :: before = unit ∧ after = rest := by simpa using hcut
      rw [ih hsplit, List.cons_append]

theorem splitAtByte_append (hunit : ∀ c ∈ unit, c.utf8Size = 1) :
    splitAtByte (unit ++ rest) unit.length = some (unit, rest) := by
  induction unit with
  | nil => cases rest <;> rfl
  | cons c unit ih =>
    rw [List.forall_mem_cons] at hunit
    rw [List.cons_append, List.length_cons, splitAtByte, hunit.1, if_pos (by omega), Nat.add_sub_cancel, ih hunit.2,
      Option.map_some]

end Text
namespace Media

open Text

/-- **The unit** is in any case. -/
theorem rangeSpec_eq_some {raw spec : List Char} : rangeSpec raw = some spec ↔
    ∃ unit, raw = unit ++ spec ∧ unit.map Char.toLower = "bytes=".toList := by
  constructor
  · intro h
    rcases Option.or_eq_some_iff.mp h with h | ⟨-, h⟩
    · exact ⟨_, stripPrefix_eq_some.mp h, by decide⟩
    · rcases Option.or_eq_some_iff.mp h with h | ⟨-, h⟩
      · exact ⟨_, stripPrefix_eq_some.mp h, by decide⟩
      · split at h
        · rename_i unit spec' hsplit
          split_ifs at h with hunit
          cases h
          refine ⟨unit, splitAtByte_eq_some hsplit, ?_⟩
          have := eq_of_beq hunit
          rw [this]; decide
        · cases h
  · rintro ⟨unit, rfl, hunit⟩
    have hlength : unit.length = 6 := by simpa using congrArg List.length hunit
    have hascii : "bytes=".toList.Forall fun d => d.toNat < 0x80 := by decide
    have hbytes : ∀ c ∈ unit, c.utf8Size = 1 := by
      intro c hc
      have hlower : c.toLower ∈ "bytes=".toList := hunit ▸ List.mem_map_of_mem hc
      exact utf8Size_eq_one (List.forall_iff_forall_mem.mp hascii _ hlower)
    have hsplit : splitAtByte (unit ++ spec) 6 = some (unit, spec) := hlength ▸ splitAtByte_append hbytes
    have hcase : eqIgnoreAsciiCase unit "bytes=".toList = true := by rw [eqIgnoreAsciiCase, hunit]; decide
    have hstrip : ∀ {pat rest : List Char}, pat.length = 6 → stripPrefix pat (unit ++ spec) = some rest → rest = spec :=
      fun hpat h => (List.append_inj_right (stripPrefix_eq_some.mp h) (hlength.trans hpat.symm)).symm
    rw [rangeSpec, hsplit]
    dsimp only
    rw [if_pos hcase]
    cases hlower : stripPrefix "bytes=".toList (unit ++ spec) with
    | some rest => rw [hstrip (by decide) hlower, Option.some_or]
    | none =>
      cases hupper : stripPrefix "BYTES=".toList (unit ++ spec) with
      | some rest => rw [hstrip (by decide) hupper, Option.none_or, Option.some_or]
      | none => rfl

/-! ### A specification -/

variable {header : Option String} {first last spec text : List Char} {total n : ℕ} {range : ByteRange}

theorem Number.ne_nil (h : Number text n) : Words.trim isWhitespace text ≠ [] := by
  intro hnil
  rw [Number, hnil] at h
  cases h

theorem parseBound_of_number (h : Number text n) : parseBound (Words.trim isWhitespace text) = .ok n := by
  rw [parseBound, h]

theorem parseBound_of_not_number (h : ∀ n, ¬ Number text n) :
    parseBound (Words.trim isWhitespace text) = .error (.refused .malformed) := by
  rw [parseBound, Option.eq_none_iff_forall_ne_some.mpr h]

def ByteWindow.Covers (w : ByteWindow) (total : ℕ) (range : ByteRange) : Prop :=
  w.start ≤ w.last ∧ w.last < total ∧ ∀ i, w.start ≤ i ∧ i ≤ w.last ↔ range.Names total i

/-- **A range** is answered by its bytes, or refused if it has none. -/
theorem parseWindow_of_spelled (htotal : 0 < total) (hsplit : splitOnce ['-'] spec = some (first, last))
    (h : range.Spelled first last) :
    (∃ w, parseWindow spec total = .ok w ∧ w.Covers total range) ∨
      parseWindow spec total = .error (.refused .unsatisfiable) ∧ ∀ i, ¬ range.Names total i := by
  simp only [parseWindow, hsplit, Checked.sub_of_le (Nat.one_le_of_lt htotal)]
  cases h with
  | @suffix n hfirst hlast =>
    rw [if_pos hfirst, parseBound_of_number hlast]
    by_cases hzero : n = 0
    · refine .inr ⟨by simp [hzero, bind, Except.bind], ?_⟩
      rintro i ⟨hi, hle⟩
      omega
    · refine .inl ⟨⟨total - n, total - 1⟩, by simp [hzero, bind, Except.bind, pure, Except.pure], ?_⟩
      simp only [ByteWindow.Covers, ByteRange.Names]
      exact ⟨by omega, by omega, fun i => by omega⟩
  | @starting n hfirst hlast =>
    rw [if_neg hfirst.ne_nil, parseBound_of_number hfirst]
    by_cases hle : total ≤ n
    · refine .inr ⟨by simp [hle, bind, Except.bind], ?_⟩
      rintro i ⟨hi, hle⟩
      omega
    · refine .inl ⟨⟨n, total - 1⟩, ?_, ?_⟩
      · simp only [bind, Except.bind, if_neg hle, hlast, if_true, pure, Except.pure]
        rw [if_neg (by omega)]
      · simp only [ByteWindow.Covers, ByteRange.Names]
        exact ⟨by omega, by omega, fun i => by omega⟩
  | @between n m hfirst hlast hnm =>
    rw [if_neg hfirst.ne_nil, parseBound_of_number hfirst]
    by_cases hle : total ≤ n
    · refine .inr ⟨by simp [hle, bind, Except.bind], ?_⟩
      rintro i ⟨hi, hle, -⟩
      omega
    · refine .inl ⟨⟨n, min m (total - 1)⟩, ?_, ?_⟩
      · simp only [bind, Except.bind, if_neg hle, if_neg hlast.ne_nil, parseBound_of_number hlast, pure, Except.pure]
        rw [if_neg (by omega)]
      · simp only [ByteWindow.Covers, ByteRange.Names]
        exact ⟨by omega, by omega, fun i => by omega⟩

theorem PastEnd.not_spelled (h : PastEnd first last total) : ¬ range.Spelled first last := by
  obtain ⟨n, hn, -, hlast, hbefore⟩ := h
  intro hrange
  cases hrange with
  | suffix hfirst => exact hn.ne_nil hfirst
  | starting hfirst hblank => exact hlast hblank
  | @between n' m hfirst hm hle =>
    obtain rfl : n = n' := Option.some.inj (hn.symm.trans hfirst)
    exact absurd (hbefore m hm) (by omega)

/-- **What is no range** is ignored, unless it begins past the end. -/
theorem parseWindow_of_not_spelled (htotal : 0 < total) (hsplit : splitOnce ['-'] spec = some (first, last))
    (h : ∀ range : ByteRange, ¬ range.Spelled first last) :
    PastEnd first last total ∧ parseWindow spec total = .error (.refused .unsatisfiable) ∨
      ¬ PastEnd first last total ∧ parseWindow spec total = .error (.refused .malformed) := by
  simp only [parseWindow, hsplit, Checked.sub_of_le (Nat.one_le_of_lt htotal)]
  by_cases hfirst : Words.trim isWhitespace first = []
  · have hlast : ∀ n, ¬ Number last n := fun n hn => h _ (.suffix hfirst hn)
    rw [if_pos hfirst, parseBound_of_not_number hlast]
    exact .inr ⟨fun ⟨n, hn, _⟩ => hn.ne_nil hfirst, rfl⟩
  · rw [if_neg hfirst]
    by_cases hnumber : ∃ n, Number first n
    · obtain ⟨n, hn⟩ := hnumber
      have hlast : Words.trim isWhitespace last ≠ [] := fun hblank => h _ (.starting hn hblank)
      have hbefore : ∀ m, Number last m → m < n := fun m hm => by
        by_contra hle
        exact h _ (.between hn hm (by omega))
      have hpast : PastEnd first last total ↔ total ≤ n :=
        ⟨fun ⟨n', hn', hle, _⟩ => Option.some.inj (hn.symm.trans hn') ▸ hle, fun hle => ⟨n, hn, hle, hlast, hbefore⟩⟩
      rw [parseBound_of_number hn, hpast]
      by_cases hle : total ≤ n
      · exact .inl ⟨hle, by simp [bind, Except.bind, hle]⟩
      · refine .inr ⟨hle, ?_⟩
        by_cases hm : ∃ m, Number last m
        · obtain ⟨m, hm⟩ := hm
          have hmn := hbefore m hm
          simp only [bind, Except.bind, if_neg hle, if_neg hlast, parseBound_of_number hm, pure, Except.pure]
          rw [if_pos (by omega)]
        · simp [bind, Except.bind, hle, hlast, parseBound_of_not_number (not_exists.mp hm)]
    · rw [parseBound_of_not_number (not_exists.mp hnumber)]
      exact .inr ⟨fun ⟨n, hn, _⟩ => hnumber ⟨n, hn⟩, rfl⟩

/-! ### A header -/

theorem map_splitOn_eq_singleton {only : List Char} :
    (spec.splitOn ',').map (Words.trim isWhitespace) = [only] ↔ ',' ∉ spec ∧ Words.trim isWhitespace spec = only := by
  constructor
  · intro h
    obtain ⟨part, hsplit, hpart⟩ := List.map_eq_singleton_iff.mp h
    obtain ⟨-, hcomma, hjoin⟩ := Words.splitOn_eq_iff.mp hsplit
    obtain rfl : part = spec := by simpa using hjoin
    exact ⟨hcomma part List.mem_cons_self, hpart⟩
  · rintro ⟨hcomma, rfl⟩
    have hsplit : spec.splitOn ',' = [spec] :=
      Words.splitOn_eq_iff.mpr ⟨by simp, by simpa using hcomma, by simp⟩
    rw [hsplit, List.map_singleton]

theorem onlySpec_eq_some {only : List Char} : onlySpec header = some only ↔ ∃ text unit spec, header = some text ∧
    Words.trim isWhitespace text.toList = unit ++ spec ∧ unit.map Char.toLower = "bytes=".toList ∧ ',' ∉ spec ∧
    Words.trim isWhitespace spec = only := by
  have hone : ∀ l : List (List Char), (match l with | [only] => some only | _ => none) = some only ↔ l = [only] := by
    intro l
    match l with
    | [] => simp
    | [part] => simp
    | _ :: _ :: _ => simp
  simp only [onlySpec, Option.bind_eq_bind, Option.bind_eq_some_iff, Option.filter_eq_some_iff, Option.map_eq_some_iff,
    rangeSpec_eq_some, decide_eq_true_eq, hone, map_splitOn_eq_singleton]
  constructor
  · rintro ⟨raw, ⟨⟨text, htext, rfl⟩, -⟩, spec, ⟨unit, htrim, hunit⟩, hcomma, honly⟩
    exact ⟨text, unit, spec, htext, htrim, hunit, hcomma, honly⟩
  · rintro ⟨text, unit, spec, htext, htrim, hunit, hcomma, honly⟩
    refine ⟨_, ⟨⟨text, htext, rfl⟩, fun hnil => ?_⟩, spec, ⟨unit, htrim, hunit⟩, hcomma, honly⟩
    rw [htrim, List.append_eq_nil_iff] at hnil
    rw [hnil.1] at hunit
    cases hunit

theorem specifies_iff : Specifies header first last ↔
    ∃ only, onlySpec header = some only ∧ splitOnce ['-'] only = some (first, last) := by
  simp only [onlySpec_eq_some]
  constructor
  · rintro ⟨text, unit, spec, htext, htrim, hunit, hcomma, hsplit⟩
    exact ⟨_, ⟨text, unit, spec, htext, htrim, hunit, hcomma, rfl⟩, hsplit⟩
  · rintro ⟨only, ⟨text, unit, spec, htext, htrim, hunit, hcomma, rfl⟩, hsplit⟩
    exact ⟨text, unit, spec, htext, htrim, hunit, hcomma, hsplit⟩

theorem decide_of_not_specifies (h : ∀ first last, ¬ Specifies header first last) :
    RangePlan.decide header total = .ok .whole := by
  simp only [specifies_iff, not_exists, not_and] at h
  unfold RangePlan.decide
  split_ifs with hzero
  · rfl
  · cases honly : onlySpec header with
    | none => rfl
    | some only =>
      have hsplit : splitOnce ['-'] only = none :=
        Option.eq_none_iff_forall_ne_some.mpr fun parts => h parts.1 parts.2 only honly
      simp only [parseWindow, hsplit]

theorem follows_whole (h : total = 0 ∨ ∀ range, ¬ Asks header range) : Follows header total .whole where
  whole := iff_of_true rfl h
  unsatisfiable t := by
    refine iff_of_false nofun ?_
    rintro ⟨-, hpos, range, hasks, -⟩
    exact h.elim hpos.ne' fun hnone => hnone range hasks
  window := nofun

theorem Specifies.unique {first' last' : List Char} (h : Specifies header first last)
    (h' : Specifies header first' last') : first = first' ∧ last = last' := by
  obtain ⟨only, honly, hsplit⟩ := specifies_iff.mp h
  obtain ⟨only', honly', hsplit'⟩ := specifies_iff.mp h'
  obtain rfl : only = only' := Option.some.inj (honly.symm.trans honly')
  simpa using hsplit.symm.trans hsplit'

theorem Specifies.asks_iff (h : Specifies header first last) : Asks header range ↔ range.Spelled first last := by
  refine ⟨?_, fun hrange => ⟨first, last, h, hrange⟩⟩
  rintro ⟨first', last', h', hrange⟩
  obtain ⟨rfl, rfl⟩ := h.unique h'
  exact hrange

theorem Specifies.overlooked_iff (h : Specifies header first last) (htotal : 0 < total) :
    Overlooked header total ↔ PastEnd first last total := by
  refine ⟨?_, fun hpast => ⟨htotal, first, last, h, hpast⟩⟩
  rintro ⟨-, first', last', h', hpast⟩
  obtain ⟨rfl, rfl⟩ := h.unique h'
  exact hpast

theorem ByteRange.Spelled.unique {range' : ByteRange} (h : range.Spelled first last)
    (h' : range'.Spelled first last) : range = range' := by
  have hnumber : ∀ {text : List Char} {n n' : ℕ}, Number text n → Number text n' → n = n' :=
    fun hn hn' => Option.some.inj (hn.symm.trans hn')
  cases h with
  | suffix hfirst hlast =>
    cases h' with
    | suffix _ hlast' => rw [hnumber hlast hlast']
    | starting hfirst' => exact absurd hfirst hfirst'.ne_nil
    | between hfirst' => exact absurd hfirst hfirst'.ne_nil
  | starting hfirst hlast =>
    cases h' with
    | suffix hblank => exact absurd hblank hfirst.ne_nil
    | starting hfirst' => rw [hnumber hfirst hfirst']
    | between _ hlast' => exact absurd hlast hlast'.ne_nil
  | between hfirst hlast =>
    cases h' with
    | suffix hblank => exact absurd hblank hfirst.ne_nil
    | starting _ hblank => exact absurd hblank hlast.ne_nil
    | between hfirst' hlast' => rw [hnumber hfirst hfirst', hnumber hlast hlast']

/-- **A header that asks for a range** is answered rightly. -/
theorem decide_of_asks (htotal : 0 < total) (h : Asks header range) :
    ∃ plan, RangePlan.decide header total = .ok plan ∧ Follows header total plan := by
  obtain ⟨first, last, hspec, hrange⟩ := h
  obtain ⟨only, honly, hsplit⟩ := specifies_iff.mp hspec
  have hasks : Asks header range := ⟨first, last, hspec, hrange⟩
  have hone : ∀ range', Asks header range' → range' = range :=
    fun range' hasks' => (hspec.asks_iff.mp hasks').unique hrange
  have hwhole : ¬ (total = 0 ∨ ∀ range, ¬ Asks header range) := not_or.mpr ⟨htotal.ne', fun hnone => hnone range hasks⟩
  simp only [RangePlan.decide, if_neg htotal.ne', honly]
  rcases parseWindow_of_spelled htotal hsplit hrange with ⟨w, hparse, hle, hlt, hcovers⟩ | ⟨hparse, hnone⟩
  · rw [hparse]
    refine ⟨_, rfl, iff_of_false nofun hwhole, fun t => iff_of_false nofun ?_, fun w' t hplan => ?_⟩
    · rintro ⟨-, -, range', hasks', hnone⟩
      obtain rfl := hone range' hasks'
      exact hnone w.start ((hcovers w.start).mp ⟨Nat.le_refl _, hle⟩)
    · obtain ⟨rfl, rfl⟩ : w = w' ∧ total = t := by simpa using hplan
      exact ⟨rfl, hle, hlt, range, hasks, hcovers⟩
  · rw [hparse]
    refine ⟨_, rfl, iff_of_false nofun hwhole, fun t => ?_, nofun⟩
    rw [RangePlan.unsatisfiable.injEq]
    exact ⟨fun ht => ⟨ht.symm, htotal, range, hasks, hnone⟩, fun h => h.1.symm⟩

/-- **The answer is right, and nothing overflows**, just when the header is not one whose fault is
overlooked. -/
theorem decide_follows_iff (header : Option String) (total : ℕ) :
    (∃ plan, RangePlan.decide header total = .ok plan ∧ Follows header total plan) ↔ ¬ Overlooked header total := by
  by_cases hspec : 0 < total ∧ ∃ first last, Specifies header first last
  · obtain ⟨htotal, first, last, hspec⟩ := hspec
    rw [hspec.overlooked_iff htotal]
    by_cases hrange : ∃ range : ByteRange, range.Spelled first last
    · obtain ⟨range, hrange⟩ := hrange
      exact iff_of_true (decide_of_asks htotal (hspec.asks_iff.mpr hrange)) fun hpast => hpast.not_spelled hrange
    · have hnone : ∀ range, ¬ Asks header range := fun range hasks => hrange ⟨range, hspec.asks_iff.mp hasks⟩
      obtain ⟨only, honly, hsplit⟩ := specifies_iff.mp hspec
      simp only [RangePlan.decide, if_neg htotal.ne', honly]
      rcases parseWindow_of_not_spelled htotal hsplit (not_exists.mp hrange) with ⟨hpast, hparse⟩ | ⟨hpast, hparse⟩
      · rw [hparse]
        refine iff_of_false ?_ (not_not.mpr hpast)
        rintro ⟨plan, hplan, hfollows⟩
        cases hplan
        obtain ⟨-, -, range, hasks, -⟩ := (hfollows.unsatisfiable total).mp rfl
        exact hnone range hasks
      · rw [hparse]
        exact iff_of_true ⟨_, rfl, follows_whole (.inr hnone)⟩ hpast
  · refine iff_of_true ⟨.whole, ?_, follows_whole ?_⟩ fun ⟨htotal, first, last, h, _⟩ => hspec ⟨htotal, first, last, h⟩
    · by_cases hzero : total = 0
      · rw [RangePlan.decide, if_pos hzero]
      · exact decide_of_not_specifies fun first last h => hspec ⟨Nat.pos_of_ne_zero hzero, first, last, h⟩
    · by_cases hzero : total = 0
      · exact .inl hzero
      · exact .inr fun range ⟨first, last, h, _⟩ => hspec ⟨Nat.pos_of_ne_zero hzero, first, last, h⟩

example : RangePlan.decide (some "Bytes= 90-9999") 100 = .ok (.window ⟨90, 99⟩ 100) := by decide +kernel

/-- `bytes=500-1`, of a hundred bytes. -/
theorem reversed_refused : ¬ ∃ plan, RangePlan.decide (some "bytes=500-1") 100 = .ok plan ∧
    Follows (some "bytes=500-1") 100 plan := by
  rintro ⟨plan, hplan, hfollows⟩
  obtain rfl : RangePlan.unsatisfiable 100 = plan := by
    have hdecide : RangePlan.decide (some "bytes=500-1") 100 = .ok (.unsatisfiable 100) := by decide +kernel
    exact Except.ok.inj (hdecide.symm.trans hplan)
  obtain ⟨-, -, range, ⟨first, last, hspec, hrange⟩, -⟩ := (hfollows.unsatisfiable 100).mp rfl
  obtain ⟨rfl, rfl⟩ : first = "500".toList ∧ last = "1".toList := by
    refine hspec.unique ⟨"bytes=500-1", "bytes=".toList, "500-1".toList, rfl, ?_⟩
    decide +kernel
  cases hrange with
  | suffix hfirst => exact absurd hfirst (by decide)
  | starting _ hlast => exact absurd hlast (by decide)
  | between hfirst hlast hle =>
    obtain rfl := Option.some.inj (hfirst.symm.trans (show parseU64 _ = some 500 by decide +kernel))
    obtain rfl := Option.some.inj (hlast.symm.trans (show parseU64 _ = some 1 by decide +kernel))
    exact absurd hle (by decide)

end Media

end Omnion
