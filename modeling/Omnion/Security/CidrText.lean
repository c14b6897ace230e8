import Omnion.Core.NetText
import Omnion.Library.Checked

/-!
# The networks of the IP access rules

`parse_cidr` of `crates/security/src/ip_rules.rs`: what an operator types into a rule, read as the
text of a `cidr` column. The crate `ipnet` is an argument.

## What is proved

* `parseCidr_exact_iff` — the texts that are accepted are the networks with no bit set after
  their prefix, and no refusal overflows but that of a v6 address with the prefix zero.
* `zero_prefix` — where the refusal overflows.
-/

namespace Omnion.Security

open Checked (Halt)

/-- `SecurityError::invalid`. -/
def invalid {α : Type} (message : String) : Except (Halt String) α := .error (.refused message)

/-- The prefix that was typed, or the whole width. -/
def parsePrefix (full : ℕ) : Option (List Char) → Except (Halt String) ℕ
  | none => .ok full
  | some rawPrefix =>
    match Text.parseU8 (Words.trim Text.isWhitespace rawPrefix) with
    | some n => .ok n
    | none => invalid s!"\"{String.ofList rawPrefix}\" is not a prefix length — use a number from 0 to {full}"

/-- How many addresses a prefix covers, as the refusal says. -/
def coveredText (full prefixLen : ℕ) : Except (Halt String) String :=
  if prefixLen = full then .ok "1"
  else do
    let amount ← Checked.sub full prefixLen
    let span ← Checked.shiftLeft (1 : BitVec 128) amount
    pure (toString span.toNat)

/-- The address and the prefix of a text. -/
def parseParts (trimmed : String) : Except (Halt String) (IpAddr × ℕ) :=
  let (addressText, prefixText) :=
    match Text.splitOnce ['/'] trimmed.toList with
    | some (address, length) => (address, some length)
    | none => (trimmed.toList, none)
  match IpAddr.parse (Words.trim Text.isWhitespace addressText) with
  | none =>
    invalid (s!"\"{String.ofList addressText}\" is not an IP address — a rule needs a v4 address like " ++
      "203.0.113.7 or a v6 address like 2001:db8::1")
  | some address => do
    let prefixLen ← parsePrefix address.width prefixText
    pure (address, prefixLen)

variable {Net : Type} [DecidableEq Net] (ipnet : Ipnet Net)

/-- Parse a network. -/
def parseCidr (raw : String) : Except (Halt String) String :=
  let trimmed := Text.trim raw
  if trimmed = "" then invalid "enter a network in CIDR form, for example 203.0.113.0/24 or 2001:db8::/32"
  else do
    let (address, prefixLen) ← parseParts trimmed
    match ipnet.new address prefixLen with
    | none => invalid s!"\"{trimmed}\" is not a usable network: invalid IP prefix length"
    | some network =>
      let canonical := ipnet.trunc network
      if canonical ≠ network then
        let covered ← coveredText address.width prefixLen
        invalid (s!"\"{trimmed}\" sets bits outside its /{prefixLen} — did you mean {ipnet.text canonical}? " ++
          s!"A rule that reads like one address but means /{prefixLen} would cover {covered} addresses")
      else pure (ipnet.text network)

/-! ### What is accepted -/

variable {ipnet : Ipnet Net} {raw text : String} {address : IpAddr} {full n : ℕ}

@[simp] theorem invalid_ne_ok {α : Type} {message : String} {a : α} : invalid message ≠ .ok a := nofun

@[simp] theorem invalid_ne_overflow {α : Type} {message : String} :
    (invalid message : Except (Halt String) α) ≠ .error .overflow :=
  nofun

theorem parsePrefix_ne_overflow {rawPrefix : Option (List Char)} : parsePrefix full rawPrefix ≠ .error .overflow := by
  unfold parsePrefix
  split
  · simp
  · split <;> simp

/-- **The parts of a text** are those of a network it names, if the prefix is not too long. -/
theorem parseParts_eq_ok :
    parseParts (Text.trim raw) = .ok (address, n) ∧ n ≤ address.width ↔ IpAddr.Names raw.toList address n := by
  simp only [parseParts, Text.toList_trim]
  cases hsplit : Text.splitOnce ['/'] (Words.trim Text.isWhitespace raw.toList) with
  | none =>
    rw [IpAddr.names_iff_of_none hsplit]
    dsimp only
    rw [Words.trim_trim]
    cases IpAddr.parse (Words.trim Text.isWhitespace raw.toList) with
    | none => simp
    | some ip =>
      simp only [parsePrefix, bind, Except.bind, pure, Except.pure, Except.ok.injEq, Prod.mk.injEq, Option.some.injEq]
      exact ⟨fun ⟨⟨h, hn⟩, _⟩ => ⟨h, by rw [← h, hn]⟩, fun ⟨h, hn⟩ => ⟨⟨h, by rw [h, hn]⟩, hn.le⟩⟩
  | some parts =>
    obtain ⟨first, second⟩ := parts
    rw [IpAddr.names_iff_of_some hsplit]
    dsimp only
    cases IpAddr.parse (Words.trim Text.isWhitespace first) with
    | none => simp
    | some ip =>
      cases hlength : Text.parseU8 (Words.trim Text.isWhitespace second) with
      | none => simp [parsePrefix, hlength, bind, Except.bind, invalid]
      | some m =>
        simp only [parsePrefix, hlength, bind, Except.bind, pure, Except.pure, Except.ok.injEq, Prod.mk.injEq,
          Option.some.injEq, and_assoc]

theorem parseParts_ne_overflow {trimmed : String} : parseParts trimmed ≠ .error .overflow := by
  unfold parseParts
  dsimp only
  split
  · exact invalid_ne_overflow
  · intro h
    rw [Checked.bind_eq_overflow] at h
    rcases h with h | ⟨n, -, h⟩
    · exact parsePrefix_ne_overflow h
    · cases h

/-- How many addresses are covered is not said of the prefix zero of a v6 address. -/
theorem coveredText_eq_overflow (hn : n ≤ full) (hfull : full ≤ 128) :
    coveredText full n = .error .overflow ↔ full = 128 ∧ n = 0 := by
  unfold coveredText
  split_ifs with h
  · exact iff_of_false (by simp) (by omega)
  · simp only [Checked.sub, if_pos hn, Checked.shiftLeft, bind, Except.bind, pure, Except.pure]
    split_ifs with hamount
    · exact iff_of_false (by simp) (by omega)
    · exact iff_of_true rfl (by omega)

/-- **A text that names a network.** -/
theorem parseCidr_of_names (hdoc : ipnet.Documented) (h : IpAddr.Names raw.toList address n) :
    address.Network n ∧ (∃ text, parseCidr ipnet raw = .ok text) ∨
      ¬ address.Network n ∧ (parseCidr ipnet raw = .error .overflow ↔ address.width = 128 ∧ n = 0) ∧
        ∀ text, parseCidr ipnet raw ≠ .ok text := by
  have hblank : Text.trim raw ≠ "" := fun hempty => h.trim_ne_nil (by rw [← Text.toList_trim, hempty]; rfl)
  obtain ⟨hparts, hle⟩ := parseParts_eq_ok.mpr h
  simp only [parseCidr, if_neg hblank, hparts, bind, Except.bind]
  cases hnew : ipnet.new address n with
  | none => exact absurd hle (hdoc.new_eq_none.mp hnew)
  | some network =>
    dsimp only
    by_cases hnetwork : address.Network n
    · rw [if_neg (not_not.mpr ((hdoc.trunc_eq_self_iff hnew).mpr hnetwork))]
      exact .inl ⟨hnetwork, _, rfl⟩
    · rw [if_pos ((hdoc.trunc_eq_self_iff hnew).not.mpr hnetwork)]
      refine .inr ⟨hnetwork, ?_, ?_⟩
      · rw [← coveredText_eq_overflow hle address.width_le]
        cases coveredText address.width n <;> simp
      · cases coveredText address.width n <;> simp

/-- **A text that names none** is refused. -/
theorem parseCidr_of_not_names (hdoc : ipnet.Documented) (h : ∀ address n, ¬ IpAddr.Names raw.toList address n) :
    ∃ message, parseCidr ipnet raw = invalid message := by
  unfold parseCidr
  dsimp only
  split_ifs with hblank
  · exact ⟨_, rfl⟩
  · cases hparts : parseParts (Text.trim raw) with
    | error stop =>
      cases stop with
      | refused message => exact ⟨message, rfl⟩
      | overflow => exact absurd hparts parseParts_ne_overflow
    | ok parts =>
      obtain ⟨address, n⟩ := parts
      have hlong : ipnet.new address n = none :=
        hdoc.new_eq_none.mpr fun hle => h address n (parseParts_eq_ok.mp ⟨hparts, hle⟩)
      simp only [bind, Except.bind, hlong]
      exact ⟨_, rfl⟩

theorem exists_parseCidr_eq_ok (hdoc : ipnet.Documented) :
    (∃ text, parseCidr ipnet raw = .ok text) ↔ ∃ address n, IpAddr.Names raw.toList address n ∧ address.Network n := by
  constructor
  · rintro ⟨text, htext⟩
    by_cases h : ∃ address n, IpAddr.Names raw.toList address n
    · obtain ⟨address, n, hnames⟩ := h
      rcases parseCidr_of_names hdoc hnames with ⟨hnetwork, -⟩ | ⟨-, -, hrefused⟩
      · exact ⟨address, n, hnames, hnetwork⟩
      · exact absurd htext (hrefused text)
    · obtain ⟨message, hmessage⟩ := parseCidr_of_not_names hdoc fun address n hnames => h ⟨address, n, hnames⟩
      exact absurd (hmessage.symm.trans htext) invalid_ne_ok
  · rintro ⟨address, n, hnames, hnetwork⟩
    exact (parseCidr_of_names hdoc hnames).elim And.right fun h => absurd hnetwork h.1

theorem parseCidr_eq_overflow (hdoc : ipnet.Documented) :
    parseCidr ipnet raw = .error .overflow ↔ ∃ bits, bits ≠ 0 ∧ IpAddr.Names raw.toList (.v6 bits) 0 := by
  constructor
  · intro hoverflow
    by_cases h : ∃ address n, IpAddr.Names raw.toList address n
    · obtain ⟨address, n, hnames⟩ := h
      rcases parseCidr_of_names hdoc hnames with ⟨-, text, htext⟩ | ⟨hnot, hwhen, -⟩
      · rw [htext] at hoverflow
        cases hoverflow
      · obtain ⟨hwidth, rfl⟩ := hwhen.mp hoverflow
        cases address with
        | v4 bits => cases hwidth
        | v6 bits => exact ⟨bits, fun hzero => hnot (Prefixes.network_zero.mpr hzero), hnames⟩
    · obtain ⟨message, hmessage⟩ := parseCidr_of_not_names hdoc fun address n hnames => h ⟨address, n, hnames⟩
      exact absurd (hmessage.symm.trans hoverflow) invalid_ne_overflow
  · rintro ⟨bits, hbits, hnames⟩
    rcases parseCidr_of_names hdoc hnames with ⟨hnetwork, -⟩ | ⟨-, hwhen, -⟩
    · exact absurd (Prefixes.network_zero.mp hnetwork) hbits
    · exact hwhen.mpr ⟨rfl, rfl⟩

/-- **A network is accepted just when no bit is set after its prefix, and nothing overflows**: just
when the text is not that of a v6 address, other than zero, with the prefix zero. -/
theorem parseCidr_exact_iff (hdoc : ipnet.Documented) (raw : String) :
    (parseCidr ipnet raw ≠ .error .overflow ∧
      ((∃ text, parseCidr ipnet raw = .ok text) ↔ ∃ address n, IpAddr.Names raw.toList address n ∧ address.Network n)) ↔
      ¬ ∃ bits, bits ≠ 0 ∧ IpAddr.Names raw.toList (.v6 bits) 0 := by
  rw [and_iff_left (exists_parseCidr_eq_ok hdoc), Ne, parseCidr_eq_overflow hdoc]

theorem parseCidr_exact_v4 : ∃ text, parseCidr (IpNet.crate fun _ => none) "203.0.113.0/24" = .ok text := by
  have hsplit : Text.splitOnce ['/'] (Words.trim Text.isWhitespace "203.0.113.0/24".toList) =
      some ("203.0.113.0".toList, "24".toList) := by decide +kernel
  have hnames : IpAddr.Names "203.0.113.0/24".toList (.v4 0xcb007100#32) 24 :=
    (IpAddr.names_iff_of_some hsplit).mpr ⟨by decide +kernel, by decide +kernel, by decide⟩
  have hnetwork : (IpAddr.v4 0xcb007100#32).Network 24 :=
    (Prefixes.and_mask_eq_self_iff (show 24 ≤ 32 by decide)).mp (by decide)
  have hfits : ¬ ∃ bits, bits ≠ 0 ∧ IpAddr.Names "203.0.113.0/24".toList (.v6 bits) 0 := by
    rintro ⟨bits, -, hzero⟩
    cases (hzero.unique hnames).1
  exact ((parseCidr_exact_iff (IpNet.documented_crate _) _).mpr hfits).2.mpr ⟨_, _, hnames, hnetwork⟩

/-- `2001:db8::/0`. -/
theorem zero_prefix : ¬ (parseCidr (IpNet.crate fun _ => none) "2001:db8::/0" ≠ .error .overflow ∧
    ((∃ text, parseCidr (IpNet.crate fun _ => none) "2001:db8::/0" = .ok text) ↔
      ∃ address n, IpAddr.Names "2001:db8::/0".toList address n ∧ address.Network n)) := by
  have hsplit : Text.splitOnce ['/'] (Words.trim Text.isWhitespace "2001:db8::/0".toList) =
      some ("2001:db8::".toList, "0".toList) := by decide +kernel
  have hnames : IpAddr.Names "2001:db8::/0".toList (.v6 (0x20010db8#128 <<< 96)) 0 :=
    (IpAddr.names_iff_of_some hsplit).mpr ⟨by decide +kernel, by decide +kernel, Nat.zero_le _⟩
  exact fun h => h.1 ((parseCidr_eq_overflow (IpNet.documented_crate _)).mpr ⟨_, by decide, hnames⟩)

end Omnion.Security
