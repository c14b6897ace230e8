import Mathlib.Algebra.Group.Nat.Defs
import Mathlib.Data.List.Basic
import Mathlib.Data.Nat.Notation

/-!
# Base64url

`crates/core/src/base64url.rs`: the encoding without padding that every Web Push value travels
in. A text is its bytes; a character outside ASCII is more than one, none of them of the alphabet.

## What is proved

* `decode_accepts_iff` — which texts are decoded.
-/

namespace Omnion.Base64Url

/-- The URL-safe alphabet, in value order. -/
def alphabet : List UInt8 :=
  "ABCDEFGHIJKLMNOPQRSTUVWXYZabcdefghijklmnopqrstuvwxyz0123456789-_".toList.map fun c => UInt8.ofNat c.toNat

/-- The value of one alphabet character. -/
def valueOf (byte : UInt8) : Option ℕ := alphabet.idxOf? byte

def character (value : ℕ) : UInt8 := alphabet.getD value 0

/-- The byte of a group that begins at a bit. -/
def byteAt (bits shift : ℕ) : UInt8 := UInt8.ofNat (bits / 2 ^ shift)

/-- Decode base64url. A group of one character encodes nothing. -/
def decode : List UInt8 → Option (List UInt8)
  | [] => some []
  | [_] => none
  | [a, b] => do
    let bits := ((← valueOf a) * 64 + (← valueOf b)) * 64 ^ 2
    some [byteAt bits 16]
  | [a, b, c] => do
    let bits := (((← valueOf a) * 64 + (← valueOf b)) * 64 + (← valueOf c)) * 64
    some [byteAt bits 16, byteAt bits 8]
  | a :: b :: c :: d :: rest => do
    let bits := (((← valueOf a) * 64 + (← valueOf b)) * 64 + (← valueOf c)) * 64 + (← valueOf d)
    let rest ← decode rest
    some (byteAt bits 16 :: byteAt bits 8 :: byteAt bits 0 :: rest)

/-- The character of a group that begins at a bit. -/
def characterAt (bits shift : ℕ) : UInt8 := character (bits / 2 ^ shift % 64)

/-- Encode base64url. -/
def encode : List UInt8 → List UInt8
  | [] => []
  | [a] =>
    let bits := a.toNat * 256 ^ 2
    [characterAt bits 18, characterAt bits 12]
  | [a, b] =>
    let bits := (a.toNat * 256 + b.toNat) * 256
    [characterAt bits 18, characterAt bits 12, characterAt bits 6]
  | a :: b :: c :: rest =>
    let bits := (a.toNat * 256 + b.toNat) * 256 + c.toNat
    characterAt bits 18 :: characterAt bits 12 :: characterAt bits 6 :: characterAt bits 0 :: encode rest

/-- The value of a character, by its range. -/
def rank (byte : UInt8) : ℕ :=
  if byte.toNat < 0x30 then 62 else if byte.toNat < 0x41 then byte.toNat + 4
  else if byte.toNat < 0x5b then byte.toNat - 65 else if byte.toNat = 0x5f then 63 else byte.toNat - 71

theorem rank_alphabet : alphabet.map rank = List.range 64 := by
  have htext : "ABCDEFGHIJKLMNOPQRSTUVWXYZabcdefghijklmnopqrstuvwxyz0123456789-_".toList = _ := String.toList_ofList
  refine (congrArg (fun l => (l.map fun c => UInt8.ofNat c.toNat).map rank) htext).trans ?_
  decide +kernel

theorem idxOf?_getD {α : Type} [DecidableEq α] {l : List α} {rank : α → ℕ} {n : ℕ} (h : l.map rank = List.range n)
    (d : α) {i : ℕ} (hi : i < n) : l.idxOf? (l.getD i d) = some i := by
  have hlength : l.length = n := by simpa using congrArg List.length h
  have hrank : ∀ j (hj : j < l.length), rank l[j] = j := by
    intro j hj
    have hj' : (l.map rank)[j]? = (List.range n)[j]? := by rw [h]
    simpa [hj, hlength ▸ hj] using hj'
  have hi' : i < l.length := hlength ▸ hi
  have hget : l.getD i d = l[i] := by simp [hi']
  rw [List.idxOf?, List.findIdx?_eq_some_iff_getElem]
  refine ⟨hi', by rw [hget]; exact beq_self_eq_true _, fun j hj hsame => ?_⟩
  have hplace := hrank j (Nat.lt_trans hj hi')
  rw [hget] at hsame
  rw [beq_iff_eq.mp hsame, hrank i hi'] at hplace
  omega

theorem valueOf_character : ∀ value < 64, valueOf (character value) = some value :=
  fun _ => idxOf?_getD rank_alphabet 0

@[simp] theorem valueOf_characterAt (bits shift : ℕ) : valueOf (characterAt bits shift) = some
    (bits / 2 ^ shift % 64) :=
  valueOf_character _ (Nat.mod_lt _ (by decide))

theorem byteAt_eq {bits shift : ℕ} {a : UInt8} (h : bits / 2 ^ shift % 256 = a.toNat) : byteAt bits shift = a := by
  rw [← UInt8.toNat_inj, byteAt, UInt8.toNat_ofNat']
  exact h

theorem bits_eq (bits : ℕ) (h : bits < 64 ^ 4) :
    ((bits / 2 ^ 18 % 64 * 64 + bits / 2 ^ 12 % 64) * 64 + bits / 2 ^ 6 % 64) * 64 + bits / 2 ^ 0 % 64 = bits := by
  omega

/-- **The round trip.** -/
theorem decode_encode (raw : List UInt8) : decode (encode raw) = some raw := by
  induction raw using encode.induct with
  | case1 => rfl
  | case2 a =>
    have ha := a.toNat_lt
    have hbits := bits_eq (a.toNat * 256 ^ 2) (by omega)
    rw [show a.toNat * 256 ^ 2 / 2 ^ 6 % 64 = 0 by omega, show a.toNat * 256 ^ 2 / 2 ^ 0 % 64 = 0 by omega] at hbits
    simp only [encode, decode, valueOf_characterAt, Option.bind_eq_bind, Option.bind_some]
    rw [show ∀ n, n * 64 ^ 2 = (n * 64 + 0) * 64 + 0 by omega, hbits, byteAt_eq (a := a) (by omega)]
  | case3 a b =>
    have ha := a.toNat_lt
    have hb := b.toNat_lt
    have hbits := bits_eq ((a.toNat * 256 + b.toNat) * 256) (by omega)
    rw [show (a.toNat * 256 + b.toNat) * 256 / 2 ^ 0 % 64 = 0 by omega] at hbits
    simp only [encode, decode, valueOf_characterAt, Option.bind_eq_bind, Option.bind_some]
    rw [← Nat.add_zero (_ * 64), hbits, byteAt_eq (a := a) (by omega), byteAt_eq (a := b) (by omega)]
  | case4 a b c rest ih =>
    have ha := a.toNat_lt
    have hb := b.toNat_lt
    have hc := c.toNat_lt
    simp only [encode, decode, valueOf_characterAt, Option.bind_eq_bind, Option.bind_some, ih]
    rw [bits_eq _ (by omega), byteAt_eq (a := a) (by omega), byteAt_eq (a := b) (by omega),
      byteAt_eq (a := c) (by omega)]

theorem characterAt_mem (bits shift : ℕ) : characterAt bits shift ∈ alphabet := by
  have hlt : bits / 2 ^ shift % 64 < alphabet.length := Nat.mod_lt _ (by decide)
  rw [characterAt, character, List.getD_eq_getElem?_getD, List.getElem?_eq_getElem hlt, Option.getD_some]
  exact List.getElem_mem hlt

theorem mem_alphabet_of_mem_encode {raw : List UInt8} {byte : UInt8} (h : byte ∈ encode raw) : byte ∈ alphabet := by
  induction raw using encode.induct with
  | case1 => cases h
  | case2 a =>
    simp only [encode, List.mem_cons, List.not_mem_nil, or_false] at h
    rcases h with rfl | rfl <;> exact characterAt_mem _ _
  | case3 a b =>
    simp only [encode, List.mem_cons, List.not_mem_nil, or_false] at h
    rcases h with rfl | rfl | rfl <;> exact characterAt_mem _ _
  | case4 a b c rest ih =>
    simp only [encode, List.mem_cons] at h
    rcases h with rfl | rfl | rfl | rfl | hrest
    · exact characterAt_mem _ _
    · exact characterAt_mem _ _
    · exact characterAt_mem _ _
    · exact characterAt_mem _ _
    · exact ih hrest

theorem valueOf_isSome {byte : UInt8} : (∃ value, valueOf byte = some value) ↔ byte ∈ alphabet := by
  rw [← Option.isSome_iff_exists, valueOf, List.isSome_idxOf?]

theorem length_of_decode {text raw : List UInt8} (h : decode text = some raw) : raw.length = text.length * 3 / 4 := by
  induction text using decode.induct generalizing raw with
  | case1 =>
    cases h
    rfl
  | case2 a => cases h
  | case3 a b =>
    simp only [decode, Option.bind_eq_bind, Option.bind_eq_some_iff, Option.some.injEq] at h
    obtain ⟨_, _, _, _, rfl⟩ := h
    simp
  | case4 a b c =>
    simp only [decode, Option.bind_eq_bind, Option.bind_eq_some_iff, Option.some.injEq] at h
    obtain ⟨_, _, _, _, _, _, rfl⟩ := h
    simp
  | case5 a b c d rest ih =>
    simp only [decode, Option.bind_eq_bind, Option.bind_eq_some_iff, Option.some.injEq] at h
    obtain ⟨_, _, _, _, _, _, _, _, decoded, hdecoded, rfl⟩ := h
    simp only [List.length_cons, ih hdecoded]
    omega

/-- All that is written in the alphabet is decoded, but for a last group of one character. -/
theorem exists_decode_iff {text : List UInt8} :
    (∃ raw, decode text = some raw) ↔ text.length % 4 ≠ 1 ∧ ∀ byte ∈ text, byte ∈ alphabet := by
  simp only [← valueOf_isSome]
  induction text using decode.induct with
  | case1 => simp [decode]
  | case2 a => simp [decode]
  | case3 a b => cases ha : valueOf a <;> cases hb : valueOf b <;> simp [decode, ha, hb]
  | case4 a b c =>
    cases ha : valueOf a <;> cases hb : valueOf b <;> cases hc : valueOf c <;> simp [decode, ha, hb, hc]
  | case5 a b c d rest ih =>
    have hmod : (rest.length + 1 + 1 + 1 + 1) % 4 = rest.length % 4 := by omega
    simp only [List.length_cons, hmod, List.forall_mem_cons, and_left_comm (a := _ ≠ 1), ← ih]
    cases ha : valueOf a <;> cases hb : valueOf b <;> cases hc : valueOf c <;> cases hd : valueOf d <;>
      cases hrest : decode rest <;> simp [decode, ha, hb, hc, hd, hrest]

/-- **What is decoded** is all that is written in the alphabet, but for a last group of one character; and four
characters give three bytes. -/
theorem decode_accepts_iff (text : List UInt8) :
    ((∃ raw, decode text = some raw) ↔ text.length % 4 ≠ 1 ∧ ∀ byte ∈ text, byte ∈ alphabet) ∧
      ∀ raw, decode text = some raw → raw.length = text.length * 3 / 4 :=
  ⟨exists_decode_iff, fun _ => length_of_decode⟩

end Omnion.Base64Url
