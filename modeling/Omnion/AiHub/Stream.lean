import Mathlib.Algebra.Ring.Int.Defs
import Omnion.Core.Json
import Omnion.Core.Text
import Omnion.Core.Utf8
import Omnion.Library.Frames

/-!
# Streamed answers

`StreamParser` and the loop of `stream_chat` in `crates/ai-hub/src/client.rs`: a provider answers
in events, each some `data:` lines with a blank line behind them, and the bytes come in chunks.

## The model

A text is the list of its characters. `Serde` stands for `serde_json`, which reads the data of an
event and shows a value; nothing is asked of it. `hears n` says whether the caller still listens
when the `n`-th piece of text is sent. Frames are cut off by `Frames.Cutter`; `pushLoop` is the
loop of the code.

## What is proved

* `streamChat_of_steady` — so does one that is cut anywhere else than inside a character and inside
  the CR LF that closes an event, when nothing with data follows `[DONE]` in a later chunk.

## Honest scope

The request, its headers and the transport are left out, and of `AiHubError` what a stream does
not end in.
-/

namespace Omnion.AiHub

open Text (fromUtf8Lossy splitOnce isWhitespace SplitsCharacter)

/-! ### Pieces -/

/-- What a stream can end in. -/
inductive StreamError where
  | upstream (status : ℕ) (message : String)
  | stream (message : String)
  | malformed (message : String)

/-- Characters of a body that a message shows. -/
def MAX_ERROR_BODY : ℕ := 400

/-- Longest answer, in bytes. -/
def MAX_ANSWER_BYTES : ℕ := 4 * 1024 * 1024

/-- Token counts a provider reported. -/
structure ChatUsage where
  promptTokens : Option ℕ
  completionTokens : Option ℕ
  totalTokens : Option ℕ

/-- One decoded piece of a stream. -/
structure StreamPiece where
  content : Option String := none
  finishReason : Option String := none
  usage : Option ChatUsage := none

/-- A finished answer. -/
structure ChatOutcome where
  content : String := ""
  finishReason : Option String := none
  usage : Option ChatUsage := none

/-- The JSON reader and writer. -/
structure Serde where
  fromStr : String → Except String Json
  toString : Json → String

/-- A body, as a message shows it. -/
def trimmed (body : String) : String :=
  let body := Text.trim body
  if body.length ≤ MAX_ERROR_BODY then body else String.ofList (body.toList.take MAX_ERROR_BODY) ++ "…"

/-- Text out of a content field. -/
def contentText : Json → Option String
  | .string text => some text
  | .array parts => some (String.join (parts.filterMap fun part => (part.get "text").bind Json.asStr))
  | _ => none

/-- A count that may be missing, as `Option<u64>` is read. -/
def readCount : Option Json → Option (Option ℕ)
  | none => some none
  | some .null => some none
  | some (.number (.int n)) => if 0 ≤ n ∧ n < 2 ^ 64 then some (some n.toNat) else none
  | some _ => none

/-- `ChatUsage`, out of its fields in order. -/
def usageOf (prompt completion total : Option Json) : Option ChatUsage :=
  match readCount prompt, readCount completion, readCount total with
  | some promptTokens, some completionTokens, some totalTokens => some { promptTokens, completionTokens, totalTokens }
  | _, _, _ => none

/-- `ChatUsage`, out of a value. -/
def readUsage : Json → Option ChatUsage
  | .object fields =>
    usageOf (fields.lookup "prompt_tokens") (fields.lookup "completion_tokens") (fields.lookup "total_tokens")
  | .array [prompt, completion, total] => usageOf (some prompt) (some completion) (some total)
  | _ => none

/-- A provider's error object. -/
def refused (serde : Serde) (value : Json) : Except StreamError Unit :=
  match value.get "error" with
  | none => .ok ()
  | some .null => .ok ()
  | some error => .error (.upstream 200 (((error.get "message").bind Json.asStr).getD (trimmed (serde.toString error))))

/-- Read one JSON frame. -/
def readPiece (serde : Serde) (data : String) : Except StreamError StreamPiece :=
  match serde.fromStr data with
  | .error error => .error (.stream (error ++ ": " ++ trimmed data))
  | .ok value =>
    match refused serde value with
    | .error error => .error error
    | .ok () =>
      let choice := ((value.get "choices").bind Json.asArray).bind List.head?
      let content := (choice.bind fun choice => (choice.get "delta").bind (Json.get "content")).bind contentText
      .ok {
        content := content.filter (· ≠ "")
        finishReason := (choice.bind (Json.get "finish_reason")).bind Json.asStr
        usage := (value.get "usage").bind readUsage }

/-! ### Frames -/

/-- `replace("\r\n", "\n")`. -/
def normalise : List Char → List Char
  | [] => []
  | c :: rest => if c = '\r' ∧ rest.head? = some '\n' then normalise rest else c :: normalise rest

/-- `str::lines`: a line ends with LF, or with CR LF. -/
def lines : List Char → List (List Char)
  | [] => []
  | c :: rest =>
    if c = '\n' then [] :: lines rest
    else if c = '\r' ∧ rest.head? = some '\n' then lines rest
    else (c :: (lines rest).headD []) :: (lines rest).tail

/-- `str::trim_end`. -/
def trimEnd (text : List Char) : List Char := text.rdropWhile isWhitespace

def dataOfLine (line : List Char) : List Char :=
  let line := trimEnd line
  if line = [] ∨ line.head? = some ':' then []
  else if "data:".toList.isPrefixOf line then (line.drop "data:".toList.length).dropWhile isWhitespace
  else []

def dataOf (frame : List Char) : List Char := (lines frame).flatMap dataOfLine

/-- The last event. -/
def isDone (frame : List Char) : Bool := Text.trim (String.ofList (dataOf frame)) = "[DONE]"

/-- The decoder. -/
structure StreamParser where
  buffer : List Char := []
  done : Bool := false

/-- A piece, or what is wrong with it. -/
abbrev Piece := Except StreamError StreamPiece

def decode (serde : Serde) (parser : StreamParser) (frame : List Char) : Option Piece × StreamParser :=
  let data := String.ofList (dataOf frame)
  if data = "" then (none, parser)
  else if Text.trim data = "[DONE]" then (none, { parser with done := true })
  else (some (readPiece serde data), parser)

/-- The loop of `push`: a turn for each whole frame. -/
def pushLoop (serde : Serde) : ℕ → StreamParser → List Piece × StreamParser
  | 0, parser => ([], parser)
  | turns + 1, parser =>
    match splitOnce ['\n', '\n'] parser.buffer with
    | none => ([], parser)
    | some (before, after) =>
      let (piece, parser) := decode serde { parser with buffer := after } (before ++ ['\n', '\n'])
      if parser.done then (piece.toList, parser)
      else
        let (pieces, parser) := pushLoop serde turns parser
        (piece.toList ++ pieces, parser)

/-- Feed one chunk. There are no more turns than characters. -/
def push (serde : Serde) (parser : StreamParser) (chunk : List Char) : List Piece × StreamParser :=
  let buffer := parser.buffer ++ normalise chunk
  pushLoop serde buffer.length { parser with buffer }

/-- Flush a last frame without its blank line. -/
def finish (serde : Serde) (parser : StreamParser) : List Piece :=
  if parser.done ∨ Text.trim (String.ofList parser.buffer) = "" then []
  else (decode serde { parser with buffer := [] } parser.buffer).1.toList

/-! ### Answers -/

/-- Why an answer is over before its stream. -/
inductive Ending where
  | failed (error : StreamError)
  | left

/-- An answer in the making, and the texts that were sent to the caller. -/
structure Answering where
  outcome : ChatOutcome := {}
  deltas : List String := []
  ending : Option Ending := none

/-- The finish reason and the usage of a piece. -/
def Answering.note (answer : Answering) (piece : StreamPiece) : Answering :=
  { answer with outcome := { answer.outcome with
      finishReason := piece.finishReason.or answer.outcome.finishReason
      usage := piece.usage.or answer.outcome.usage } }

/-- The text of a piece. -/
def Answering.say (answer : Answering) (text : String) : Answering :=
  { answer with
    outcome := { answer.outcome with content := answer.outcome.content ++ text }
    deltas := answer.deltas ++ [text] }

/-- A piece of a push. -/
def receive (hears : ℕ → Bool) (answer : Answering) (piece : Piece) : Answering :=
  if answer.ending.isSome then answer
  else
    match piece with
    | .error error => { answer with ending := some (.failed error) }
    | .ok piece =>
      match piece.content with
      | none => answer.note piece
      | some text =>
        if MAX_ANSWER_BYTES < answer.outcome.content.utf8ByteSize + text.utf8ByteSize then
          { answer with ending := some (.failed
              (.stream "the provider sent more than the platform accepts for one answer")) }
        else if !hears (answer.say text).deltas.length then { answer.say text with ending := some .left }
        else (answer.say text).note piece

/-- The piece that is flushed at the end. -/
def receiveLast (answer : Answering) (piece : Piece) : Answering :=
  if answer.ending.isSome then answer
  else
    match piece with
    | .error error => { answer with ending := some (.failed error) }
    | .ok piece =>
      match piece.content with
      | none => answer.note piece
      | some text => (answer.say text).note piece

/-- What is returned. -/
def Answering.conclude (answer : Answering) : Except StreamError ChatOutcome :=
  match answer.ending with
  | some (.failed error) => .error error
  | some .left => .ok answer.outcome
  | none =>
    if answer.outcome.content = "" ∧ answer.outcome.finishReason = none then
      .error (.malformed "the provider streamed no answer and no finish reason")
    else .ok answer.outcome

/-- A chunk of the response, unless the answer is over. -/
def readChunk (serde : Serde) (hears : ℕ → Bool) (state : Answering × StreamParser) (chunk : List UInt8) :
    Answering × StreamParser :=
  if state.1.ending.isSome then state
  else
    let (pieces, parser) := push serde state.2 (fromUtf8Lossy chunk)
    (pieces.foldl (receive hears) state.1, parser)

/-- A conversation, streamed: what the caller was sent, and what is returned. -/
def streamChat (serde : Serde) (hears : ℕ → Bool) (chunks : List (List UInt8)) :
    List String × Except StreamError ChatOutcome :=
  let (answer, parser) := chunks.foldl (readChunk serde hears) ({}, {})
  let answer := (finish serde parser).foldl receiveLast answer
  (answer.deltas, answer.conclude)

/-! ### Whole frames -/

/-- The first whole frame, and what is behind it. -/
def cutFrame (text : List Char) : Option (List Char × List Char) :=
  (splitOnce ['\n', '\n'] text).map fun p => (p.1 ++ ['\n', '\n'], p.2)

theorem cutFrame_eq_none_iff {text : List Char} : cutFrame text = none ↔ splitOnce ['\n', '\n'] text = none :=
  Option.map_eq_none_iff

theorem cutFrame_eq_some_iff {text frame rest : List Char} : cutFrame text = some (frame, rest) ↔
    ∃ before, splitOnce ['\n', '\n'] text = some (before, rest) ∧ before ++ ['\n', '\n'] = frame := by
  rw [cutFrame, Option.map_eq_some_iff]
  constructor
  · rintro ⟨⟨before, after⟩, hsplit, heq⟩
    cases heq
    exact ⟨before, hsplit, rfl⟩
  · rintro ⟨before, hsplit, rfl⟩
    exact ⟨_, hsplit, rfl⟩

/-- A frame ends with a blank line. -/
def blankLine : Frames.Cutter Char (List Char) where
  cut := cutFrame
  shrinks := by
    intro text rest frame h
    obtain ⟨before, hsplit, rfl⟩ := cutFrame_eq_some_iff.mp h
    rw [Text.splitOnce_eq_append hsplit, List.length_append, List.length_append, List.length_cons]
    omega
  stable := by
    intro text rest frame more h
    obtain ⟨before, hsplit, rfl⟩ := cutFrame_eq_some_iff.mp h
    refine cutFrame_eq_some_iff.mpr ⟨before, ?_, rfl⟩
    rw [Text.splitOnce_eq_append hsplit, List.append_assoc, List.append_assoc,
      Text.splitOnce_append (by simp) (Text.first_of_splitOnce (by simp) hsplit)]

/-- What a frame is decoded to. -/
def pieceOf (serde : Serde) (frame : List Char) : Option Piece :=
  if dataOf frame = [] ∨ isDone frame then none else some (readPiece serde (String.ofList (dataOf frame)))

def decoded (serde : Serde) (frames : List (List Char)) : List Piece := frames.filterMap (pieceOf serde)

/-- **What a text answers**: its events in order up to the last one, and what is left behind the last blank line. -/
def answered (serde : Serde) (text : List Char) : List Piece :=
  let taken := blankLine.take isDone text
  decoded serde taken.frames ++ if taken.stopped then [] else decoded serde [taken.rest]

section Pushes

variable {serde : Serde} {parser : StreamParser} {frame text rest : List Char}

theorem decode_eq : decode serde parser frame =
    (pieceOf serde frame, { parser with done := parser.done || isDone frame }) := by
  have hempty : String.ofList (dataOf frame) = "" ↔ dataOf frame = [] := by
    rw [show ("" : String) = String.ofList [] from rfl, String.ofList_inj]
  rw [decode, pieceOf]
  by_cases hdata : dataOf frame = []
  · have hdone : isDone frame = false := by
      rw [isDone, hdata]
      decide
    simp [hdata, hdone]
  · by_cases hdone : Text.trim (String.ofList (dataOf frame)) = "[DONE]"
    · simp [hempty, hdata, hdone, isDone]
    · simp [hempty, hdata, hdone, isDone]

/-- **A push** takes the whole frames, up to the last event. -/
theorem pushLoop_eq (turns : ℕ) (hturns : parser.buffer.length ≤ turns) (hdone : parser.done = false) :
    pushLoop serde turns parser = (decoded serde (blankLine.take isDone parser.buffer).frames,
      ⟨(blankLine.take isDone parser.buffer).rest, (blankLine.take isDone parser.buffer).stopped⟩) := by
  induction turns generalizing parser with
  | zero =>
    have hbuffer : parser.buffer = [] := List.length_eq_zero_iff.mp (by omega)
    rw [pushLoop, hbuffer, Frames.Cutter.take_none (by decide), ← hbuffer, ← hdone]
    rfl
  | succ turns ih =>
    rw [pushLoop]
    cases hsplit : splitOnce ['\n', '\n'] parser.buffer with
    | none =>
      have hcut : blankLine.cut parser.buffer = none := cutFrame_eq_none_iff.mpr hsplit
      rw [Frames.Cutter.take_none hcut, ← hdone]
      rfl
    | some p =>
      obtain ⟨before, after⟩ := p
      have hcut : blankLine.cut parser.buffer = some (before ++ ['\n', '\n'], after) :=
        cutFrame_eq_some_iff.mpr ⟨before, hsplit, rfl⟩
      have hshorter := blankLine.shrinks hcut
      simp only [decode_eq, hdone, Bool.false_or]
      cases hlast : isDone (before ++ ['\n', '\n']) with
      | true =>
        rw [Frames.Cutter.take_stop hcut hlast]
        simp [decoded, pieceOf, hlast]
      | false =>
        rw [Frames.Cutter.take_cons hcut hlast]
        simp only [Bool.false_eq_true, if_false]
        rw [ih (by simp only; omega) rfl]
        simp only [decoded, List.filterMap_cons]
        cases pieceOf serde (before ++ ['\n', '\n']) <;> rfl

theorem pushLoop_done (turns : ℕ) (hdone : parser.done = true) :
    (pushLoop serde turns parser).2.done = true ∧ ((pushLoop serde turns parser).1 ≠ [] → ∃ frame rest,
      cutFrame parser.buffer = some (frame, rest) ∧ ¬ (dataOf frame = [] ∨ isDone frame = true)) := by
  cases turns with
  | zero => exact ⟨hdone, fun h => absurd rfl h⟩
  | succ turns =>
    rw [pushLoop]
    cases hsplit : splitOnce ['\n', '\n'] parser.buffer with
    | none => exact ⟨hdone, fun h => absurd rfl h⟩
    | some p =>
      obtain ⟨before, after⟩ := p
      simp only [decode_eq, hdone, Bool.true_or, if_true]
      refine ⟨trivial, fun h => ⟨_, after, cutFrame_eq_some_iff.mpr ⟨before, hsplit, rfl⟩, fun hnone => h ?_⟩⟩
      rw [pieceOf, if_pos hnone]
      rfl

end Pushes

/-! ### Loose line ends -/

/-- A text with a CR before some line ends: never before one that comes right behind another. The flag says whether a
line end comes before the text. -/
inductive Loose : Bool → List Char → List Char → Prop where
  | nil {fresh : Bool} : Loose fresh [] []
  | cons {fresh : Bool} (c : Char) {text' text : List Char} :
      Loose (c = '\n') text' text → Loose fresh (c :: text') (c :: text)
  /-- A line end with a CR before it. -/
  | crlf {text' text : List Char} : Loose true text' text → Loose false ('\r' :: '\n' :: text') ('\n' :: text)

/-- Whether a line ends where a text does. -/
def endsLine : Bool → List Char → Bool
  | fresh, [] => fresh
  | _, c :: rest => endsLine (c = '\n') rest

section Loosely

variable {fresh : Bool} {text text' more more' : List Char}

theorem Loose.refl (fresh : Bool) (text : List Char) : Loose fresh text text := by
  induction text generalizing fresh with
  | nil => exact .nil
  | cons c rest ih => exact .cons c (ih _)

theorem Loose.weaken (h : Loose true text' text) : Loose false text' text := by
  cases h with
  | nil => exact .nil
  | cons c h => exact .cons c h

theorem Loose.head_eq (h : Loose true text' text) : text'.head? = text.head? := by
  cases h <;> rfl

theorem Loose.endsLine_eq (h : Loose fresh text' text) : endsLine fresh text' = endsLine fresh text := by
  induction h with
  | nil => rfl
  | cons c h ih => exact ih
  | crlf h ih => exact ih

theorem Loose.append (h : Loose fresh text' text) (hmore : Loose (endsLine fresh text) more' more) :
    Loose fresh (text' ++ more') (text ++ more) := by
  induction h with
  | nil => exact hmore
  | cons c h ih => exact .cons c (ih hmore)
  | crlf h ih => exact .crlf (ih hmore)

theorem Loose.eq_of_cr (h : Loose fresh text' (text ++ ['\r'])) :
    ∃ before, text' = before ++ ['\r'] ∧ Loose fresh before text := by
  induction text generalizing fresh text' with
  | nil =>
    cases h with
    | cons c h =>
      cases h
      exact ⟨[], rfl, .nil⟩
  | cons c rest ih =>
    cases h with
    | cons c h =>
      obtain ⟨before, rfl, hbefore⟩ := ih h
      exact ⟨c :: before, rfl, .cons c hbefore⟩
    | crlf h =>
      obtain ⟨before, rfl, hbefore⟩ := ih h
      exact ⟨'\r' :: '\n' :: before, rfl, .crlf hbefore⟩

theorem endsLine_append (fresh : Bool) (text more : List Char) :
    endsLine fresh (text ++ more) = endsLine (endsLine fresh text) more := by
  induction text generalizing fresh with
  | nil => rfl
  | cons c rest ih => exact ih _

/-! What is read of such a text is the same. -/

theorem cutFrame_cons (c : Char) (rest : List Char) : cutFrame (c :: rest) =
    if c = '\n' ∧ rest.head? = some '\n' then some (['\n', '\n'], rest.tail)
    else (cutFrame rest).map fun p => (c :: p.1, p.2) := by
  have hlead : ['\n', '\n'].isPrefixOf (c :: rest) = true ↔ c = '\n' ∧ rest.head? = some '\n' := by
    cases rest with
    | nil => simp [List.isPrefixOf]
    | cons d rest =>
      rw [List.isPrefixOf_iff_prefix, List.cons_prefix_cons, List.cons_prefix_cons, List.head?_cons, Option.some_inj]
      simp [eq_comm (a := '\n')]
  rw [cutFrame, splitOnce]
  by_cases h : c = '\n' ∧ rest.head? = some '\n'
  · rw [if_pos (hlead.mpr h), if_pos h]
    cases rest with
    | nil => simp at h
    | cons d rest => rfl
  · rw [if_neg (hlead.not.mpr h), if_neg h, cutFrame, Option.map_map, Option.map_map]
    rfl

theorem rel_mono {α β : Type*} {P Q : α → β → Prop} {a : Option α} {b : Option β} (h : Option.Rel P a b)
    (himp : ∀ p q, P p q → Q p q) : Option.Rel Q a b := by
  cases h with
  | some h => exact .some (himp _ _ h)
  | none => exact .none

theorem rel_map {α : Type*} {f g : α → α} {P Q : α → α → Prop} {a b : Option α}
    (h : Option.Rel P a b) (hstep : ∀ p q, P p q → Q (f p) (g q)) :
    Option.Rel Q (a.map f) (b.map g) := by
  cases h with
  | some h => exact .some (hstep _ _ h)
  | none => exact .none

/-- **The same frames** are cut off. -/
theorem Loose.cut_rel (h : Loose fresh text' text) :
    Option.Rel (fun p q => Loose fresh p.1 q.1 ∧ Loose true p.2 q.2) (cutFrame text') (cutFrame text) := by
  induction h with
  | nil => exact .none
  | @cons fresh c text' text h ih =>
    have hhead : c = '\n' → text'.head? = text.head? := by
      rintro rfl
      exact h.head_eq
    rw [cutFrame_cons, cutFrame_cons]
    by_cases hblank : c = '\n' ∧ text.head? = some '\n'
    · rw [if_pos ⟨hblank.1, (hhead hblank.1).trans hblank.2⟩, if_pos hblank]
      refine .some ⟨.refl _ _, ?_⟩
      obtain ⟨rfl, hnext⟩ := hblank
      cases h with
      | nil => cases hnext
      | cons d h =>
        cases hnext
        exact h
    · rw [if_neg fun h => hblank ⟨h.1, (hhead h.1).symm.trans h.2⟩, if_neg hblank]
      exact rel_map ih fun p q hpq => ⟨.cons c hpq.1, hpq.2⟩
  | @crlf text' text h ih =>
    rw [cutFrame_cons, if_neg fun h' => absurd h'.1 (by decide), cutFrame_cons, cutFrame_cons]
    by_cases hblank : text.head? = some '\n'
    · rw [if_pos ⟨rfl, h.head_eq.trans hblank⟩, if_pos ⟨rfl, hblank⟩]
      refine .some ⟨.crlf (.refl _ _), ?_⟩
      cases h with
      | nil => cases hblank
      | cons d h =>
        cases hblank
        exact h
    · rw [if_neg fun h' => hblank (h.head_eq.symm.trans h'.2), if_neg fun h' => hblank h'.2, Option.map_map]
      exact rel_map ih fun p q hpq => ⟨.crlf hpq.1, hpq.2⟩

theorem trimEnd_cons_trimEnd (c : Char) (line : List Char) : trimEnd (c :: trimEnd line) = trimEnd (c :: line) := by
  induction line using List.reverseRecOn generalizing c with
  | nil => rfl
  | append_singleton line d ih =>
    by_cases hd : isWhitespace d = true
    · have hline : trimEnd (line ++ [d]) = trimEnd line := List.rdropWhile_concat_pos _ _ _ hd
      rw [hline, ih, trimEnd, trimEnd, ← List.cons_append, List.rdropWhile_concat_pos _ _ _ hd]
    · have hline : trimEnd (line ++ [d]) = line ++ [d] := List.rdropWhile_concat_neg _ _ _ hd
      rw [hline]

theorem lines_trimEnd_cons (c : Char) (rest : List Char) : (lines (c :: rest)).map trimEnd =
    if c = '\n' then [] :: (lines rest).map trimEnd
    else trimEnd (c :: ((lines rest).map trimEnd).headD []) :: ((lines rest).map trimEnd).tail := by
  have hnil : trimEnd [] = [] := rfl
  have hhead : ∀ ls : List (List Char), (ls.map trimEnd).headD [] = trimEnd (ls.headD []) := by
    intro ls
    cases ls <;> rfl
  rw [lines]
  split_ifs with hend hcr
  · rfl
  · obtain ⟨rfl, hnext⟩ := hcr
    cases rest with
    | nil => cases hnext
    | cons d rest =>
      cases hnext
      have hblank : trimEnd ['\r'] = [] := by decide
      rw [lines, if_pos rfl]
      simp [hnil, hblank]
  · rw [hhead, trimEnd_cons_trimEnd, List.map_cons, List.map_tail]

/-- **The same lines** are read, up to white space at their ends. -/
theorem Loose.lines_eq (h : Loose fresh text' text) : (lines text').map trimEnd = (lines text).map trimEnd := by
  induction h with
  | nil => rfl
  | cons c h ih => rw [lines_trimEnd_cons, lines_trimEnd_cons, ih]
  | crlf h ih =>
    have hblank : trimEnd ['\r'] = [] := by decide
    rw [lines_trimEnd_cons, if_neg (by decide), lines_trimEnd_cons, if_pos rfl, lines_trimEnd_cons, if_pos rfl, ih]
    simp [hblank]

theorem dataOfLine_trimEnd (line : List Char) : dataOfLine (trimEnd line) = dataOfLine line := by
  have hidem : trimEnd (trimEnd line) = trimEnd line := List.rdropWhile_idempotent _ _
  rw [dataOfLine, dataOfLine, hidem]

/-- **The same data.** -/
theorem Loose.dataOf_eq (h : Loose fresh text' text) : dataOf text' = dataOf text := by
  have hdata : ∀ text, dataOf text = ((lines text).map trimEnd).flatMap dataOfLine := by
    intro text
    rw [dataOf, List.flatMap_map]
    exact List.flatMap_congr fun line _ => (dataOfLine_trimEnd line).symm
  rw [hdata, hdata, h.lines_eq]

end Loosely

/-! ### Chunks -/

/-- All chunks of a stream, one after the other. -/
def pushAll (serde : Serde) : StreamParser → List (List UInt8) → List Piece × StreamParser
  | parser, [] => ([], parser)
  | parser, chunk :: rest =>
    ((push serde parser (fromUtf8Lossy chunk)).1 ++ (pushAll serde (push serde parser (fromUtf8Lossy chunk)).2 rest).1,
      (pushAll serde (push serde parser (fromUtf8Lossy chunk)).2 rest).2)

/-- The pieces of a stream. -/
def pieces (serde : Serde) (chunks : List (List UInt8)) : List Piece :=
  (pushAll serde {} chunks).1 ++ finish serde (pushAll serde {} chunks).2

/-- The text of a stream. -/
def textOf (bytes : List UInt8) : List Char := normalise (fromUtf8Lossy bytes)

/-- A chunk that comes behind some bytes begins neither inside a character nor between the CR and the LF that close an
event, and completes no event with data behind the last one. -/
structure Clean (before : List UInt8) (parser : StreamParser) (chunk : List UInt8) : Prop where
  whole : parser.done = false → ¬ SplitsCharacter before chunk
  closed : parser.done = false →
    ¬ (['\n', '\r'] <:+ parser.buffer ∧ (fromUtf8Lossy chunk).head? = some '\n')
  quiet : parser.done = true → ∀ frame rest, cutFrame (parser.buffer ++ textOf chunk) = some (frame, rest) →
    dataOf frame = [] ∨ isDone frame = true

/-- Every chunk is clean where it comes. -/
def Steady (serde : Serde) (chunks : List (List UInt8)) : Prop :=
  ∀ before chunk after, chunks = before ++ chunk :: after → Clean before.flatten (pushAll serde {} before).2 chunk

section Chunks

variable {serde : Serde} {parser : StreamParser} {before chunk : List UInt8} {chunks : List (List UInt8)}
  {text more : List Char}

theorem normalise_cons (c : Char) (rest : List Char) : normalise (c :: rest) =
    if c = '\r' ∧ rest.head? = some '\n' then normalise rest else c :: normalise rest := by
  rw [normalise]

/-- Line ends are normalised apart, unless the cut is inside one. -/
theorem normalise_append (text more : List Char) : normalise (text ++ more) = normalise text ++ normalise more ∨
    ∃ body rest, text = body ++ ['\r'] ∧ more = '\n' :: rest ∧ normalise text = normalise body ++ ['\r'] ∧
      normalise (text ++ more) = normalise body ++ normalise more := by
  induction text with
  | nil => exact .inl rfl
  | cons c rest ih =>
    cases rest with
    | nil =>
      by_cases hcr : c = '\r' ∧ more.head? = some '\n'
      · obtain ⟨rfl, hhead⟩ := hcr
        cases more with
        | nil => cases hhead
        | cons d more =>
          cases hhead
          refine .inr ⟨[], more, rfl, rfl, rfl, ?_⟩
          rw [List.singleton_append, normalise_cons, if_pos ⟨rfl, rfl⟩]
          rfl
      · refine .inl ?_
        rw [List.singleton_append, normalise_cons, if_neg hcr]
        rw [normalise_cons, if_neg (by simp)]
        rfl
    | cons d rest =>
      rw [List.cons_append, normalise_cons, normalise_cons c (d :: rest)]
      rcases ih with heq | ⟨body, tail, hbody, rfl, hself, heq⟩
      · refine .inl ?_
        rw [heq]
        split_ifs <;> simp_all
      · have hhead : (c :: body).tail.head? = some '\n' ↔ (d :: rest).head? = some '\n' := by
          rw [hbody, List.tail_cons]
          cases body with
          | nil => simp
          | cons e body => rfl
        have hcons : normalise (c :: body) = if c = '\r' ∧ (d :: rest).head? = some '\n' then normalise body
            else c :: normalise body := by
          rw [normalise_cons]
          exact if_congr (and_congr_right fun _ => hhead) rfl rfl
        refine .inr ⟨c :: body, tail, by rw [hbody]; rfl, rfl, ?_, ?_⟩
        · rw [hcons, hself]
          split_ifs <;> rfl
        · rw [hcons]
          by_cases hdrop : c = '\r' ∧ (d :: rest).head? = some '\n'
          · rw [if_pos hdrop]
            exact (if_pos hdrop).trans heq
          · rw [if_neg hdrop]
            exact (if_neg hdrop).trans (congrArg (c :: ·) heq)

theorem cutFrame_concat {c : Char} (hc : c ≠ '\n') (h : cutFrame text = none) : cutFrame (text ++ [c]) = none := by
  induction text with
  | nil =>
    rw [List.nil_append, cutFrame_cons, if_neg fun h => hc h.1]
    rfl
  | cons d rest ih =>
    rw [cutFrame_cons] at h
    split_ifs at h with hblank
    rw [List.cons_append, cutFrame_cons, if_neg, ih (Option.map_eq_none_iff.mp h), Option.map_none]
    rintro ⟨rfl, hhead⟩
    cases rest with
    | nil => exact hc (Option.some.inj hhead)
    | cons e rest => exact hblank ⟨rfl, hhead⟩

theorem take_concat {c : Char} (hc : c ≠ '\n') (text : List Char) : blankLine.take isDone (text ++ [c]) =
    { blankLine.take isDone text with rest := (blankLine.take isDone text).rest ++ [c] } := by
  cases hstopped : (blankLine.take isDone text).stopped with
  | true => exact Frames.Cutter.take_append_of_stopped hstopped _
  | false =>
    have hnone : blankLine.cut ((blankLine.take isDone text).rest ++ [c]) = none :=
      cutFrame_concat hc (Frames.Cutter.cut_rest hstopped)
    rw [Frames.Cutter.take_append hstopped, Frames.Cutter.take_none hnone, List.append_nil]
    simp only [hstopped]

theorem take_append_stays (h : (blankLine.take isDone text).stopped = true) (more : List Char) :
    (blankLine.take isDone (text ++ more)).frames = (blankLine.take isDone text).frames ∧
      (blankLine.take isDone (text ++ more)).stopped = true := by
  rw [Frames.Cutter.take_append_of_stopped h]
  exact ⟨rfl, h⟩

/-- **Bytes behind the last event** change nothing, wherever they are cut. -/
theorem take_textOf_stays (h : (blankLine.take isDone (textOf before)).stopped = true) (chunk : List UInt8) :
    (blankLine.take isDone (textOf (before ++ chunk))).frames = (blankLine.take isDone (textOf before)).frames ∧
      (blankLine.take isDone (textOf (before ++ chunk))).stopped = true := by
  obtain ⟨read, last, hbefore, hlast, hmore⟩ := Text.exists_fromUtf8Lossy_append before
  obtain ⟨more, hmore⟩ := hmore chunk
  -- the last event is complete before the bytes that may be a part of a character
  have htake : ∀ body,
      (blankLine.take isDone (normalise body ++ ['\r'])).frames = (blankLine.take isDone (normalise body)).frames ∧
      (blankLine.take isDone (normalise body ++ ['\r'])).stopped =
        (blankLine.take isDone (normalise body)).stopped := by
    intro body
    rw [take_concat (by decide)]
    exact ⟨rfl, rfl⟩
  have hread : (blankLine.take isDone (textOf before)).frames = (blankLine.take isDone (normalise read)).frames ∧
      (blankLine.take isDone (textOf before)).stopped = (blankLine.take isDone (normalise read)).stopped := by
    rw [textOf, hbefore]
    rcases hlast with rfl | rfl
    · rw [List.append_nil]
      exact ⟨rfl, rfl⟩
    · rcases normalise_append read [Text.REPLACEMENT_CHARACTER] with heq | ⟨_, _, _, heq, _⟩
      · rw [heq, show normalise [Text.REPLACEMENT_CHARACTER] = [Text.REPLACEMENT_CHARACTER] from rfl,
          take_concat (by decide)]
        exact ⟨rfl, rfl⟩
      · exact absurd (List.cons.inj heq).1 (by decide)
  rw [hread.1]
  rw [hread.2] at h
  rw [textOf, hmore]
  rcases normalise_append read more with heq | ⟨body, _, _, _, hself, heq⟩
  · rw [heq]
    exact take_append_stays h _
  · rw [hself, (htake body).2] at h
    rw [heq, hself, (htake body).1]
    exact take_append_stays h _

theorem push_eq (hdone : parser.done = false) : push serde parser (fromUtf8Lossy chunk) =
    (decoded serde (blankLine.take isDone (parser.buffer ++ textOf chunk)).frames,
      ⟨(blankLine.take isDone (parser.buffer ++ textOf chunk)).rest,
        (blankLine.take isDone (parser.buffer ++ textOf chunk)).stopped⟩) :=
  pushLoop_eq _ le_rfl hdone

theorem push_of_quiet (hquiet : ∀ frame rest, cutFrame (parser.buffer ++ textOf chunk) = some (frame, rest) →
      dataOf frame = [] ∨ isDone frame = true) (hdone : parser.done = true) :
    (push serde parser (fromUtf8Lossy chunk)).2.done = true ∧ (push serde parser (fromUtf8Lossy chunk)).1 = [] := by
  obtain ⟨hdone', hsome⟩ : (push serde parser (fromUtf8Lossy chunk)).2.done = true ∧
      ((push serde parser (fromUtf8Lossy chunk)).1 ≠ [] → ∃ frame rest,
        cutFrame (parser.buffer ++ textOf chunk) = some (frame, rest) ∧ ¬ (dataOf frame = [] ∨ isDone frame = true)) :=
    pushLoop_done _ hdone
  refine ⟨hdone', ?_⟩
  by_contra hne
  obtain ⟨frame, rest, hcut, hdata⟩ := hsome hne
  exact hdata (hquiet frame rest hcut)

/-- What a parser is in when some bytes were pushed: the pieces are those of the whole events in them, and the rest is
kept, with loose line ends. -/
structure Follows (serde : Serde) (before : List UInt8) (parser : StreamParser) (yielded : List Piece) : Prop where
  yielded : yielded = decoded serde (blankLine.take isDone (textOf before)).frames
  done : parser.done = (blankLine.take isDone (textOf before)).stopped
  buffer : parser.done = false → Loose false parser.buffer (blankLine.take isDone (textOf before)).rest

theorem decoded_congr {frames frames' : List (List Char)}
    (h : List.Forall₂ (fun f g => dataOf f = dataOf g) frames' frames) :
    decoded serde frames' = decoded serde frames := by
  induction h with
  | nil => rfl
  | @cons frame' frame _ _ hdata _ ih =>
    have hpiece : pieceOf serde frame' = pieceOf serde frame := by
      rw [pieceOf, pieceOf, isDone, isDone, hdata]
    rw [decoded] at ih ⊢
    rw [decoded, List.filterMap_cons, List.filterMap_cons, hpiece, ih]
    rfl

theorem Loose.take_rel {text' : List Char} (h : Loose false text' text) :
    List.Forall₂ (fun f g => dataOf f = dataOf g) (blankLine.take isDone text').frames
        (blankLine.take isDone text).frames ∧
      (blankLine.take isDone text').stopped = (blankLine.take isDone text).stopped ∧
      Loose false (blankLine.take isDone text').rest (blankLine.take isDone text).rest := by
  refine Frames.Cutter.take_rel (fun hxy => ?_) (fun hdata => ?_) h
  · exact rel_mono hxy.cut_rel fun p q hpq => ⟨hpq.1.dataOf_eq, hpq.2.weaken⟩
  · rw [isDone, isDone, hdata]

theorem endsLine_of_not_suffix {body : List Char} (h : ¬ ['\n', '\r'] <:+ body ++ ['\r']) :
    endsLine false body = false := by
  rcases List.eq_nil_or_concat body with rfl | ⟨front, c, rfl⟩
  · rfl
  · rw [List.concat_eq_append, endsLine_append, endsLine]
    refine decide_eq_false fun hc => h ⟨front, ?_⟩
    rw [hc]
    simp

/-- **A clean chunk** goes on where what is left of the text before it does. -/
theorem Follows.joined {yielded : List Piece} (h : Follows serde before parser yielded)
    (hclean : Clean before parser chunk) (hdone : parser.done = false) :
    ∃ head rest, textOf (before ++ chunk) = head ++ rest ∧
      (blankLine.take isDone head).frames = (blankLine.take isDone (textOf before)).frames ∧
      (blankLine.take isDone head).stopped = false ∧
      Loose false (parser.buffer ++ textOf chunk) ((blankLine.take isDone head).rest ++ rest) := by
  have hstopped : (blankLine.take isDone (textOf before)).stopped = false := h.done.symm.trans hdone
  have hbuffer := h.buffer hdone
  rw [textOf, (Text.fromUtf8Lossy_append_iff before chunk).mpr (hclean.whole hdone)]
  rcases normalise_append (fromUtf8Lossy before) (fromUtf8Lossy chunk) with heq | ⟨body, rest, _, hchunk, hself, heq⟩
  · exact ⟨_, _, heq, rfl, hstopped, hbuffer.append (.refl _ _)⟩
  · have htake := take_concat (c := '\r') (by decide) (normalise body)
    rw [← hself, ← textOf] at htake
    rw [htake] at hbuffer hstopped
    obtain ⟨front, hfront, hloose⟩ := hbuffer.eq_of_cr
    refine ⟨normalise body, normalise (fromUtf8Lossy chunk), heq, by rw [htake], hstopped, ?_⟩
    have hopen : ¬ ['\n', '\r'] <:+ front ++ ['\r'] := by
      intro hsuffix
      refine hclean.closed hdone ⟨by rwa [hfront], ?_⟩
      rw [hchunk]
      rfl
    have hline : textOf chunk = '\n' :: normalise rest := by
      rw [textOf, hchunk, normalise_cons, if_neg (by simp)]
    rw [← textOf, hfront, hline, List.append_assoc]
    refine hloose.append ?_
    rw [← hloose.endsLine_eq, endsLine_of_not_suffix hopen]
    exact .crlf (.refl _ _)

/-- **A clean chunk keeps the parser following.** -/
theorem Follows.push {yielded : List Piece} (h : Follows serde before parser yielded)
    (hclean : Clean before parser chunk) :
    Follows serde (before ++ chunk) (push serde parser (fromUtf8Lossy chunk)).2
      (yielded ++ (push serde parser (fromUtf8Lossy chunk)).1) := by
  cases hdone : parser.done with
  | true =>
    have hstopped : (blankLine.take isDone (textOf before)).stopped = true := h.done.symm.trans hdone
    obtain ⟨hframes, hstays⟩ := take_textOf_stays hstopped chunk
    obtain ⟨hdone', hnone⟩ := @push_of_quiet serde _ _ (hclean.quiet hdone) hdone
    refine ⟨?_, hdone'.trans hstays.symm, fun hfalse => ?_⟩
    · rw [hnone, List.append_nil, h.yielded, hframes]
    · exact absurd (hdone'.symm.trans hfalse) (by decide)
  | false =>
    obtain ⟨head, rest, htext, hframes, hstopped, hloose⟩ := h.joined hclean hdone
    obtain ⟨halike, hsame, hrest⟩ := hloose.take_rel
    rw [push_eq hdone]
    refine ⟨?_, ?_, fun _ => ?_⟩
    · rw [htext, Frames.Cutter.take_append hstopped, hframes, h.yielded, decoded, decoded, decoded,
        List.filterMap_append, ← decoded, ← decoded, ← decoded, decoded_congr halike]
    · rw [htext, Frames.Cutter.take_append hstopped]
      exact hsame
    · rw [htext, Frames.Cutter.take_append hstopped]
      exact hrest

/-! ### Whole streams -/

theorem pushAll_concat (parser : StreamParser) (chunks : List (List UInt8)) (chunk : List UInt8) :
    pushAll serde parser (chunks ++ [chunk]) =
      ((pushAll serde parser chunks).1 ++ (push serde (pushAll serde parser chunks).2 (fromUtf8Lossy chunk)).1,
        (push serde (pushAll serde parser chunks).2 (fromUtf8Lossy chunk)).2) := by
  induction chunks generalizing parser with
  | nil => simp [pushAll]
  | cons first rest ih =>
    rw [List.cons_append, pushAll, ih, pushAll, List.append_assoc]

theorem follows_nil : Follows serde [] {} [] := by
  have htake : blankLine.take isDone (textOf []) = ⟨[], false, []⟩ := Frames.Cutter.take_none rfl
  refine ⟨by rw [htake]; rfl, by rw [htake], fun _ => ?_⟩
  rw [htake]
  exact .nil

/-- **A run of clean chunks** keeps the parser following. -/
theorem Steady.follows (h : Steady serde chunks) {read rest : List (List UInt8)} (hchunks : chunks = read ++ rest) :
    Follows serde read.flatten (pushAll serde {} read).2 (pushAll serde {} read).1 := by
  induction read using List.reverseRecOn generalizing rest with
  | nil => exact follows_nil
  | append_singleton read chunk ih =>
    rw [List.append_assoc, List.singleton_append] at hchunks
    rw [pushAll_concat, List.flatten_append, List.flatten_singleton]
    exact (ih hchunks).push (h read chunk rest hchunks)

theorem mem_lines {line : List Char} (hline : line ∈ lines text) : ∀ c ∈ line, c ∈ text := by
  induction text generalizing line with
  | nil => cases hline
  | cons d rest ih =>
    intro c hc
    rw [lines] at hline
    split_ifs at hline with hend hcr
    · rcases List.mem_cons.mp hline with rfl | hline
      · cases hc
      · exact List.mem_cons_of_mem _ (ih hline c hc)
    · exact List.mem_cons_of_mem _ (ih hline c hc)
    · rcases List.mem_cons.mp hline with rfl | hline
      · rcases List.mem_cons.mp hc with rfl | hc
        · exact List.mem_cons_self
        · cases hlines : lines rest with
          | nil =>
            rw [hlines] at hc
            cases hc
          | cons first more =>
            rw [hlines] at hc
            exact List.mem_cons_of_mem _ (ih (by rw [hlines]; exact List.mem_cons_self) c hc)
      · exact List.mem_cons_of_mem _ (ih (List.mem_of_mem_tail hline) c hc)

theorem dataOf_blank (h : ∀ c ∈ text, isWhitespace c = true) : dataOf text = [] := by
  rw [dataOf, List.flatMap_eq_nil_iff]
  intro line hline
  have hblank : trimEnd line = [] := List.rdropWhile_eq_nil_iff.mpr fun c hc => h c (mem_lines hline c hc)
  rw [dataOfLine, hblank]
  rfl

theorem Follows.finish {yielded : List Piece} (h : Follows serde before parser yielded) : finish serde parser =
    if (blankLine.take isDone (textOf before)).stopped then []
    else decoded serde [(blankLine.take isDone (textOf before)).rest] := by
  rw [AiHub.finish, ← h.done]
  cases hdone : parser.done with
  | true => rfl
  | false =>
    have hloose := h.buffer hdone
    have hpiece : pieceOf serde parser.buffer = pieceOf serde (blankLine.take isDone (textOf before)).rest := by
      rw [pieceOf, pieceOf, isDone, isDone, hloose.dataOf_eq]
    have hflush : decoded serde [(blankLine.take isDone (textOf before)).rest] =
        (pieceOf serde parser.buffer).toList := by
      rw [hpiece, decoded, List.filterMap_cons]
      cases pieceOf serde (blankLine.take isDone (textOf before)).rest <;> rfl
    simp only [Bool.false_eq_true, false_or, if_false]
    rw [hflush]
    split_ifs with hblank
    · rw [pieceOf, if_pos (.inl (dataOf_blank (Text.trim_eq_empty.mp hblank)))]
      rfl
    · rw [decode_eq]

/-- **Steady chunks** give what the whole text answers. -/
theorem Steady.pieces_eq (h : Steady serde chunks) : pieces serde chunks = answered serde (textOf chunks.flatten) := by
  have hfollows := h.follows (List.append_nil chunks).symm
  rw [pieces, answered, hfollows.finish, hfollows.yielded]

theorem steady_singleton (serde : Serde) (bytes : List UInt8) : Steady serde [bytes] := by
  intro before chunk after hchunks
  obtain ⟨rfl, rfl, rfl⟩ : before = [] ∧ chunk = bytes ∧ after = [] := by
    cases before with
    | nil => simpa [eq_comm] using hchunks
    | cons first rest => simp at hchunks
  refine ⟨fun _ hsplit => ?_, fun _ hclosed => ?_, fun hdone => (Bool.false_ne_true hdone).elim⟩
  · cases chunk with
    | nil => cases hsplit
    | cons byte rest => cases hsplit
  · have hempty : ['\n', '\r'] <:+ [] := hclosed.1
    simp at hempty

/-- **A stream in one chunk** gives what its text answers. -/
theorem pieces_singleton (bytes : List UInt8) : pieces serde [bytes] = answered serde (textOf bytes) := by
  rw [(steady_singleton serde bytes).pieces_eq, List.flatten_singleton]

theorem receive_over {hears : ℕ → Bool} {answer : Answering} (h : answer.ending.isSome = true) (yielded : List Piece) :
    yielded.foldl (receive hears) answer = answer := by
  induction yielded with
  | nil => rfl
  | cons piece rest ih =>
    have hstep : receive hears answer piece = answer := by simp [receive, h]
    rw [List.foldl_cons, hstep, ih]

theorem receiveLast_over {answer : Answering} (h : answer.ending.isSome = true) (yielded : List Piece) :
    yielded.foldl receiveLast answer = answer := by
  induction yielded with
  | nil => rfl
  | cons piece rest ih =>
    have hstep : receiveLast answer piece = answer := by simp [receiveLast, h]
    rw [List.foldl_cons, hstep, ih]

/-- The chunks are read until the answer is over; the pieces of the others would change nothing. -/
theorem foldl_readChunk (serde : Serde) (hears : ℕ → Bool) (chunks : List (List UInt8)) (answer : Answering)
    (parser : StreamParser) :
    (chunks.foldl (readChunk serde hears) (answer, parser)).1 =
        (pushAll serde parser chunks).1.foldl (receive hears) answer ∧
      ((chunks.foldl (readChunk serde hears) (answer, parser)).1.ending.isSome = false →
        (chunks.foldl (readChunk serde hears) (answer, parser)).2 = (pushAll serde parser chunks).2) := by
  induction chunks generalizing answer parser with
  | nil => exact ⟨rfl, fun _ => rfl⟩
  | cons chunk rest ih =>
    rw [List.foldl_cons, pushAll, List.foldl_append]
    cases hover : answer.ending.isSome with
    | true =>
      rw [readChunk, if_pos hover, receive_over hover, receive_over hover]
      refine ⟨(ih answer parser).1.trans (receive_over hover _), fun hgoes => ?_⟩
      rw [(ih answer parser).1, receive_over hover, hover] at hgoes
      cases hgoes
    | false =>
      rw [readChunk, hover, if_neg Bool.false_ne_true]
      exact ih _ _

/-- **An answer** is made of the pieces that are pushed, and of those that are flushed. -/
theorem streamChat_eq (hears : ℕ → Bool) (chunks : List (List UInt8)) : streamChat serde hears chunks =
    let answer := (finish serde (pushAll serde {} chunks).2).foldl receiveLast
      ((pushAll serde {} chunks).1.foldl (receive hears) {})
    (answer.deltas, answer.conclude) := by
  obtain ⟨hanswer, hparser⟩ := foldl_readChunk serde hears chunks {} {}
  rw [streamChat]
  simp only
  cases hover : (chunks.foldl (readChunk serde hears) ({}, {})).1.ending.isSome with
  | true =>
    rw [receiveLast_over hover, ← hanswer, receiveLast_over hover]
  | false => rw [hparser hover, hanswer]

end Chunks

/-- **Streamed answers do not depend on the chunks** as long as these are steady: after each of them the pieces are
those of the bytes so far in one chunk, the answer is that of the whole stream in one chunk, and nothing behind the
last event is decoded. -/
theorem streamChat_of_steady (serde : Serde) (hears : ℕ → Bool) (chunks : List (List UInt8))
    (h : Steady serde chunks) :
    (∀ read rest, chunks = read ++ rest → (pushAll serde {} read).1 = (pushAll serde {} [read.flatten]).1) ∧
      pieces serde chunks = answered serde (textOf chunks.flatten) ∧
      pieces serde chunks = pieces serde [chunks.flatten] ∧
      streamChat serde hears chunks = streamChat serde hears [chunks.flatten] ∧
      ∀ read chunk rest, chunks = read ++ chunk :: rest → (pushAll serde {} read).2.done = true →
        (push serde (pushAll serde {} read).2 (fromUtf8Lossy chunk)).1 = [] := by
  have hwhole : ∀ bytes, Follows serde bytes (pushAll serde {} [bytes]).2 (pushAll serde {} [bytes]).1 := by
    intro bytes
    have hfollows := (steady_singleton serde bytes).follows (List.append_nil _).symm
    rwa [List.flatten_singleton] at hfollows
  have hpushed : ∀ read rest, chunks = read ++ rest → (pushAll serde {} read).1 = (pushAll serde {} [read.flatten]).1 :=
    fun read rest hchunks => (h.follows hchunks).yielded.trans (hwhole _).yielded.symm
  have hflushed : finish serde (pushAll serde {} chunks).2 = finish serde (pushAll serde {} [chunks.flatten]).2 :=
    (h.follows (List.append_nil chunks).symm).finish.trans (hwhole _).finish.symm
  refine ⟨hpushed, h.pieces_eq, ?_, ?_, fun read chunk rest hchunks hdone => ?_⟩
  · rw [h.pieces_eq, pieces_singleton]
  · rw [streamChat_eq, streamChat_eq, hpushed chunks [] (List.append_nil chunks).symm, hflushed]
  · exact (push_of_quiet ((h read chunk rest hchunks).quiet hdone) hdone).2

/-! ### Cuts -/

/-- A frame that says a text. -/
def saying (text : String) : String := "\x7b\"choices\":[\x7b\"delta\":\x7b\"content\":\"" ++ text ++ "\"\x7d\x7d]\x7d"

/-- The JSON of such a frame, for some texts, and what is wrong with two of them in one. -/
def sampleSerde : Serde where
  fromStr data :=
    match ["a", "b", "é", "\uFFFD\uFFFD"].find? fun text => data = saying text with
    | some text => .ok (.object [("choices", .array [.object [("delta", .object [("content", .string text)])]])])
    | none => .error "trailing characters at line 1 column 40"
  toString _ := ""

def bytesOfText (text : String) : List UInt8 := text.toList.flatMap String.utf8EncodeChar

/-- What a caller who listens is sent. -/
def heard (chunks : List (List UInt8)) : List String := (streamChat sampleSerde (fun _ => true) chunks).1

theorem steady_pair {serde : Serde} {first second : List UInt8} (h : Clean first (pushAll serde {} [first]).2 second) :
    Steady serde [first, second] := by
  intro before chunk after hchunks
  rcases before with - | ⟨other, - | ⟨_, _⟩⟩
  · obtain ⟨rfl, -⟩ := List.cons.inj hchunks
    exact steady_singleton serde first [] first [] rfl
  · obtain ⟨rfl, hrest⟩ := List.cons.inj hchunks
    obtain ⟨rfl, -⟩ := List.cons.inj hrest
    rwa [List.flatten_singleton]
  · simp at hchunks

/-- A cut inside the CR LF of a line that is not empty is clean. -/
theorem streamChat_of_steady_cut :
    streamChat sampleSerde (fun _ => true) [bytesOfText ("data: " ++ saying "a" ++ "\r"), bytesOfText "\n\r\n"] =
      streamChat sampleSerde (fun _ => true)
        [[bytesOfText ("data: " ++ saying "a" ++ "\r"), bytesOfText "\n\r\n"].flatten] := by
  refine (streamChat_of_steady _ _ _ (steady_pair ⟨fun _ => ?_, fun _ => ?_, fun hdone => ?_⟩)).2.2.2.1
  · decide +kernel
  · decide +kernel
  · exact absurd hdone (by decide +kernel)

/-- **Three cuts** that change an answer: inside a character, inside the CR LF that closes an event, and behind the
last event. -/
theorem three_cuts :
    (heard [bytesOfText "data: \x7b\"choices\":[\x7b\"delta\":\x7b\"content\":\"" ++ [0xC3],
      0xA9 :: bytesOfText "\"\x7d\x7d]\x7d\n\n"] =
        ["\uFFFD\uFFFD"] ∧
      heard [bytesOfText ("data: " ++ saying "é" ++ "\n\n")] = ["é"]) ∧
    (heard [bytesOfText ("data: " ++ saying "a" ++ "\r\n\r"),
        bytesOfText ("\ndata: " ++ saying "b" ++ "\r\n\r\n")] = [] ∧
      heard [bytesOfText ("data: " ++ saying "a" ++ "\r\n\r\ndata: " ++ saying "b" ++ "\r\n\r\n")] = ["a", "b"]) ∧
    heard [bytesOfText ("data: " ++ saying "a" ++ "\n\ndata: [DONE]\n\n"),
        bytesOfText ("data: " ++ saying "b" ++ "\n\n")] = ["a", "b"] ∧
      heard [bytesOfText ("data: " ++ saying "a" ++ "\n\ndata: [DONE]\n\ndata: " ++ saying "b" ++ "\n\n")] = ["a"] := by
  refine ⟨⟨?_, ?_⟩, ⟨?_, ?_⟩, ?_, ?_⟩
  all_goals decide +kernel

end Omnion.AiHub
