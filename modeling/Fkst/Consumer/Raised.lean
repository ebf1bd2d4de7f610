import Fkst.Consumer.Completion
import Fkst.Lib.Utf8
import Fkst.Router.Publish
import Mathlib.Data.List.DropRight
import Mathlib.Data.List.Infix

/-!
# Events on the standard output

A department raises events into a buffer, and its process writes them to the standard output, in a
line of their own that starts with a token only the engine knows.  The department writes to the same
stream, and the engine gets it in whatever pieces the operating system makes of it.

The line of the events is read back exactly if nothing but white space comes before it on its line.
A department that left a line open when the events were written loses them.
-/

set_option autoImplicit false

namespace Fkst.Consumer

open Lib
open Delivery (DeliveryRecord)
open Router (DeliveryRouter PublishError RouterState publishOutcome publishRaisedEvents
  raisedEnvelope)

/-! ## Raising -/

/-- `RaisedEntry`. -/
structure RaisedEntry where
  queue : String
  payload : Json
deriving DecidableEq

/-- The two directions of a frame.  `serde_json` and `base64` are crates of their own. -/
structure FrameCodec where
  /-- `encode_entries`: `serde_json::to_string`, then `URL_SAFE.encode`. -/
  encodeEntries : List RaisedEntry → List Char
  /-- `decode_raised_payload`, which is empty where the source warns. -/
  decodeRaisedPayload : List Char → List RaisedEntry

/-- What starts a line of events. -/
def raisedAuth : List Char := "RAISED-AUTH: ".toList

/-- What `emit_authenticated_stdout` and `drain_emit_authenticated_stdout` print. -/
def emitAuthenticatedStdout (codec : FrameCodec) (token : List Char) (entries : List RaisedEntry) :
    List Char :=
  if entries.isEmpty then []
  else raisedAuth ++ token ++ ' ' :: codec.encodeEntries entries ++ ['\n']

/-- What a department does that the standard output shows. -/
inductive Op where
  /-- It writes text. -/
  | write (text : List Char)
  /-- It raises an event. -/
  | raise (entry : RaisedEntry)
  /-- `drain_emit_authenticated_stdout`, before a synchronous `codex`. -/
  | flush

/-- A department from its start to the end of its process. -/
structure DeptRun where
  ops : List Op
  /-- What is written after `emit_authenticated_stdout`, when the process exits. -/
  tail : List Char

/-- What is on the standard output, from a buffer of raised events on. -/
def stdoutFrom (codec : FrameCodec) (token : List Char) (tail : List Char) :
    List Op → List RaisedEntry → List Char
  | [], buffer => emitAuthenticatedStdout codec token buffer ++ tail
  | .write text :: ops, buffer => text ++ stdoutFrom codec token tail ops buffer
  | .raise entry :: ops, buffer => stdoutFrom codec token tail ops (buffer ++ [entry])
  | .flush :: ops, buffer =>
    emitAuthenticatedStdout codec token buffer ++ stdoutFrom codec token tail ops []

/-- What is on the standard output. -/
def DeptRun.stdout (codec : FrameCodec) (token : List Char) (run : DeptRun) : List Char :=
  stdoutFrom codec token run.tail run.ops []

/-- What was raised, in order. -/
def DeptRun.raised (run : DeptRun) : List RaisedEntry :=
  run.ops.filterMap fun op => match op with
    | .raise entry => some entry
    | _ => none

/-! ## Reading -/

section Parse

variable (codec : FrameCodec) (token : List Char)

/-- `parse_authenticated_raised_line`. -/
def parseAuthenticatedRaisedLine (line : List Char) : List RaisedEntry :=
  match raisedAuth.isPrefixOf? (trimStart line) with
  | none => []
  | some rest =>
    match Text.splitOnce ' ' (trim rest) with
    | none => []
    | some (frameToken, payload) =>
      if frameToken ≠ token then [] else codec.decodeRaisedPayload (trim payload)

/-- `parse_authenticated_raised`. -/
def parseAuthenticatedRaised (stdout : List Char) : List RaisedEntry :=
  match (strLines stdout).reverse.find? fun line => raisedAuth.isPrefixOf (trimStart line) with
  | none => []
  | some line => parseAuthenticatedRaisedLine codec token line

end Parse

/-- A raised entry as an event.  The time `Event::new` reads is replaced by that of the parent before
anything looks at it. -/
def RaisedEntry.event (entry : RaisedEntry) (parent : DeliveryRecord) : Router.Event :=
  ⟨entry.queue, entry.payload, parent.observedAtMs⟩

/-- What `run_durable_record` keeps while the child runs, and what it has handed on. -/
structure Observer where
  nextOrdinal : ℕ
  publishError : Option PublishError
  router : RouterState
  /-- The entries given to `publish_raised_events` so far. -/
  handed : List RaisedEntry
  /-- The entries given to `publish_outcome` so far, each with its ordinal. -/
  published : List (RaisedEntry × ℕ)

section Run

variable (env : Router.Env) (router : DeliveryRouter) (parent : DeliveryRecord)

/-- The entries of a batch that `publish_raised_events` gives to `publish_outcome`, with their
ordinals. -/
def publishedOf : List RaisedEntry → ℕ → RouterState → List (RaisedEntry × ℕ)
  | [], _, _ => []
  | entry :: entries, nextOrdinal, st =>
    if entry.queue = Router.failureFactQueue then []
    else
      (entry, nextOrdinal) ::
        match publishOutcome env router (raisedEnvelope parent (entry.event parent) nextOrdinal) st with
        | (_, .error _) => []
        | (st, .ok _) => publishedOf entries (usizeSaturatingAdd nextOrdinal 1) st

/-- A call of `publish_raised_events`. -/
def Observer.hand (o : Observer) (entries : List RaisedEntry) : Observer :=
  match publishRaisedEvents env router parent (entries.map (·.event parent)) o.nextOrdinal o.router with
  | (st, nextOrdinal, result) =>
    { nextOrdinal := nextOrdinal
      publishError := match result with
        | .error e => some e
        | .ok _ => o.publishError
      router := st
      handed := o.handed ++ entries
      published := o.published ++ publishedOf env router parent entries o.nextOrdinal o.router }

variable (codec : FrameCodec) (token : List Char)

/-- The stdout observer of `run_durable_record`. -/
def Observer.line (o : Observer) (line : List Char) : Observer :=
  o.hand env router parent (parseAuthenticatedRaisedLine codec token line)

/-- `StdoutLineBuffer::push`: what is pending, and the observer of the lines. -/
def push (state : List UInt8 × Observer) (bytes : List UInt8) : List UInt8 × Observer :=
  match Lines.cut 10 (state.1 ++ bytes) with
  | (lines, pending) =>
    (pending, lines.foldl
      (fun o line => o.line env router parent codec token (Utf8.lossy (stripLast 13 line))) state.2)

/-- `run_durable_record`, on the pieces of the standard output and how the child ended. -/
def runDurableRecord (chunks : List (List UInt8)) (result : Except SpawnError SpawnResult)
    (st : RouterState) : Observer × CompletedDelivery :=
  let o := (chunks.foldl (push env router parent codec token) ([], ⟨0, none, st, [], []⟩)).2
  match result with
  | .error error => (o, ⟨parent, some (.fromSpawnError error), none⟩)
  | .ok result =>
    match lockBusyFromSpawnResult result with
    | some lockBusy => (o, ⟨parent, none, some lockBusy⟩)
    | none =>
      if result.exitCode = 0 then
        match o.publishError with
        | some e => (o, ⟨parent, some (.permanent ("raised publish error: " ++ e.message)), none⟩)
        | none =>
          if o.nextOrdinal = 0 then
            -- `publish_raised`: no event was seen, look at everything once more
            let o := o.hand env router parent
              (parseAuthenticatedRaised codec token (Utf8.lossy chunks.flatten))
            (o, ⟨parent, o.publishError.map fun e =>
              .permanent ("raised publish error: " ++ e.message), none⟩)
          else (o, ⟨parent, none, none⟩)
      else (o, ⟨parent, some (.fromSpawnResult result), none⟩)

end Run

/-! ## Lines in bytes and in characters -/

theorem lineFeed_byte : String.utf8EncodeChar '\n' = [10] := by decide

theorem carriageReturn_byte : String.utf8EncodeChar '\r' = [13] := by decide

/-- The lines of text in bytes are the lines of the text. -/
theorem cut_encode (text : List Char) :
    Lines.cut 10 (Utf8.encode text) =
      ((Lines.cut '\n' text).1.map Utf8.encode, Utf8.encode (Lines.cut '\n' text).2) := by
  induction h : text.length using Nat.strongRecOn generalizing text with
  | _ n ih =>
    by_cases hmem : '\n' ∈ text
    · obtain ⟨line, rest, rfl, hline⟩ := List.eq_append_cons_of_mem hmem
      have hshort : rest.length < n := by
        rw [← h, List.length_append, List.length_cons]
        omega
      have hbytes : (10 : UInt8) ∉ Utf8.encode line := by
        rwa [Utf8.mem_encode lineFeed_byte]
      rw [Utf8.encode_append, Utf8.encode_cons, lineFeed_byte, List.singleton_append,
        Lines.cut_append_sep _ hbytes, Lines.cut_append_sep _ hline, ih _ hshort rest rfl]
      rfl
    · have hbytes : (10 : UInt8) ∉ Utf8.encode text := by
        rwa [Utf8.mem_encode lineFeed_byte]
      rw [Lines.cut_of_notMem hbytes, Lines.cut_of_notMem hmem]
      rfl

theorem stripLast_encode (line : List Char) :
    stripLast 13 (Utf8.encode line) = Utf8.encode (stripLast '\r' line) := by
  have hlast := Utf8.getLast?_encode carriageReturn_byte line
  rw [stripLast, stripLast]
  by_cases h : line.getLast? = some '\r'
  · rw [if_pos (hlast.2 h), if_pos h]
    obtain ⟨front, rfl⟩ := List.getLast?_eq_some_iff.1 h
    rw [Utf8.encode_append, Utf8.encode_cons, carriageReturn_byte]
    simp
  · rw [if_neg (fun h' => h (hlast.1 h')), if_neg h]

theorem infix_of_stripLast {α : Type} [DecidableEq α] (a : α) (l : List α) : stripLast a l <:+: l := by
  unfold stripLast
  split
  · exact (List.dropLast_prefix l).isInfix
  · exact List.infix_rfl

section Observed

variable (env : Router.Env) (router : DeliveryRouter) (parent : DeliveryRecord) (codec : FrameCodec)
  (token : List Char)

/-- **The pieces do not matter.** -/
theorem foldl_push (chunks : List (List UInt8)) (o : Observer) :
    (chunks.foldl (push env router parent codec token) ([], o)).2 =
      (Lines.cut 10 chunks.flatten).1.foldl
        (fun o line => o.line env router parent codec token (Utf8.lossy (stripLast 13 line))) o := by
  have h := congrArg Prod.snd (Lines.foldl_feed 10
    (fun o line => Observer.line env router parent codec token o (Utf8.lossy (stripLast 13 line)))
    chunks [] o (by simp))
  exact h

end Observed

/-! ## Parsing a line -/

/-- What the token of a run looks like: `ulid` makes it of digits and capital letters. -/
structure IsToken (token : List Char) : Prop where
  ne_nil : token ≠ []
  alphanumeric : ∀ c ∈ token, c.isDigit = true ∨ c.isUpper = true

/-- What `URL_SAFE.encode` makes of text that is not empty. -/
structure IsBase64Url (text : List Char) : Prop where
  ne_nil : text ≠ []
  alphabet : ∀ c ∈ text, c.isAlphanum = true ∨ c = '-' ∨ c = '_' ∨ c = '='

theorem isWhitespace_of_graphic {c : Char} (hlow : 0x21 ≤ c.toNat) (hhigh : c.toNat ≤ 0x7E) :
    isWhitespace c = false := by
  simp only [isWhitespace, List.contains_cons, List.contains_nil, Bool.or_false, Bool.or_eq_false_iff,
    Bool.and_eq_false_iff, decide_eq_false_iff_not, beq_eq_false_iff_ne]
  omega

/-- A character of a token is neither white space nor one of the punctuation of a frame. -/
theorem IsToken.graphic {token : List Char} (h : IsToken token) {c : Char} (hc : c ∈ token) :
    isWhitespace c = false ∧ c ≠ ':' ∧ c ≠ ' ' ∧ c ≠ '\n' := by
  have hrange : (48 ≤ c.toNat ∧ c.toNat ≤ 57) ∨ (65 ≤ c.toNat ∧ c.toNat ≤ 90) := by
    rcases h.alphanumeric c hc with h | h
    · exact Or.inl (toNat_of_isDigit h)
    · exact Or.inr (toNat_of_isUpper h)
  refine ⟨isWhitespace_of_graphic (by omega) (by omega), ?_, ?_, ?_⟩
  all_goals
    rintro rfl
    revert hrange
    decide

theorem IsBase64Url.graphic {text : List Char} (h : IsBase64Url text) {c : Char} (hc : c ∈ text) :
    isWhitespace c = false ∧ c ≠ '\n' := by
  have hrange : 0x21 ≤ c.toNat ∧ c.toNat ≤ 0x7E := by
    rcases h.alphabet c hc with h | rfl | rfl | rfl
    · have hcode := toNat_of_isAlphanum h
      omega
    all_goals decide
  refine ⟨isWhitespace_of_graphic hrange.1 hrange.2, ?_⟩
  rintro rfl
  revert hrange
  decide

section Line

variable {codec : FrameCodec} {token : List Char}

/-- What is parsed comes after the token, which comes after the start of a frame. -/
theorem parse_cases (codec : FrameCodec) (token line : List Char) :
    parseAuthenticatedRaisedLine codec token line = [] ∨
      ∃ rest payload, trimStart line = raisedAuth ++ rest ∧ trim rest = token ++ ' ' :: payload ∧
        ' ' ∉ token ∧
        parseAuthenticatedRaisedLine codec token line = codec.decodeRaisedPayload (trim payload) := by
  unfold parseAuthenticatedRaisedLine
  split
  · exact Or.inl rfl
  · rename_i rest hrest
    split
    · exact Or.inl rfl
    · rename_i frameToken payload hsplit
      obtain ⟨htrim, hspace⟩ := Text.splitOnce_eq_some hsplit
      split
      · exact Or.inl rfl
      · rename_i htoken
        rw [not_not] at htoken
        subst htoken
        exact Or.inr ⟨rest, payload, (List.isPrefixOf?_eq_some_iff_append_eq.1 hrest).symm, htrim,
          hspace, rfl⟩

/-- **A line without the token contributes nothing.** -/
theorem parse_of_noToken (codec : FrameCodec) {line : List Char} (h : ¬ token <:+: line) :
    parseAuthenticatedRaisedLine codec token line = [] := by
  rcases parse_cases codec token line with hnil | ⟨rest, payload, hline, htrim, _⟩
  · exact hnil
  · refine absurd ?_ h
    have hrest : rest <:+: line :=
      ((List.suffix_append _ _).trans (hline ▸ trimStart_suffix line)).isInfix
    have htoken : token <:+: trim rest := htrim ▸ (List.prefix_append _ _).isInfix
    exact (htoken.trans (infix_of_trim rest)).trans hrest

/-- The line of a frame, without the line feed. -/
def frameLine (codec : FrameCodec) (token : List Char) (entries : List RaisedEntry) : List Char :=
  raisedAuth ++ (token ++ ' ' :: codec.encodeEntries entries)

variable {entries : List RaisedEntry} (htoken : IsToken token)
  (hpayload : IsBase64Url (codec.encodeEntries entries))

include htoken hpayload in
theorem lineFeed_notMem_frameLine : '\n' ∉ frameLine codec token entries := by
  rw [frameLine, List.mem_append, List.mem_append, List.mem_cons]
  rintro (h | h | h | h)
  · exact absurd h (by decide)
  · exact (htoken.graphic h).2.2.2 rfl
  · exact absurd h (by decide)
  · exact (hpayload.graphic h).2 rfl

include hpayload in
/-- A frame is trimmed at its start only. -/
theorem trim_append_payload (token front : List Char) :
    trim (front ++ (token ++ ' ' :: codec.encodeEntries entries)) =
      trimStart (front ++ (token ++ ' ' :: codec.encodeEntries entries)) := by
  obtain ⟨payload, c, hc⟩ := List.eq_nil_or_concat (codec.encodeEntries entries) |>.resolve_left
    hpayload.ne_nil
  rw [List.concat_eq_append] at hc
  have hlast : isWhitespace c = false := (hpayload.graphic (by rw [hc]; simp)).1
  rw [hc]
  have hassoc : front ++ (token ++ ' ' :: (payload ++ [c])) =
      (front ++ (token ++ ' ' :: payload)) ++ [c] := by
    simp
  rw [hassoc, trim_of_last _ hlast]

include htoken hpayload in
/-- A frame that starts its line, but for white space, is read back. -/
theorem parse_frameLine (hdecode : codec.decodeRaisedPayload (codec.encodeEntries entries) = entries)
    {front : List Char} (hfront : ∀ c ∈ front, isWhitespace c = true) :
    parseAuthenticatedRaisedLine codec token (front ++ frameLine codec token entries) = entries := by
  have hstart : trimStart (front ++ frameLine codec token entries) =
      frameLine codec token entries := by
    rw [trimStart_append_of_all hfront]
    rfl
  have htrim : trim (token ++ ' ' :: codec.encodeEntries entries) =
      token ++ ' ' :: codec.encodeEntries entries := by
    have h := trim_append_payload hpayload token []
    rw [List.nil_append] at h
    rw [h]
    obtain ⟨c, token', rfl⟩ := List.exists_cons_of_ne_nil htoken.ne_nil
    exact trimStart_of_head (htoken.graphic List.mem_cons_self).1
  have hspace : ' ' ∉ token := fun h => (htoken.graphic h).2.2.1 rfl
  have hpayloadTrim : trim (codec.encodeEntries entries) = codec.encodeEntries entries :=
    trim_of_graphic fun c hc => (hpayload.graphic hc).1
  have hrest : raisedAuth.isPrefixOf? (frameLine codec token entries) =
      some (token ++ ' ' :: codec.encodeEntries entries) :=
    List.isPrefixOf?_eq_some_iff_append_eq.2 rfl
  simp only [parseAuthenticatedRaisedLine, hstart, hrest, htrim, Text.splitOnce_append hspace]
  rw [if_neg (by simp), hpayloadTrim, hdecode]

include htoken hpayload in
/-- The first word of what a department left on the line of a frame is not the token. -/
theorem firstWord_ne_token (front : List Char) {payload : List Char}
    (hfront : ¬ token <:+: front) :
    trim (front ++ frameLine codec token entries) ≠ token ++ ' ' :: payload := by
  have hspace : ' ' ∉ token := fun h => (htoken.graphic h).2.2.1 rfl
  have hcolon : ':' ∉ token := fun h => (htoken.graphic h).2.1 rfl
  intro h
  have htrim : trim (front ++ frameLine codec token entries) =
      trimStart (front ++ frameLine codec token entries) := by
    rw [frameLine, ← List.append_assoc]
    exact trim_append_payload hpayload token _
  -- what is left of the department's text, and then the frame
  obtain ⟨rest, hrest, hstart⟩ : ∃ rest, rest <:+: front ∧
      trimStart (front ++ frameLine codec token entries) = rest ++ frameLine codec token entries := by
    by_cases hnil : trimStart front = []
    · refine ⟨[], List.nil_infix, ?_⟩
      rw [trimStart_append_of_all (all_of_trimStart_eq_nil hnil)]
      rfl
    · exact ⟨_, (trimStart_suffix front).isInfix, trimStart_append_of_ne_nil hnil⟩
  rw [htrim, hstart] at h
  by_cases hmem : ' ' ∈ rest
  · obtain ⟨word, more, rfl, hword⟩ := List.eq_append_cons_of_mem hmem
    rw [List.append_assoc, List.cons_append] at h
    obtain ⟨rfl, _⟩ := Text.append_sep_inj hword hspace h
    exact hfront ((List.prefix_append _ _).isInfix.trans hrest)
  · have hframe : frameLine codec token entries =
        "RAISED-AUTH:".toList ++ ' ' :: (token ++ ' ' :: codec.encodeEntries entries) := by
      rw [frameLine]
      rfl
    rw [hframe, ← List.append_assoc] at h
    have hword : ' ' ∉ rest ++ "RAISED-AUTH:".toList := by
      rw [List.mem_append, not_or]
      exact ⟨hmem, by decide⟩
    obtain ⟨hsame, _⟩ := Text.append_sep_inj hword hspace h
    refine hcolon ?_
    rw [← hsame, List.mem_append]
    exact Or.inr (by decide)

include htoken hpayload in
/-- A frame that does not start its line is lost. -/
theorem parse_frameLine_lost {front : List Char} (hfront : ¬ token <:+: front)
    (hlost : ¬ ∀ c ∈ front, isWhitespace c = true) :
    parseAuthenticatedRaisedLine codec token (front ++ frameLine codec token entries) = [] := by
  rcases parse_cases codec token (front ++ frameLine codec token entries) with
    hnil | ⟨rest, payload, hline, htrim, _⟩
  · exact hnil
  · exfalso
    have hne : trimStart front ≠ [] := fun h => hlost (all_of_trimStart_eq_nil h)
    rw [trimStart_append_of_ne_nil hne] at hline
    rcases List.append_eq_append_iff.1 hline with ⟨more, hauth, hframe⟩ | ⟨more, hstart, hrest⟩
    · -- the department's text is a part of the start of a frame, and the frame goes on with an `R`
      cases more with
      | nil =>
        rw [List.append_nil] at hauth
        rw [List.nil_append] at hframe
        exact firstWord_ne_token htoken hpayload [] (fun h => by
          rw [List.infix_nil] at h
          exact htoken.ne_nil h) (hframe ▸ htrim)
      | cons c more =>
        have hc : c = 'R' := by
          rw [frameLine] at hframe
          have hhead := congrArg List.head? hframe
          simp only [List.cons_append, List.head?_cons] at hhead
          exact (Option.some.inj hhead).symm
        obtain ⟨d, start, hd⟩ := List.exists_cons_of_ne_nil hne
        rw [hd, hc] at hauth
        have htail := congrArg List.tail hauth
        rw [List.cons_append, List.tail_cons] at htail
        have hmem : 'R' ∈ raisedAuth.tail := by
          rw [htail]
          simp
        exact absurd hmem (by decide)
    · rw [hrest] at htrim
      refine firstWord_ne_token htoken hpayload more (fun h => hfront ?_) htrim
      refine h.trans (List.IsInfix.trans ?_ (trimStart_suffix front).isInfix)
      rw [hstart]
      exact (List.suffix_append _ _).isInfix

end Line

/-! ## What a run writes, frame by frame -/

/-- What a run writes: for every frame the text that comes before it since the last one, and the
entries of the frame, and then the text after the last frame. -/
structure Transcript where
  frames : List (List Char × List RaisedEntry)
  last : List Char

/-- The transcript of a run, from the text and the raised entries since the last frame on. -/
def transcriptFrom (tail : List Char) : List Op → List Char → List RaisedEntry → Transcript
  | [], text, buffer => if buffer.isEmpty then ⟨[], text ++ tail⟩ else ⟨[(text, buffer)], tail⟩
  | .write more :: ops, text, buffer => transcriptFrom tail ops (text ++ more) buffer
  | .raise entry :: ops, text, buffer => transcriptFrom tail ops text (buffer ++ [entry])
  | .flush :: ops, text, buffer =>
    if buffer.isEmpty then transcriptFrom tail ops text []
    else
      match transcriptFrom tail ops [] [] with
      | ⟨frames, last⟩ => ⟨(text, buffer) :: frames, last⟩

/-- The transcript of a run. -/
def DeptRun.transcript (run : DeptRun) : Transcript := transcriptFrom run.tail run.ops [] []

/-- The text of a transcript. -/
def Transcript.text (codec : FrameCodec) (token : List Char) (t : Transcript) : List Char :=
  t.frames.flatMap (fun p => p.1 ++ (frameLine codec token p.2 ++ ['\n'])) ++ t.last

theorem emit_of_ne_nil (codec : FrameCodec) (token : List Char) {entries : List RaisedEntry}
    (h : entries ≠ []) :
    emitAuthenticatedStdout codec token entries = frameLine codec token entries ++ ['\n'] := by
  rw [emitAuthenticatedStdout, if_neg (by simpa using h), frameLine]
  simp

section Transcript

variable (codec : FrameCodec) (token tail : List Char)

theorem text_transcriptFrom : ∀ (ops : List Op) (text : List Char) (buffer : List RaisedEntry),
    (transcriptFrom tail ops text buffer).text codec token =
      text ++ stdoutFrom codec token tail ops buffer
  | [], text, buffer => by
    rw [transcriptFrom, stdoutFrom]
    by_cases h : buffer = []
    · simp [h, Transcript.text, emitAuthenticatedStdout]
    · rw [if_neg (by simpa using h), emit_of_ne_nil codec token h]
      simp [Transcript.text]
  | .write more :: ops, text, buffer => by
    rw [transcriptFrom, stdoutFrom, text_transcriptFrom ops]
    simp
  | .raise entry :: ops, text, buffer => by
    rw [transcriptFrom, stdoutFrom, text_transcriptFrom ops]
  | .flush :: ops, text, buffer => by
    rw [transcriptFrom, stdoutFrom]
    by_cases h : buffer = []
    · rw [if_pos (by simpa using h), text_transcriptFrom ops]
      simp [h, emitAuthenticatedStdout]
    · have hrest := text_transcriptFrom ops [] []
      rw [if_neg (by simpa using h), emit_of_ne_nil codec token h, ← List.nil_append (stdoutFrom _ _ _ _ _),
        ← hrest]
      simp [Transcript.text]

theorem frames_transcriptFrom : ∀ (ops : List Op) (text : List Char) (buffer : List RaisedEntry),
    (∀ p ∈ (transcriptFrom tail ops text buffer).frames, p.2 ≠ []) ∧
    (transcriptFrom tail ops text buffer).frames.flatMap Prod.snd =
      buffer ++ (DeptRun.mk ops tail).raised
  | [], text, buffer => by
    rw [transcriptFrom]
    by_cases h : buffer = []
    · simp [h, DeptRun.raised]
    · simp [h, DeptRun.raised]
  | .write more :: ops, text, buffer => frames_transcriptFrom ops (text ++ more) buffer
  | .raise entry :: ops, text, buffer => by
    obtain ⟨hne, hframes⟩ := frames_transcriptFrom ops text (buffer ++ [entry])
    refine ⟨hne, hframes.trans ?_⟩
    simp [DeptRun.raised]
  | .flush :: ops, text, buffer => by
    rw [transcriptFrom]
    by_cases h : buffer = []
    · rw [if_pos (by simpa using h), h]
      exact frames_transcriptFrom ops text []
    · obtain ⟨hne, hframes⟩ := frames_transcriptFrom ops [] []
      rw [if_neg (by simpa using h)]
      refine ⟨fun p hp => ?_, ?_⟩
      · rcases List.mem_cons.1 hp with rfl | hp
        · exact h
        · exact hne p hp
      · rw [List.flatMap_cons, hframes]
        rfl

end Transcript

/-- The line a department left open when a frame was written. -/
def openLine (text : List Char) : List Char := (Lines.cut '\n' text).2

/-- Nothing but white space is on the line of a frame before it. -/
def OnFreshLine (text : List Char) : Prop := ∀ c ∈ openLine text, isWhitespace c = true

instance (text : List Char) : Decidable (OnFreshLine text) :=
  List.decidableBAll _ _

namespace Transcript

variable {codec : FrameCodec} {token : List Char}

/-- What the department wrote itself does not contain the token. -/
def TokenFree (token : List Char) (t : Transcript) : Prop :=
  (∀ p ∈ t.frames, ¬ token <:+: p.1) ∧ ¬ token <:+: t.last

/-- `serde_json` and `base64` read the frames back that they wrote. -/
def RoundTrips (codec : FrameCodec) (t : Transcript) : Prop :=
  ∀ p ∈ t.frames, IsBase64Url (codec.encodeEntries p.2) ∧
    codec.decodeRaisedPayload (codec.encodeEntries p.2) = p.2

/-- The entries that are read back. -/
def readable (t : Transcript) : List RaisedEntry :=
  t.frames.flatMap fun p => if OnFreshLine p.1 then p.2 else []

/-- What the lines of a text contribute. -/
def parsedLines (codec : FrameCodec) (token text : List Char) : List RaisedEntry :=
  (Lines.cut '\n' text).1.flatMap fun line =>
    parseAuthenticatedRaisedLine codec token (stripLast '\r' line)

theorem parsedLines_of_noToken (codec : FrameCodec) {text : List Char} (h : ¬ token <:+: text) :
    parsedLines codec token text = [] := by
  rw [parsedLines, List.flatMap_eq_nil_iff]
  intro line hline
  refine parse_of_noToken codec fun htoken => h ?_
  exact (htoken.trans (infix_of_stripLast _ _)).trans (Lines.infix_of_mem hline)

/-- The line of a frame is not cut at its end. -/
theorem stripLast_frameLine {entries : List RaisedEntry}
    (hpayload : IsBase64Url (codec.encodeEntries entries)) (front : List Char) :
    stripLast '\r' (front ++ frameLine codec token entries) =
      front ++ frameLine codec token entries := by
  obtain ⟨payload, c, hc⟩ := List.eq_nil_or_concat (codec.encodeEntries entries) |>.resolve_left
    hpayload.ne_nil
  rw [List.concat_eq_append] at hc
  have hlast : c ≠ '\r' := by
    rintro rfl
    have h := (hpayload.graphic (c := '\r') (by rw [hc]; simp)).1
    exact absurd h (by decide)
  have hend : front ++ frameLine codec token entries =
      (front ++ (raisedAuth ++ (token ++ ' ' :: payload))) ++ [c] := by
    rw [frameLine, hc]
    simp
  rw [stripLast, if_neg]
  rw [hend, List.getLast?_concat, Option.some_inj]
  exact hlast

/-- The lines of a transcript: those of the text before the first frame, the line of the frame, and
the lines of what follows. -/
theorem cut_text_cons (htoken : IsToken token) {p : List Char × List RaisedEntry}
    (hpayload : IsBase64Url (codec.encodeEntries p.2))
    (frames : List (List Char × List RaisedEntry)) (last : List Char) :
    Lines.cut '\n' (text codec token ⟨p :: frames, last⟩) =
      ((Lines.cut '\n' p.1).1 ++ (openLine p.1 ++ frameLine codec token p.2) ::
          (Lines.cut '\n' (text codec token ⟨frames, last⟩)).1,
        (Lines.cut '\n' (text codec token ⟨frames, last⟩)).2) := by
  have htext : text codec token ⟨p :: frames, last⟩ =
      p.1 ++ (frameLine codec token p.2 ++ '\n' :: text codec token ⟨frames, last⟩) := by
    simp [text]
  have hline : '\n' ∉ (Lines.cut '\n' p.1).2 ++ frameLine codec token p.2 := by
    rw [List.mem_append, not_or]
    exact ⟨Lines.notMem_rest p.1, lineFeed_notMem_frameLine htoken hpayload⟩
  rw [htext, Lines.cut_append, ← List.append_assoc, Lines.cut_append_sep _ hline, openLine]

theorem parsedLines_text (htoken : IsToken token) :
    ∀ (frames : List (List Char × List RaisedEntry)) (last : List Char),
      TokenFree token ⟨frames, last⟩ → RoundTrips codec ⟨frames, last⟩ →
      parsedLines codec token (text codec token ⟨frames, last⟩) = readable ⟨frames, last⟩
  | [], last, hfree, _ => by
    have h := parsedLines_of_noToken codec hfree.2
    simpa [text, readable] using h
  | p :: frames, last, hfree, hcodec => by
    obtain ⟨hpayload, hdecode⟩ := hcodec p List.mem_cons_self
    have hfront : ¬ token <:+: p.1 := hfree.1 p List.mem_cons_self
    have hrest := parsedLines_text htoken frames last
      ⟨fun q hq => hfree.1 q (List.mem_cons_of_mem _ hq), hfree.2⟩
      (fun q hq => hcodec q (List.mem_cons_of_mem _ hq))
    have hframe : parseAuthenticatedRaisedLine codec token
        (openLine p.1 ++ frameLine codec token p.2) = if OnFreshLine p.1 then p.2 else [] := by
      split
      · rename_i hfresh
        exact parse_frameLine htoken hpayload hdecode hfresh
      · rename_i hlost
        refine parse_frameLine_lost htoken hpayload (fun h => hfront ?_) hlost
        exact h.trans (Lines.rest_infix p.1)
    have hbefore := parsedLines_of_noToken codec hfront
    rw [parsedLines] at hbefore hrest ⊢
    rw [cut_text_cons htoken hpayload, List.flatMap_append, List.flatMap_cons, hbefore, hrest,
      stripLast_frameLine hpayload, hframe]
    rfl

theorem openLine_text (htoken : IsToken token) (last : List Char) :
    ∀ frames : List (List Char × List RaisedEntry), RoundTrips codec ⟨frames, last⟩ →
      openLine (text codec token ⟨frames, last⟩) = openLine last
  | [], _ => by simp [text]
  | p :: frames, hcodec => by
    rw [openLine, cut_text_cons htoken (hcodec p List.mem_cons_self).1]
    exact openLine_text htoken last frames fun q hq => hcodec q (List.mem_cons_of_mem _ hq)

variable {t : Transcript} (htoken : IsToken token) (hfree : t.TokenFree token)
  (hcodec : t.RoundTrips codec)

include htoken hfree hcodec in
/-- Where no frame is read back line by line, the second look does not find one either. -/
theorem parse_text_of_lost (hlost : t.readable = []) :
    parseAuthenticatedRaised codec token (t.text codec token) = [] := by
  unfold parseAuthenticatedRaised
  split
  · rfl
  · rename_i line hfind
    have hline := List.mem_of_find?_eq_some hfind
    rw [List.mem_reverse, strLines, List.mem_append] at hline
    rcases hline with hline | hline
    · obtain ⟨line, hmem, rfl⟩ := List.mem_map.1 hline
      have hparsed := parsedLines_text htoken t.frames t.last hfree hcodec
      rw [hlost, parsedLines, List.flatMap_eq_nil_iff] at hparsed
      exact hparsed line hmem
    · refine parse_of_noToken codec fun h => hfree.2 ?_
      have hopen := openLine_text htoken t.last t.frames hcodec
      split at hline
      · simp at hline
      · rw [List.mem_singleton] at hline
        subst hline
        refine h.trans ?_
        have hinfix : openLine t.last <:+: t.last := Lines.rest_infix t.last
        rw [← hopen] at hinfix
        exact hinfix

theorem length_readable_le : ∀ frames : List (List Char × List RaisedEntry),
    (frames.flatMap fun p => if OnFreshLine p.1 then p.2 else []).length ≤
      (frames.flatMap Prod.snd).length
  | [] => Nat.le_refl _
  | p :: frames => by
    have hrest := length_readable_le frames
    rw [List.flatMap_cons, List.flatMap_cons, List.length_append, List.length_append]
    split
    · omega
    · rw [List.length_nil]
      omega

/-- Everything is read back exactly if every frame is on a fresh line. -/
theorem readable_eq_iff : ∀ frames : List (List Char × List RaisedEntry), (∀ p ∈ frames, p.2 ≠ []) →
    ((frames.flatMap fun p => if OnFreshLine p.1 then p.2 else []) = frames.flatMap Prod.snd ↔
      ∀ p ∈ frames, OnFreshLine p.1)
  | [], _ => by simp
  | p :: frames, hne => by
    have hrest := readable_eq_iff frames fun q hq => hne q (List.mem_cons_of_mem _ hq)
    rw [List.flatMap_cons, List.flatMap_cons]
    by_cases hfresh : OnFreshLine p.1
    · rw [if_pos hfresh, List.append_cancel_left_eq, hrest]
      simp [hfresh]
    · rw [if_neg hfresh, List.nil_append]
      constructor
      · intro h
        -- what is left is too short
        have hlength := congrArg List.length h
        have hle := length_readable_le frames
        have hpos := List.length_pos_of_ne_nil (hne p List.mem_cons_self)
        rw [List.length_append] at hlength
        omega
      · intro h
        exact absurd (h p List.mem_cons_self) hfresh

end Transcript

/-! ## What is handed on -/

section Hand

variable (env : Router.Env) (router : DeliveryRouter) (parent : DeliveryRecord)

/-- One batch: the ordinals it uses follow each other, and it stops early only if it fails. -/
theorem publishRaisedEvents_spec : ∀ (entries : List RaisedEntry) (k : ℕ) (st : RouterState),
    let published := publishedOf env router parent entries (min k usizeMax) st
    let result := publishRaisedEvents env router parent (entries.map (·.event parent))
      (min k usizeMax) st
    result.2.1 = min (k + published.length) usizeMax ∧
    published.map Prod.snd = (List.range published.length).map (fun i => min (k + i) usizeMax) ∧
    (result.2.2 = .ok () → published.map Prod.fst = entries)
  | [], k, st => by simp [publishedOf, publishRaisedEvents]
  | entry :: entries, k, st => by
    have hnext : usizeSaturatingAdd (min k usizeMax) 1 = min (k + 1) usizeMax := by
      rw [usizeSaturatingAdd]
      omega
    dsimp only
    rw [List.map_cons, publishedOf, publishRaisedEvents]
    by_cases hreserved : entry.queue = Router.failureFactQueue
    · have hevent : (entry.event parent).queue = Router.failureFactQueue := hreserved
      rw [if_pos hreserved, if_pos hevent]
      simp
    · have hevent : ¬ (entry.event parent).queue = Router.failureFactQueue := hreserved
      rw [if_neg hreserved, if_neg hevent]
      dsimp only
      rcases publishOutcome env router (raisedEnvelope parent (entry.event parent)
        (min k usizeMax)) st with ⟨st', e | outcome⟩
      · simp [hnext]
      · dsimp only
        obtain ⟨hordinal, hordinals, hall⟩ := publishRaisedEvents_spec entries (k + 1) st'
        rw [hnext]
        refine ⟨?_, ?_, fun hok => ?_⟩
        · rw [hordinal, List.length_cons]
          congr 1
          omega
        · rw [List.map_cons, hordinals, List.length_cons, List.range_succ_eq_map, List.map_cons,
            List.map_map]
          refine congrArg _ (List.map_congr_left fun i _ => ?_)
          simp only [Function.comp_apply]
          congr 1
          omega
        · rw [List.map_cons, hall hok]

namespace Observer

/-- The ordinals of a run follow each other, and what was handed on was published unless something
failed. -/
structure Sound (o : Observer) : Prop where
  next : o.nextOrdinal = min o.published.length usizeMax
  ordinals : o.published.map Prod.snd = (List.range o.published.length).map (min · usizeMax)
  all : o.publishError = none → o.published.map Prod.fst = o.handed

variable {o : Observer}

theorem handed_hand (o : Observer) (entries : List RaisedEntry) :
    (o.hand env router parent entries).handed = o.handed ++ entries := rfl

theorem hand_nil (o : Observer) : o.hand env router parent [] = o := by
  simp [hand, publishRaisedEvents, publishedOf]

theorem Sound.hand (h : o.Sound) (entries : List RaisedEntry) :
    (o.hand env router parent entries).Sound := by
  obtain ⟨hordinal, hordinals, hall⟩ :=
    publishRaisedEvents_spec env router parent entries o.published.length o.router
  rw [← h.next] at hordinal hordinals hall
  refine ⟨?_, ?_, fun hnone => ?_⟩
  · rw [Observer.hand]
    simp only [List.length_append]
    exact hordinal
  · rw [Observer.hand]
    simp only [List.map_append, List.length_append, h.ordinals, hordinals, List.range_add, List.map_map]
    rfl
  · rw [Observer.hand] at hnone ⊢
    simp only [List.map_append] at hnone ⊢
    split at hnone
    · cases hnone
    · rename_i hok
      rw [h.all hnone, hall hok]

variable (codec : FrameCodec) (token : List Char)

/-- The lines of a run. -/
theorem foldl_line (f : List UInt8 → List Char) :
    ∀ (lines : List (List UInt8)) {o : Observer}, o.Sound →
      (lines.foldl (fun o line => o.line env router parent codec token (f line)) o).Sound ∧
      (lines.foldl (fun o line => o.line env router parent codec token (f line)) o).handed =
        o.handed ++ lines.flatMap fun line => parseAuthenticatedRaisedLine codec token (f line)
  | [], o, h => ⟨h, by simp⟩
  | line :: lines, o, h => by
    obtain ⟨hsound, hhanded⟩ := foldl_line f lines
      (h.hand env router parent (parseAuthenticatedRaisedLine codec token (f line)))
    refine ⟨hsound, ?_⟩
    rw [List.foldl_cons, Observer.line, hhanded, handed_hand, List.flatMap_cons, List.append_assoc]

end Observer

end Hand

/-! ## Transport -/

/-- The bytes a run leaves on the standard output. -/
def DeptRun.bytes (codec : FrameCodec) (token : List Char) (run : DeptRun) : List UInt8 :=
  Utf8.encode (run.stdout codec token)

/-- What a run raised is handed on exactly: every entry once and in order, the ordinals given out are
0, 1, 2, …, and unless the delivery fails the entries are published in that order.  An ordinal is a
`usize` and stays at its largest value. -/
structure Transported (run : DeptRun) (outcome : Observer × CompletedDelivery) : Prop where
  handed : outcome.1.handed = run.raised
  ordinals : outcome.1.published.map Prod.snd =
    (List.range outcome.1.published.length).map (min · usizeMax)
  published : outcome.2.failure = none → outcome.1.published.map Prod.fst = run.raised

section Transport

variable (env : Router.Env) (router : DeliveryRouter) (parent : DeliveryRecord) {codec : FrameCodec}
  {token : List Char} {run : DeptRun} (htoken : IsToken token)
  (hfree : run.transcript.TokenFree token) (hcodec : run.transcript.RoundTrips codec)
  {chunks : List (List UInt8)} (hchunks : chunks.flatten = run.bytes codec token)

theorem stdout_eq_text (codec : FrameCodec) (token : List Char) (run : DeptRun) :
    run.stdout codec token = run.transcript.text codec token := by
  have h := text_transcriptFrom codec token run.tail run.ops [] []
  rw [List.nil_append] at h
  exact h.symm

include htoken hfree hcodec hchunks in
/-- What a run that exits with zero hands on. -/
theorem runDurableRecord_spec (stderr : String) (st : RouterState) :
    let outcome := runDurableRecord env router parent codec token chunks (.ok ⟨0, stderr⟩) st
    outcome.1.Sound ∧ outcome.1.handed = run.transcript.readable ∧
      (outcome.2.failure = none → outcome.1.publishError = none) := by
  have hstdout : chunks.flatten = Utf8.encode (run.transcript.text codec token) := by
    rw [hchunks, DeptRun.bytes, stdout_eq_text]
  have hbusy : lockBusyFromSpawnResult ⟨0, stderr⟩ = none := by
    simp [lockBusyFromSpawnResult, lockBusyExitCode]
  obtain ⟨hsound, hhanded⟩ := Observer.foldl_line env router parent codec token
    (fun line => Utf8.lossy (stripLast 13 line)) (Lines.cut 10 chunks.flatten).1
    (o := ⟨0, none, st, [], []⟩) ⟨by simp, by simp, by simp⟩
  rw [← foldl_push] at hsound hhanded
  have hlines : ((Lines.cut 10 chunks.flatten).1.flatMap fun line =>
      parseAuthenticatedRaisedLine codec token (Utf8.lossy (stripLast 13 line))) =
      run.transcript.readable := by
    rw [hstdout, cut_encode, List.flatMap_map]
    simp only [stripLast_encode, Utf8.lossy_encode]
    exact Transcript.parsedLines_text htoken _ _ hfree hcodec
  rw [hlines, List.nil_append] at hhanded
  simp only [runDurableRecord, hbusy, if_true]
  split
  · exact ⟨hsound, hhanded, fun h => by cases h⟩
  · rename_i hnone
    split
    · rename_i hzero
      -- nothing was seen, and the second look finds nothing
      have hlost : run.transcript.readable = [] := by
        have hall := hsound.all hnone
        have hnext := hsound.next
        rw [hzero] at hnext
        have hlength : (chunks.foldl (push env router parent codec token)
            ([], ⟨0, none, st, [], []⟩)).2.published.length = 0 := by
          have hmax : 0 < usizeMax := by decide
          omega
        rw [List.length_eq_zero_iff] at hlength
        rw [hlength, List.map_nil, hhanded] at hall
        exact hall.symm
      rw [hstdout, Utf8.lossy_encode, Transcript.parse_text_of_lost htoken hfree hcodec hlost,
        Observer.hand_nil]
      exact ⟨hsound, hhanded, fun _ => hnone⟩
    · exact ⟨hsound, hhanded, fun _ => hnone⟩

include htoken hfree hcodec hchunks in
theorem transported_iff (stderr : String) (st : RouterState) :
    Transported run (runDurableRecord env router parent codec token chunks (.ok ⟨0, stderr⟩) st) ↔
      ∀ p ∈ run.transcript.frames, OnFreshLine p.1 := by
  obtain ⟨hsound, hhanded, hfailure⟩ :=
    runDurableRecord_spec env router parent htoken hfree hcodec hchunks stderr st
  obtain ⟨hne, hframes⟩ := frames_transcriptFrom run.tail run.ops [] []
  have hraised : run.transcript.frames.flatMap Prod.snd = run.raised := hframes
  rw [← Transcript.readable_eq_iff run.transcript.frames hne]
  constructor
  · intro h
    exact hhanded.symm.trans (h.handed.trans hraised.symm)
  · intro h
    have hall := hhanded.trans (h.trans hraised)
    exact ⟨hall, hsound.ordinals, fun hnone => (hsound.all (hfailure hnone)).trans hall⟩

end Transport

namespace Sample

/-- The token of a run. -/
def token : List Char := "01ARZ3NDEKTSV4RRFFQ69G5FAV".toList

/-- What is raised. -/
def entry : RaisedEntry := ⟨"next", .null⟩

/-- The text `base64` makes of `[{"queue":"next","payload":null}]`. -/
def payload : List Char := "W3sicXVldWUiOiJuZXh0IiwicGF5bG9hZCI6bnVsbH1d".toList

/-- `serde_json` and `base64` at the one frame of the runs below. -/
def codec : FrameCodec where
  encodeEntries := fun _ => payload
  decodeRaisedPayload := fun text => if text = payload then [entry] else []

/-- A department that writes a text and raises one event. -/
def deptRun (text : String) : DeptRun := ⟨[.write text.toList, .raise entry], []⟩

theorem isToken : IsToken token := by
  have h : token.all (fun c => c.isDigit || c.isUpper) = true := by decide
  refine ⟨by decide, fun c hc => ?_⟩
  simpa using List.all_eq_true.1 h c hc

theorem transcript_deptRun (text : String) :
    (deptRun text).transcript = ⟨[(text.toList, [entry])], []⟩ := rfl

theorem tokenFree {text : String} (h : text.toList.length < 26) :
    (deptRun text).transcript.TokenFree token := by
  have hlength : token.length = 26 := by decide
  rw [transcript_deptRun]
  refine ⟨fun p hp htoken => ?_, fun htoken => ?_⟩
  · rw [List.mem_singleton] at hp
    subst hp
    have hle := htoken.length_le
    dsimp only at hle
    omega
  · have hle := htoken.length_le
    rw [List.length_nil] at hle
    omega

theorem roundTrips (text : String) : (deptRun text).transcript.RoundTrips codec := by
  have hpayload : payload.all (fun c => c.isAlphanum || c == '-' || c == '_' || c == '=') = true := by
    decide
  rw [transcript_deptRun]
  intro p hp
  rw [List.mem_singleton] at hp
  subst hp
  have hcodec : codec.encodeEntries [entry] ≠ [] ∧
      codec.decodeRaisedPayload (codec.encodeEntries [entry]) = [entry] := by
    decide
  refine ⟨⟨hcodec.1, fun c hc => ?_⟩, hcodec.2⟩
  simpa [or_assoc] using List.all_eq_true.1 hpayload c hc

end Sample

end Fkst.Consumer
