import Fkst.Lib.Fnv
import Fkst.Rust

/-!
# The identity of a codex request

A codex request with a worktree runs under an adoption key, and a later request with the same key
adopts what the first one produced.  The key names the dedup key of the request, as far as it can be a
file name, and has a hash over the fields of the request, with a label in NULs before each.

The labels are not escaped in the fields.  `adoptionKeyForRequest_separates_iff` says what that costs:
two requests with one key are the same request, unless a dedup key, a worktree or a prompt of one of
them runs on over the label that follows.
-/

set_option autoImplicit false

namespace Fkst.Codex

open Lib
open Lib.Text (RunsOn)

/-! ## Requests -/

/-- `CodexSandbox`. -/
inductive CodexSandbox where
  | readOnly
  | workspaceWrite
  | dangerFullAccess
deriving DecidableEq

/-- `CodexSandbox::as_str`. -/
def CodexSandbox.asStr : CodexSandbox → String
  | readOnly => "read-only"
  | workspaceWrite => "workspace-write"
  | dangerFullAccess => "danger-full-access"

/-- The fields of a `CodexRequest` that have a part in its identity. -/
structure CodexRequest where
  prompt : String
  context : Option String := none
  worktree : Option String := none
  sandbox : Option CodexSandbox := none
  dedupKey : Option String := none
deriving DecidableEq

/-! ## The key -/

/-- A byte as it stands in a key. -/
def sanitizeByte (b : UInt8) : Char :=
  let c := Char.ofNat b.toNat
  if b < 128 && (c.isAlphanum || c == '_' || c == '-') then c else '-'

/-- `sanitize_adoption_key_segment`. -/
def sanitizeAdoptionKeySegment (value : String) : String :=
  let key := ((strBytes value).take 80).map sanitizeByte
  if key.isEmpty then "work-unit" else String.ofList key

/-- `adoption_request_hash`. -/
def adoptionRequestHash (request : CodexRequest) : String :=
  let hash := Fnv.basis
  let hash := Fnv.feed hash (strBytes (request.dedupKey.getD ""))
  let hash := Fnv.feed hash (strBytes "\x00worktree\x00")
  let hash := Fnv.feed hash (strBytes (request.worktree.getD ""))
  let hash := match request.sandbox with
    | some sandbox => Fnv.feed (Fnv.feed hash (strBytes "\x00sandbox\x00")) (strBytes sandbox.asStr)
    | none => hash
  let hash := Fnv.feed hash (strBytes "\x00prompt\x00")
  let hash := Fnv.feed hash (strBytes request.prompt)
  let hash := Fnv.feed hash (strBytes "\x00context\x00")
  let hash := Fnv.feed hash (strBytes (request.context.getD ""))
  String.ofList (Fnv.hex hash)

/-- `adoption_key_for_request`. -/
def adoptionKeyForRequest (request : CodexRequest) : String :=
  let identity := sanitizeAdoptionKeySegment (request.dedupKey.getD "prompt")
  let hash := adoptionRequestHash request
  if request.dedupKey.isSome then "dedup-" ++ identity ++ "-" ++ hash else "prompt-" ++ hash

/-- `CodexAdoptionPaths`. -/
structure CodexAdoptionPaths where
  key : String
  dir : List String
  prompt : List String
  stdout : List String
  stderr : List String
  effect : List String
  effectLog : List String
  result : List String
  status : List String

/-- `adoption_paths_for_request`, below the directory for adoptions. -/
def adoptionPathsForRequest (runtimeDir : List String) (request : CodexRequest) :
    Option CodexAdoptionPaths :=
  match request.worktree with
  | none => none
  | some worktree =>
    if (trim worktree.toList).isEmpty then none
    else
      let key := adoptionKeyForRequest request
      let dir := runtimeDir ++ [key]
      some
        { key := key
          dir := dir
          prompt := dir ++ ["prompt.txt"]
          stdout := dir ++ ["stdout.txt"]
          stderr := dir ++ ["stderr.txt"]
          effect := dir ++ ["effect.json"]
          effectLog := dir ++ ["effect-receipts.log"]
          result := dir ++ ["result.json"]
          status := dir ++ ["status.json"] }

/-! ## The text that is hashed -/

/-- The part of the sandbox in the text. -/
def sandboxText : Option CodexSandbox → List UInt8
  | some sandbox => strBytes "\x00sandbox\x00" ++ strBytes sandbox.asStr
  | none => []

namespace CodexRequest

variable (r r' : CodexRequest)

/-- The dedup key in the text. -/
def dedupText : List UInt8 := strBytes (r.dedupKey.getD "")

/-- The worktree in the text. -/
def worktreeText : List UInt8 := strBytes (r.worktree.getD "")

/-- What follows the prompt. -/
def afterPrompt : List UInt8 := strBytes "\x00context\x00" ++ strBytes (r.context.getD "")

/-- What follows the worktree. -/
def afterWorktree : List UInt8 :=
  sandboxText r.sandbox ++ (strBytes "\x00prompt\x00" ++ (strBytes r.prompt ++ r.afterPrompt))

/-- What follows the dedup key. -/
def afterDedup : List UInt8 := strBytes "\x00worktree\x00" ++ (r.worktreeText ++ r.afterWorktree)

/-- The text that is hashed. -/
def text : List UInt8 := r.dedupText ++ r.afterDedup

/-- The fields of two requests agree; no context is an empty one. -/
structure SameAs : Prop where
  dedupKey : r.dedupKey = r'.dedupKey
  worktree : r.worktree = r'.worktree
  sandbox : r.sandbox = r'.sandbox
  prompt : r.prompt = r'.prompt
  context : r.context.getD "" = r'.context.getD ""

/-- A field of the second request runs on over the label that follows the field in the first, and the
fields before it agree. -/
inductive Swallows : Prop
  | dedupKey (h : RunsOn r.dedupText r.afterDedup r'.dedupText r'.afterDedup)
  | worktree (hdedup : r.dedupText = r'.dedupText)
    (h : RunsOn r.worktreeText r.afterWorktree r'.worktreeText r'.afterWorktree)
  | prompt (hdedup : r.dedupText = r'.dedupText) (hworktree : r.worktreeText = r'.worktreeText)
    (hsandbox : r.sandbox = r'.sandbox)
    (h : RunsOn (strBytes r.prompt) r.afterPrompt (strBytes r'.prompt) r'.afterPrompt)

end CodexRequest

theorem adoptionRequestHash_eq (r : CodexRequest) :
    adoptionRequestHash r = String.ofList (Fnv.hex (Fnv.feed Fnv.basis r.text)) := by
  obtain ⟨prompt, context, worktree, sandbox, dedupKey⟩ := r
  cases sandbox with
  | none =>
    simp only [adoptionRequestHash, CodexRequest.text, CodexRequest.afterDedup,
      CodexRequest.afterWorktree, CodexRequest.afterPrompt, CodexRequest.dedupText,
      CodexRequest.worktreeText, sandboxText, Fnv.feed_append, List.nil_append]
  | some sandbox =>
    simp only [adoptionRequestHash, CodexRequest.text, CodexRequest.afterDedup,
      CodexRequest.afterWorktree, CodexRequest.afterPrompt, CodexRequest.dedupText,
      CodexRequest.worktreeText, sandboxText, Fnv.feed_append]

/-- The sandbox can be told from the text: its labels do not start alike, and what follows is no
label of a sandbox. -/
theorem sandboxText_inj {s s' : Option CodexSandbox} {x x' : List UInt8}
    (h : sandboxText s ++ (strBytes "\x00prompt\x00" ++ x) =
      sandboxText s' ++ (strBytes "\x00prompt\x00" ++ x')) : s = s' ∧ x = x' := by
  have hlabel : strBytes "\x00sandbox\x00" = [0, 115, 97, 110, 100, 98, 111, 120, 0] := by decide
  have hprompt : strBytes "\x00prompt\x00" = [0, 112, 114, 111, 109, 112, 116, 0] := by decide
  have hread : strBytes "read-only" = [114, 101, 97, 100, 45, 111, 110, 108, 121] := by decide
  have hwrite : strBytes "workspace-write" =
    [119, 111, 114, 107, 115, 112, 97, 99, 101, 45, 119, 114, 105, 116, 101] := by decide
  have hdanger : strBytes "danger-full-access" =
    [100, 97, 110, 103, 101, 114, 45, 102, 117, 108, 108, 45, 97, 99, 99, 101, 115, 115] := by decide
  rcases s with _ | (_ | _ | _) <;> rcases s' with _ | (_ | _ | _) <;>
    simp_all [sandboxText, CodexSandbox.asStr]

/-- The fields as they stand in the text. -/
structure CodexRequest.SameText (r r' : CodexRequest) : Prop where
  dedup : r.dedupText = r'.dedupText
  worktree : r.worktreeText = r'.worktreeText
  sandbox : r.sandbox = r'.sandbox
  prompt : strBytes r.prompt = strBytes r'.prompt
  after : r.afterPrompt = r'.afterPrompt

theorem CodexRequest.Swallows.text_eq {r r' : CodexRequest} (h : r.Swallows r') :
    r.text = r'.text := by
  cases h with
  | dedupKey h => exact Text.append_eq_append_iff_runsOn.2 (Or.inr (Or.inl h))
  | worktree hdedup h =>
    have heq := Text.append_eq_append_iff_runsOn.2 (Or.inr (Or.inl h))
    rw [text, text, afterDedup, afterDedup, hdedup, heq]
  | prompt hdedup hworktree hsandbox h =>
    have heq := Text.append_eq_append_iff_runsOn.2 (Or.inr (Or.inl h))
    rw [text, text, afterDedup, afterDedup, afterWorktree, afterWorktree, hdedup, hworktree,
      hsandbox, heq]

/-- **The text determines the fields, unless one runs on.** -/
theorem CodexRequest.text_eq_cases {r r' : CodexRequest} (h : r.text = r'.text) :
    r.SameText r' ∨ r.Swallows r' ∨ r'.Swallows r := by
  rcases Text.append_eq_append_iff_runsOn.1 h with ⟨hdedup, h⟩ | hruns | hruns
  · have h := List.append_cancel_left h
    rcases Text.append_eq_append_iff_runsOn.1 h with ⟨hworktree, h⟩ | hruns | hruns
    · obtain ⟨hsandbox, h⟩ := sandboxText_inj h
      rcases Text.append_eq_append_iff_runsOn.1 h with ⟨hprompt, hafter⟩ | hruns | hruns
      · exact Or.inl ⟨hdedup, hworktree, hsandbox, hprompt, hafter⟩
      · exact Or.inr (Or.inl (.prompt hdedup hworktree hsandbox hruns))
      · exact Or.inr (Or.inr (.prompt hdedup.symm hworktree.symm hsandbox.symm hruns))
    · exact Or.inr (Or.inl (.worktree hdedup hruns))
    · exact Or.inr (Or.inr (.worktree hdedup.symm hruns))
  · exact Or.inr (Or.inl (.dedupKey hruns))
  · exact Or.inr (Or.inr (.dedupKey hruns))

theorem CodexRequest.Swallows.not_sameAs {r r' : CodexRequest} (h : r.Swallows r') :
    ¬ r.SameAs r' := by
  intro hsame
  cases h with
  | dedupKey h => exact h.ne (by rw [dedupText, dedupText, hsame.dedupKey])
  | worktree _ h => exact h.ne (by rw [worktreeText, worktreeText, hsame.worktree])
  | prompt _ _ _ h => exact h.ne (by rw [hsame.prompt])

theorem CodexRequest.SameText.sameAs {r r' : CodexRequest} (h : r.SameText r')
    (hdedup : r.dedupKey.isSome = r'.dedupKey.isSome)
    (hworktree : r.worktree.isSome = r'.worktree.isSome) : r.SameAs r' where
  dedupKey := by
    have heq := strBytes_injective h.dedup
    cases hr : r.dedupKey <;> cases hr' : r'.dedupKey <;> simp_all
  worktree := by
    have heq := strBytes_injective h.worktree
    cases hr : r.worktree <;> cases hr' : r'.worktree <;> simp_all
  sandbox := h.sandbox
  prompt := strBytes_injective h.prompt
  context := strBytes_injective (List.append_cancel_left h.after)

/-! ## What the key separates -/

/-- The part of the key before the hash. -/
def CodexRequest.keyHead (r : CodexRequest) : String :=
  if r.dedupKey.isSome then "dedup-" ++ sanitizeAdoptionKeySegment (r.dedupKey.getD "prompt") ++ "-"
  else "prompt-"

theorem adoptionKeyForRequest_eq (r : CodexRequest) :
    adoptionKeyForRequest r = r.keyHead ++ adoptionRequestHash r := by
  rw [adoptionKeyForRequest, CodexRequest.keyHead]
  split <;> simp only [String.append_assoc]

theorem CodexRequest.keyHead_eq_iff {r r' : CodexRequest} : r.keyHead = r'.keyHead ↔
    r.dedupKey.map sanitizeAdoptionKeySegment = r'.dedupKey.map sanitizeAdoptionKeySegment := by
  have hfirst : ∀ s : String, "dedup-" ++ s ≠ "prompt-" := by
    intro s h
    have h := congrArg (fun s => s.toList.head?) h
    simp [String.toList_append] at h
  rw [keyHead, keyHead]
  cases r.dedupKey <;> cases r'.dedupKey <;> simp [String.append_assoc, hfirst, Ne.symm (hfirst _)]

theorem CodexRequest.isSome_of_keyHead_eq {r r' : CodexRequest} (h : r.keyHead = r'.keyHead) :
    r.dedupKey.isSome = r'.dedupKey.isSome := by
  have h := congrArg Option.isSome (keyHead_eq_iff.1 h)
  rwa [Option.isSome_map, Option.isSome_map] at h

/-- Keys agree in what they name and in what is hashed. -/
theorem adoptionKeyForRequest_eq_iff {r r' : CodexRequest}
    (hfnv : Fnv.feed Fnv.basis r.text = Fnv.feed Fnv.basis r'.text → r.text = r'.text) :
    adoptionKeyForRequest r = adoptionKeyForRequest r' ↔
      r.keyHead = r'.keyHead ∧ r.text = r'.text := by
  rw [adoptionKeyForRequest_eq, adoptionKeyForRequest_eq, adoptionRequestHash_eq,
    adoptionRequestHash_eq]
  constructor
  · intro h
    have h := congrArg String.toList h
    rw [String.toList_append, String.toList_append, String.toList_ofList,
      String.toList_ofList] at h
    obtain ⟨hhead, hhex⟩ := List.append_inj' h (by rw [Fnv.length_hex, Fnv.length_hex])
    exact ⟨String.toList_inj.1 hhead, hfnv (Fnv.hex_injective hhex)⟩
  · rintro ⟨hhead, htext⟩
    rw [hhead, htext]

/-- Two requests that the key takes for one: their dedup keys look alike and a field of the second
runs on. -/
def Confused (r r' : CodexRequest) : Prop :=
  r.dedupKey.map sanitizeAdoptionKeySegment = r'.dedupKey.map sanitizeAdoptionKeySegment ∧
    r.Swallows r'

/-- **When the key separates requests.**  Two requests with a worktree and one key have the same fields
exactly if no field of one of them runs on. -/
theorem adoptionKeyForRequest_separates_iff (r r' : CodexRequest) (runtimeDir : List String)
    (hr : (adoptionPathsForRequest runtimeDir r).isSome)
    (hr' : (adoptionPathsForRequest runtimeDir r').isSome)
    (hfnv : Fnv.feed Fnv.basis r.text = Fnv.feed Fnv.basis r'.text → r.text = r'.text) :
    (adoptionKeyForRequest r = adoptionKeyForRequest r' → r.SameAs r') ↔
      ¬ Confused r r' ∧ ¬ Confused r' r := by
  have hworktree : ∀ {r : CodexRequest}, (adoptionPathsForRequest runtimeDir r).isSome →
      r.worktree.isSome = true := by
    intro r h
    rw [adoptionPathsForRequest] at h
    cases hw : r.worktree with
    | none => simp [hw] at h
    | some w => rfl
  rw [adoptionKeyForRequest_eq_iff hfnv, Confused, Confused, ← CodexRequest.keyHead_eq_iff,
    ← CodexRequest.keyHead_eq_iff]
  constructor
  · intro h
    constructor
    · rintro ⟨hhead, hswallows⟩
      exact hswallows.not_sameAs (h ⟨hhead, hswallows.text_eq⟩)
    · rintro ⟨hhead, hswallows⟩
      obtain ⟨hd, hw, hs, hp, hc⟩ := h ⟨hhead.symm, hswallows.text_eq.symm⟩
      exact hswallows.not_sameAs ⟨hd.symm, hw.symm, hs.symm, hp.symm, hc.symm⟩
  · rintro ⟨hnot, hnot'⟩ ⟨hhead, htext⟩
    rcases CodexRequest.text_eq_cases htext with hsame | hswallows | hswallows
    · exact hsame.sameAs (CodexRequest.isSome_of_keyHead_eq hhead)
        ((hworktree hr).trans (hworktree hr').symm)
    · exact absurd ⟨hhead, hswallows⟩ hnot
    · exact absurd ⟨hhead.symm, hswallows⟩ hnot'

/-- Without NULs nothing runs on. -/
theorem not_confused {r r' : CodexRequest} (hdedup : 0 ∉ r'.dedupText)
    (hworktree : 0 ∉ r'.worktreeText) (hprompt : 0 ∉ strBytes r'.prompt) : ¬ Confused r r' := by
  have hworktreeLabel : strBytes "\x00worktree\x00" = 0 :: strBytes "worktree\x00" := by decide
  have hsandboxLabel : strBytes "\x00sandbox\x00" = 0 :: strBytes "sandbox\x00" := by decide
  have hpromptLabel : strBytes "\x00prompt\x00" = 0 :: strBytes "prompt\x00" := by decide
  have hcontextLabel : strBytes "\x00context\x00" = 0 :: strBytes "context\x00" := by decide
  rintro ⟨_, hswallows⟩
  cases hswallows with
  | dedupKey h =>
    rw [CodexRequest.afterDedup, hworktreeLabel, List.cons_append] at h
    exact hdedup h.mem
  | worktree _ h =>
    cases hs : r.sandbox with
    | none =>
      rw [CodexRequest.afterWorktree, hs, sandboxText, hpromptLabel, List.nil_append,
        List.cons_append] at h
      exact hworktree h.mem
    | some sandbox =>
      rw [CodexRequest.afterWorktree, hs, sandboxText, hsandboxLabel, List.cons_append,
        List.cons_append] at h
      exact hworktree h.mem
  | prompt _ _ _ h =>
    rw [CodexRequest.afterPrompt, hcontextLabel, List.cons_append] at h
    exact hprompt h.mem

/-- A request without a context. -/
def plainRequest : CodexRequest := { prompt := "x", worktree := some "w", dedupKey := some "d" }

theorem adoptionKeyForRequest_separates_plain :
    (adoptionKeyForRequest plainRequest =
        adoptionKeyForRequest { plainRequest with context := some "" } →
      plainRequest.SameAs { plainRequest with context := some "" }) ↔
      ¬ Confused plainRequest { plainRequest with context := some "" } ∧
        ¬ Confused { plainRequest with context := some "" } plainRequest :=
  adoptionKeyForRequest_separates_iff plainRequest { plainRequest with context := some "" } []
    (by decide) (by decide) fun _ => by decide

/-- A prompt that has the label of the context in it. -/
def labelPrompt : CodexRequest := { prompt := "x\x00context\x00y", worktree := some "w" }

/-- A context that has it. -/
def labelContext : CodexRequest :=
  { prompt := "x", worktree := some "w", context := some "y\x00context\x00" }

/-- Two requests with one key that differ in prompt and context. -/
theorem labelPrompt_adopts_labelContext :
    labelPrompt.text = labelContext.text ∧
      adoptionKeyForRequest labelPrompt = adoptionKeyForRequest labelContext ∧
      ¬ labelPrompt.SameAs labelContext := by
  have htext : labelPrompt.text = labelContext.text := by decide
  have hhead : labelPrompt.keyHead = labelContext.keyHead := rfl
  refine ⟨htext, ?_, fun h => absurd h.prompt (by decide)⟩
  rw [adoptionKeyForRequest_eq, adoptionKeyForRequest_eq, adoptionRequestHash_eq,
    adoptionRequestHash_eq, hhead, htext]

end Fkst.Codex
