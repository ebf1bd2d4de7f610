import Fkst.Lib.Lua
import Fkst.Lib.Utf8

/-!
# The static scan for `require`

`require_literals` of `deps_cli.rs` looks through the bytes of a Lua source for calls of `require` with a
string, and jumps over comments.  It knows of no other strings.

`calls` is what Lua makes of the source: the values of the strings that `require` is called with.
`requireLiterals_eq` says that the scan finds these in a source whose strings are no trap for it
(`Plain`).
-/

set_option autoImplicit false

namespace Fkst.Manifest

open Lib
open Lib.Lua (Lexeme Item WellLexed source isNewline isWordByte isQuote not_isWordByte_of_isSpace
  not_isWordByte_of_isQuote)

/-! ## The scan -/

/-- `is_ident_byte`. -/
def isIdentByte (b : UInt8) : Bool :=
  ('0'.toUInt8 ≤ b && b ≤ '9'.toUInt8) || ('a'.toUInt8 ≤ b && b ≤ 'z'.toUInt8) ||
    ('A'.toUInt8 ≤ b && b ≤ 'Z'.toUInt8) || b = '_'.toUInt8

/-- `is_ascii_whitespace`. -/
def isAsciiWhitespace (b : UInt8) : Bool :=
  b = ' '.toUInt8 || b = '\t'.toUInt8 || b = '\n'.toUInt8 || b = 0x0C || b = '\r'.toUInt8

/-- `skip_space`. -/
def skipSpace (bytes : List UInt8) : List UInt8 := bytes.dropWhile isAsciiWhitespace

/-- `skip_line`. -/
def skipLine (bytes : List UInt8) : List UInt8 := bytes.dropWhile (· ≠ '\n'.toUInt8)

/-- `is_lua_line_comment`. -/
def isLuaLineComment (bytes : List UInt8) : Bool := ['-'.toUInt8, '-'.toUInt8].isPrefixOf bytes

/-- `require`. -/
def requireBytes : List UInt8 := "require".toList.map Char.toUInt8

/-- The loop of `parse_require_call`: a string up to its quote.  Every byte is a character of its own. -/
def parseString (quote : UInt8) : List UInt8 → Option (List Char × List UInt8)
  | [] => none
  | b :: bytes =>
    if b = quote then some ([], bytes)
    else if b = '\\'.toUInt8 then
      match bytes with
      | [] => none
      | c :: bytes => (parseString quote bytes).map fun (value, after) => (Char.ofNat c.toNat :: value, after)
    else (parseString quote bytes).map fun (value, after) => (Char.ofNat b.toNat :: value, after)

/-- A bracket after `require`, with the blanks behind it. -/
def skipParen : List UInt8 → List UInt8
  | [] => []
  | b :: bytes => if b = '('.toUInt8 then skipSpace bytes else b :: bytes

/-- `parse_require_call`: the value, and what comes after the string. -/
def parseRequireCall (bytes : List UInt8) : Option (String × List UInt8) :=
  match skipParen (skipSpace bytes) with
  | [] => none
  | quote :: bytes =>
    if quote ≠ '"'.toUInt8 ∧ quote ≠ '\''.toUInt8 then none
    else (parseString quote bytes).map fun (value, after) => (String.ofList value, after)

/-- A call at this place, after a byte that may be the end of a longer name. -/
def requireAt (previous : Option UInt8) (bytes : List UInt8) : Option (String × List UInt8) :=
  let after := bytes.drop requireBytes.length
  if requireBytes.isPrefixOf bytes ∧ previous.all (!isIdentByte ·) ∧ after.head?.all (!isIdentByte ·) then
    parseRequireCall after
  else none

/-- The loop of `require_literals`.  Some bytes are jumped over. -/
def scan : ℕ → Option UInt8 → List UInt8 → List String
  | _, _, [] => []
  | skip + 1, _, b :: bytes => scan skip (some b) bytes
  | 0, previous, b :: bytes =>
    if isLuaLineComment (b :: bytes) then
      scan (bytes.length - (skipLine (bytes.drop 1)).length) (some b) bytes
    else
      match requireAt previous (b :: bytes) with
      | some (module, after) => module :: scan (bytes.length - after.length) (some b) bytes
      | none => scan 0 (some b) bytes

/-- `require_literals`. -/
def requireLiterals (source : String) : List String := scan 0 none (Utf8.encode source.toList)

/-! ## What Lua makes of it -/

/-- Comments and blanks do not count. -/
def Counts : Lexeme → Bool
  | .space _ => false
  | .comment _ => false
  | _ => true

/-- The value of a string. -/
def valueOf (items : List Item) : List UInt8 := items.flatMap Item.value

/-- The call of `require` that starts with a token: the value of its string. -/
def callAt : List Lexeme → Option (List UInt8)
  | .word name :: .string _ items :: _ => if name = requireBytes then some (valueOf items) else none
  | .word name :: .symbol left :: .string _ items :: .symbol right :: _ =>
    if name = requireBytes ∧ left = '('.toUInt8 ∧ right = ')'.toUInt8 then some (valueOf items) else none
  | _ => none

/-- The calls among some tokens. -/
def callsFrom : List Lexeme → List (List UInt8)
  | [] => []
  | token :: tokens => (callAt (token :: tokens)).toList ++ callsFrom tokens

/-- **The calls of `require` with a string in a source.** -/
def calls (lexemes : List Lexeme) : List (List UInt8) := callsFrom (lexemes.filter Counts)

/-! ## Sources that are no trap -/

/-- A piece of a string that both read alike: it is in ASCII, and stands for itself or follows a
backslash. -/
def PlainItem (quote : UInt8) (item : Item) : Prop :=
  ∃ b : UInt8, b < 0x80 ∧ item.value = [b] ∧
    (item.raw = [b] ∧ b ≠ quote ∧ b ≠ '\\'.toUInt8 ∨ item.raw = ['\\'.toUInt8, b])

/-- A quote follows, as the scan sees it. -/
def OpensQuote (bytes : List UInt8) : Prop := ∃ b ∈ (skipParen (skipSpace bytes)).head?, isQuote b = true

/-- A string that the scan walks through: there is no mark of a comment in it, and no `require` with a
quote behind it, be it the quote at the end. -/
def Quiet (quote : UInt8) (items : List Item) : Prop :=
  ¬ ['-'.toUInt8, '-'.toUInt8] <:+: items.flatMap Item.raw ∧
    ∀ before after, items.flatMap Item.raw ++ [quote] = before ++ (requireBytes ++ after) →
      (∀ b ∈ before.getLast?, isIdentByte b = false) → (∀ b ∈ after.head?, isIdentByte b = false) →
      ¬ OpensQuote after

/-- The end of a comment, as the scan sees it. -/
def EndsLine (lexemes : List Lexeme) : Prop :=
  lexemes = [] ∨ (∃ rest, lexemes = .space '\n'.toUInt8 :: rest) ∨
    ∃ rest, lexemes = .space '\r'.toUInt8 :: .space '\n'.toUInt8 :: rest

/-- The tokens after `require` start like a call with a string. -/
def StartsCall : List Lexeme → Prop
  | .string _ _ :: _ => True
  | .symbol b :: .string _ _ :: _ => b = '('.toUInt8
  | _ => False

/-- Blanks that the scan jumps over. -/
def Blanks (lexemes : List Lexeme) : Prop :=
  ∀ lexeme ∈ lexemes, ∃ b, lexeme = .space b ∧ isAsciiWhitespace b = true

/-- **A source whose strings are no trap for the scan.**  Strings that are not the argument of a call are
quiet; comments end with a line feed; a call has nothing but blanks between its parts, its string is plain,
and a bracket before the string is closed behind it. -/
inductive Plain : List Lexeme → Prop where
  | nil : Plain []
  | space {b : UInt8} {rest : List Lexeme} (h : Plain rest) : Plain (.space b :: rest)
  | symbol {b : UInt8} {rest : List Lexeme} (h : Plain rest) : Plain (.symbol b :: rest)
  | comment {text : List UInt8} {rest : List Lexeme} (hline : EndsLine rest) (h : Plain rest) :
    Plain (.comment text :: rest)
  | word {name : List UInt8} {rest : List Lexeme}
    (hname : name = requireBytes → ¬ StartsCall (rest.filter Counts)) (h : Plain rest) :
    Plain (.word name :: rest)
  | string {quote : UInt8} {items : List Item} {rest : List Lexeme} (hquiet : Quiet quote items)
    (h : Plain rest) : Plain (.string quote items :: rest)
  | call {blanks rest : List Lexeme} {quote : UInt8} {items : List Item} (hblanks : Blanks blanks)
    (hitems : ∀ item ∈ items, PlainItem quote item) (h : Plain rest) :
    Plain (.word requireBytes :: (blanks ++ .string quote items :: rest))
  | bracketCall {blanks blanks' rest : List Lexeme} {quote : UInt8} {items : List Item}
    (hblanks : Blanks blanks) (hblanks' : Blanks blanks') (hitems : ∀ item ∈ items, PlainItem quote item)
    (hclosed : (rest.filter Counts).head? = some (.symbol ')'.toUInt8)) (h : Plain rest) :
    Plain (.word requireBytes ::
      (blanks ++ .symbol '('.toUInt8 :: (blanks' ++ .string quote items :: rest)))

/-! ## Walking through a source -/

section Walk

variable {previous : Option UInt8} {b : UInt8} {bytes : List UInt8}

theorem scan_skip (mid bytes : List UInt8) (previous : Option UInt8) :
    scan mid.length previous (mid ++ bytes) = scan 0 (mid.getLast?.or previous) bytes := by
  induction mid generalizing previous with
  | nil => rfl
  | cons c mid ih =>
    show scan mid.length (some c) (mid ++ bytes) = _
    rw [ih, List.getLast?_cons]
    cases mid.getLast? <;> rfl

/-- A byte that nothing starts with. -/
theorem scan_step (hcomment : isLuaLineComment (b :: bytes) = false)
    (hrequire : requireAt previous (b :: bytes) = none) :
    scan 0 previous (b :: bytes) = scan 0 (some b) bytes := by
  rw [scan, hcomment, hrequire]
  rfl

/-- Bytes that nothing starts with. -/
theorem scan_run {text : List UInt8} (h : ∀ before b after, text = before ++ b :: after →
      isLuaLineComment (b :: (after ++ bytes)) = false ∧
        requireAt (before.getLast?.or previous) (b :: (after ++ bytes)) = none) :
    scan 0 previous (text ++ bytes) = scan 0 (text.getLast?.or previous) bytes := by
  induction text generalizing previous with
  | nil => rfl
  | cons c text ih =>
    obtain ⟨hcomment, hrequire⟩ := h [] c text rfl
    have hrequire : requireAt previous (c :: (text ++ bytes)) = none := hrequire
    rw [List.cons_append, scan_step hcomment hrequire, ih, List.getLast?_cons]
    · cases text.getLast? <;> rfl
    · intro before b after heq
      obtain ⟨hcomment, hrequire⟩ := h (c :: before) b after (by rw [heq]; rfl)
      refine ⟨hcomment, ?_⟩
      rw [List.getLast?_cons] at hrequire
      cases hlast : before.getLast? with
      | none => simpa [hlast] using hrequire
      | some d => simpa [hlast] using hrequire

theorem isLuaLineComment_of_ne (h : b ≠ '-'.toUInt8) : isLuaLineComment (b :: bytes) = false := by
  rw [isLuaLineComment, List.isPrefixOf_cons_cons, Bool.and_eq_false_iff]
  exact Or.inl (beq_eq_false_iff_ne.2 h.symm)

theorem requireAt_of_ne (h : b ≠ 'r'.toUInt8) : requireAt previous (b :: bytes) = none := by
  rw [requireAt, if_neg]
  rintro ⟨hstart, _⟩
  have heq : requireBytes = 'r'.toUInt8 :: "equire".toList.map Char.toUInt8 := rfl
  rw [heq, List.isPrefixOf_cons_cons, Bool.and_eq_true, beq_iff_eq] at hstart
  exact h hstart.1.symm

theorem requireAt_of_previous (h : previous.all (!isIdentByte ·) = false) :
    requireAt previous bytes = none := by
  rw [requireAt, if_neg]
  rintro ⟨_, hprevious, _⟩
  rw [h] at hprevious
  cases hprevious

/-- What came before does not matter where no name goes on. -/
theorem scan_previous (h : b ≠ 'r'.toUInt8) (previous' : Option UInt8) :
    scan 0 previous (b :: bytes) = scan 0 previous' (b :: bytes) := by
  rw [scan, scan, requireAt_of_ne h, requireAt_of_ne h]

theorem parseRequireCall_eq_none (h : ¬ OpensQuote bytes) : parseRequireCall bytes = none := by
  rw [parseRequireCall]
  rw [OpensQuote] at h
  cases hskip : skipParen (skipSpace bytes) with
  | nil => rfl
  | cons quote rest =>
    have hquote : ¬ isQuote quote = true := fun hquote => h ⟨quote, by rw [hskip]; rfl, hquote⟩
    simp only [isQuote, Bool.or_eq_true, decide_eq_true_eq, not_or] at hquote
    exact if_pos hquote

end Walk

/-! ## Pieces that are walked through -/

section Pieces

variable {previous : Option UInt8} {bytes : List UInt8}

/-- Bytes of names are those of Lua. -/
theorem isIdentByte_eq (b : UInt8) : isIdentByte b = isWordByte b := rfl

theorem isSpace_of_isAsciiWhitespace {b : UInt8} (h : isAsciiWhitespace b = true) : Lua.isSpace b = true := by
  simp only [isAsciiWhitespace, Bool.or_eq_true, decide_eq_true_eq] at h
  rcases h with (((rfl | rfl) | rfl) | rfl) | rfl <;> decide

/-- No blank, quote or bracket is in a name. -/
theorem ne_of_isWordByte {b c : UInt8} (h : isWordByte b = true) (hc : isWordByte c = false) : b ≠ c := by
  rintro rfl
  rw [h] at hc
  cases hc

/-- A byte of no name, which starts no comment, is walked over. -/
theorem scan_symbol {b : UInt8} (hword : isWordByte b = false)
    (hcomment : ¬ (b = '-'.toUInt8 ∧ bytes.head? = some '-'.toUInt8)) :
    scan 0 previous (b :: bytes) = scan 0 (some b) bytes := by
  refine scan_step ?_ (requireAt_of_ne ?_)
  · cases bytes with
    | nil => exact Bool.and_false _
    | cons c bytes =>
      by_contra hdashes
      rw [Bool.not_eq_false, isLuaLineComment, List.isPrefixOf_cons_cons, List.isPrefixOf_cons_cons,
        Bool.and_eq_true, Bool.and_eq_true, beq_iff_eq, beq_iff_eq] at hdashes
      exact hcomment ⟨hdashes.1.symm, congrArg some hdashes.2.1.symm⟩
  · exact (ne_of_isWordByte (c := b) (by decide) hword).symm

/-- A name is walked over if there is no call with it. -/
theorem scan_word {name : List UInt8} (hname : ∀ b ∈ name, isWordByte b = true)
    (hafter : ∀ b ∈ bytes.head?, isWordByte b = false)
    (hcall : name = requireBytes → parseRequireCall bytes = none) :
    scan 0 previous (name ++ bytes) = scan 0 (name.getLast?.or previous) bytes := by
  refine scan_run fun before b after heq => ⟨?_, ?_⟩
  · refine isLuaLineComment_of_ne (ne_of_isWordByte (hname b ?_) (by decide))
    rw [heq]
    exact List.mem_append_right _ List.mem_cons_self
  · cases hlast : before.getLast? with
    | some c =>
      -- in the middle of the name
      refine requireAt_of_previous ?_
      have hmem : c ∈ name := by
        rw [heq]
        exact List.mem_append_left _ (List.mem_of_getLast? hlast)
      show (!isIdentByte c) = false
      rw [isIdentByte_eq, hname c hmem]
      rfl
    | none =>
      -- at its start
      obtain rfl := List.getLast?_eq_none_iff.1 hlast
      obtain rfl : name = b :: after := heq
      rw [requireAt]
      split
      · rename_i hstart
        obtain ⟨hstart, _, hnext⟩ := hstart
        obtain ⟨rest, hrest⟩ := List.isPrefixOf_iff_prefix.1 hstart
        have hdrop : (b :: (after ++ bytes)).drop requireBytes.length = rest := by
          rw [← hrest, List.drop_left]
        rw [hdrop] at hnext ⊢
        have heq : requireBytes ++ rest = (b :: after) ++ bytes := hrest
        rcases List.append_eq_append_iff.1 heq with ⟨more, hname', rfl⟩ | ⟨more, hrequire, rfl⟩
        · cases more with
          | nil => exact hcall (hname'.trans (List.append_nil _))
          | cons c more =>
            -- the name is longer than that
            have hc := hname c (hname' ▸ List.mem_append_right _ List.mem_cons_self)
            have hnext : (!isIdentByte c) = true := hnext
            rw [isIdentByte_eq, hc] at hnext
            cases hnext
        · cases more with
          | nil => exact hcall ((List.append_nil _).symm.trans hrequire.symm)
          | cons c more =>
            -- the name goes on behind its end
            have hc : isWordByte c = true := by
              have hmem : c ∈ requireBytes := hrequire ▸ List.mem_append_right _ List.mem_cons_self
              exact List.all_eq_true.1 (by decide +kernel : requireBytes.all isWordByte = true) c hmem
            cases hc.symm.trans (hafter c rfl)
      · rfl

variable (previous bytes) in
/-- **A comment is jumped over** up to its line feed. -/
theorem scan_comment {text : List UInt8} (htext : ∀ b ∈ text, isNewline b = false) :
    ∃ previous', scan 0 previous ('-'.toUInt8 :: '-'.toUInt8 :: (text ++ bytes)) =
      scan 0 previous' (skipLine bytes) := by
  obtain ⟨mid, hmid⟩ : ∃ mid, bytes = mid ++ skipLine bytes := ⟨_, List.takeWhile_append_dropWhile.symm⟩
  have hline : skipLine (text ++ bytes) = skipLine bytes := by
    rw [skipLine, skipLine, List.dropWhile_append_of_pos]
    intro b hb
    have hb := htext b hb
    rw [isNewline, Bool.or_eq_false_iff, decide_eq_false_iff_not] at hb
    exact decide_eq_true hb.1
  have hall : '-'.toUInt8 :: (text ++ bytes) = ('-'.toUInt8 :: (text ++ mid)) ++ skipLine bytes := by
    rw [List.cons_append, List.append_assoc, ← hmid]
  have hdashes : isLuaLineComment ('-'.toUInt8 :: '-'.toUInt8 :: (text ++ bytes)) = true := rfl
  refine ⟨('-'.toUInt8 :: (text ++ mid)).getLast?.or (some '-'.toUInt8), ?_⟩
  rw [scan, if_pos hdashes]
  show scan (_ - (skipLine (text ++ bytes)).length) _ _ = _
  rw [hline, hall, List.length_append, Nat.add_sub_cancel, scan_skip]

/-- Blanks are jumped over up to a quote at the latest. -/
theorem skipSpace_append {quote : UInt8} (hquote : isAsciiWhitespace quote = false) (init : List UInt8) :
    ∃ init', ∀ bytes, skipSpace (init ++ quote :: bytes) = init' ++ quote :: bytes := by
  induction init with
  | nil =>
    refine ⟨[], fun bytes => ?_⟩
    rw [List.nil_append, skipSpace, List.dropWhile_cons, if_neg (by rw [hquote]; exact Bool.false_ne_true)]
  | cons c init ih =>
    by_cases hc : isAsciiWhitespace c = true
    · obtain ⟨init', hinit⟩ := ih
      refine ⟨init', fun bytes => ?_⟩
      rw [List.cons_append, skipSpace, List.dropWhile_cons, if_pos hc]
      exact hinit bytes
    · refine ⟨c :: init, fun bytes => ?_⟩
      rw [List.cons_append, skipSpace, List.dropWhile_cons, if_neg hc]

/-- What comes after a quote does not matter for whether one opens. -/
theorem opensQuote_append {quote : UInt8} (hquote : isQuote quote = true) {init bytes : List UInt8}
    (h : OpensQuote (init ++ quote :: bytes)) : OpensQuote (init ++ [quote]) := by
  have hspace : isAsciiWhitespace quote = false := by
    simp only [isQuote, Bool.or_eq_true, decide_eq_true_eq] at hquote
    rcases hquote with rfl | rfl <;> decide
  have hparen : quote ≠ '('.toUInt8 := by
    rintro rfl
    exact absurd hquote (by decide)
  have hhead : ∀ (init bytes : List UInt8), (init ++ quote :: bytes).head? = (init ++ [quote]).head? := by
    intro init bytes
    cases init <;> rfl
  rw [OpensQuote] at h ⊢
  obtain ⟨init', hinit⟩ := skipSpace_append hspace init
  rw [hinit] at h ⊢
  cases init' with
  | nil =>
    rw [List.nil_append, skipParen, if_neg hparen] at h ⊢
    exact h
  | cons c init' =>
    rw [List.cons_append, skipParen] at h ⊢
    by_cases hc : c = '('.toUInt8
    · obtain ⟨init'', hinit'⟩ := skipSpace_append hspace init'
      rw [if_pos hc, hinit'] at h ⊢
      rwa [hhead] at h
    · rw [if_neg hc] at h ⊢
      exact h

/-- **A quiet string is walked through.** -/
theorem scan_string {quote : UInt8} {items : List Item} (hquote : isQuote quote = true)
    (hquiet : Quiet quote items) :
    scan 0 previous (quote :: (items.flatMap Item.raw ++ [quote]) ++ bytes) =
      scan 0 (some quote) bytes := by
  have hword := not_isWordByte_of_isQuote hquote
  have hdash : '-'.toUInt8 ≠ quote := by
    rintro rfl
    exact absurd hquote (by decide)
  obtain ⟨hcomment, hrequire⟩ := hquiet
  generalize items.flatMap Item.raw = text at hcomment hrequire ⊢
  -- what is in front of the last quote
  have hlast : ∀ {before after : List UInt8}, text ++ [quote] = before ++ after → after ≠ [] →
      ∃ init, after = init ++ [quote] ∧ text = before ++ init := by
    intro before after heq hne
    obtain ⟨init, c, rfl⟩ := (List.eq_nil_or_concat after).resolve_left hne
    rw [List.concat_eq_append, ← List.append_assoc] at heq
    obtain ⟨htext, hc⟩ := List.append_inj' heq rfl
    obtain rfl := (List.cons.inj hc).1
    exact ⟨init, List.concat_eq_append, htext⟩
  have hrun := @scan_run previous bytes (quote :: (text ++ [quote])) ?_
  · rw [hrun, List.getLast?_cons, List.getLast?_append]
    rfl
  intro before b after heq
  cases before with
  | nil =>
    obtain ⟨rfl, rfl⟩ := List.cons.inj heq
    exact ⟨isLuaLineComment_of_ne hdash.symm,
      requireAt_of_ne (ne_of_isWordByte (b := 'r'.toUInt8) (by decide) hword).symm⟩
  | cons c before =>
    obtain ⟨rfl, htail⟩ := List.cons.inj heq
    -- what starts there and has no quote in it lies in the string
    have hinside : ∀ {mid rest : List UInt8}, mid ++ rest = b :: (after ++ bytes) → quote ∉ mid →
        ∃ init, rest = init ++ quote :: bytes ∧ text = before ++ (mid ++ init) := by
      intro mid rest hmid hfree
      obtain ⟨init, hinit, htext⟩ := hlast htail (List.cons_ne_nil _ _)
      have hmid : mid ++ rest = init ++ quote :: bytes := by
        rw [hmid, ← List.cons_append, hinit, List.append_assoc, List.singleton_append]
      rcases List.append_eq_append_iff.1 hmid with ⟨more, rfl, rfl⟩ | ⟨more, rfl, hmore⟩
      · exact ⟨more, rfl, htext⟩
      · cases more with
        | nil => exact ⟨[], hmore.symm, by rw [List.append_nil, List.append_nil, htext]⟩
        | cons d more =>
          obtain ⟨rfl, _⟩ := List.cons.inj hmore
          exact absurd (List.mem_append_right _ List.mem_cons_self) hfree
    constructor
    · by_contra hdashes
      rw [Bool.not_eq_false] at hdashes
      obtain ⟨rest, hrest⟩ := List.isPrefixOf_iff_prefix.1 hdashes
      obtain ⟨init, _, htext⟩ := hinside hrest (by simpa using hdash.symm)
      exact hcomment ⟨before, init, by rw [htext, List.append_assoc]⟩
    · rw [requireAt]
      split
      · rename_i hstart
        obtain ⟨hstart, hprevious, hnext⟩ := hstart
        obtain ⟨rest, hrest⟩ := List.isPrefixOf_iff_prefix.1 hstart
        have hdrop : (b :: (after ++ bytes)).drop requireBytes.length = rest := by
          rw [← hrest, List.drop_left]
        rw [hdrop] at hnext ⊢
        have hfree : quote ∉ requireBytes := fun hmem => by
          have hall := List.all_eq_true.1 (by decide +kernel : requireBytes.all isWordByte = true) quote hmem
          rw [hword] at hall
          cases hall
        obtain ⟨init, rfl, htext⟩ := hinside hrest hfree
        refine parseRequireCall_eq_none fun hopens =>
          hrequire before (init ++ [quote]) ?_ ?_ ?_ (opensQuote_append hquote hopens)
        · rw [htext, List.append_assoc, List.append_assoc]
        · intro d hd
          rw [Option.mem_def] at hd
          rw [List.getLast?_cons, hd] at hprevious
          simpa using hprevious
        · intro d hd
          have hd : (init ++ quote :: bytes).head? = some d := by
            cases init <;> exact hd
          rw [hd] at hnext
          simpa using hnext
      · rfl

theorem parseString_quote (quote : UInt8) : parseString quote (quote :: bytes) = some ([], bytes) := by
  rw [parseString.eq_def]
  exact if_pos rfl

theorem parseString_escape {quote : UInt8} (h : '\\'.toUInt8 ≠ quote) (c : UInt8) :
    parseString quote ('\\'.toUInt8 :: c :: bytes) =
      (parseString quote bytes).map fun (value, after) => (Char.ofNat c.toNat :: value, after) := by
  rw [parseString.eq_def]
  exact if_neg h

theorem parseString_cons {quote b : UInt8} (hquote : b ≠ quote) (hslash : b ≠ '\\'.toUInt8) :
    parseString quote (b :: bytes) =
      (parseString quote bytes).map fun (value, after) => (Char.ofNat b.toNat :: value, after) := by
  rw [parseString.eq_def]
  exact (if_neg hquote).trans (if_neg hslash)

theorem utf8EncodeChar_of_lt {b : UInt8} (h : b < 0x80) : String.utf8EncodeChar (Char.ofNat b.toNat) = [b] := by
  have hall := Lua.forall_byte (p := fun b => !(b < 0x80) ||
    String.utf8EncodeChar (Char.ofNat b.toNat) = [b]) (by decide +kernel) b
  simpa [h] using hall

variable (bytes) in
/-- A plain string is read as Lua reads it. -/
theorem parseString_plain {quote : UInt8} {items : List Item} (hquote : isQuote quote = true)
    (hitems : ∀ item ∈ items, PlainItem quote item) :
    ∃ value, parseString quote (items.flatMap Item.raw ++ quote :: bytes) = some (value, bytes) ∧
      Utf8.encode value = valueOf items := by
  induction items with
  | nil => exact ⟨[], parseString_quote quote, rfl⟩
  | cons item items ih =>
    rw [List.forall_mem_cons] at hitems
    obtain ⟨⟨b, hb, hvalue, hraw⟩, hitems⟩ := hitems
    obtain ⟨value, hparse, hencode⟩ := ih hitems
    refine ⟨Char.ofNat b.toNat :: value, ?_, ?_⟩
    · rw [List.flatMap_cons, List.append_assoc]
      rcases hraw with ⟨hraw, hne, hslash⟩ | hraw
      · rw [hraw, List.singleton_append, parseString_cons hne hslash, hparse]
        rfl
      · have hslash : '\\'.toUInt8 ≠ quote := by
          rintro rfl
          exact absurd hquote (by decide)
        rw [hraw, List.cons_append, List.singleton_append, parseString_escape hslash, hparse]
        rfl
    · rw [Utf8.encode_cons, hencode, utf8EncodeChar_of_lt hb, valueOf, valueOf, List.flatMap_cons, hvalue]

/-- A call is reported, and the scan goes on behind its string. -/
theorem scan_call {module : String} {init after : List UInt8} {quote : UInt8}
    (hprevious : previous.all (!isIdentByte ·) = true)
    (hnext : ∀ b ∈ (init ++ quote :: after).head?, isWordByte b = false)
    (hparse : parseRequireCall (init ++ quote :: after) = some (module, after)) :
    scan 0 previous (requireBytes ++ (init ++ quote :: after)) = module :: scan 0 (some quote) after := by
  have hcons : requireBytes ++ (init ++ quote :: after) =
      'r'.toUInt8 :: ((requireBytes.tail ++ init ++ [quote]) ++ after) := by
    rw [List.append_assoc, List.append_assoc]
    rfl
  have hnext : (init ++ quote :: after).head?.all (!isIdentByte ·) = true := by
    cases hhead : (init ++ quote :: after).head? with
    | none => rfl
    | some b =>
      show (!isIdentByte b) = true
      rw [isIdentByte_eq, hnext b hhead]
      rfl
  have hcall : requireAt previous (requireBytes ++ (init ++ quote :: after)) = some (module, after) := by
    rw [requireAt, List.drop_left, if_pos ⟨List.isPrefixOf_iff_prefix.2 (List.prefix_append _ _), hprevious, hnext⟩]
    exact hparse
  rw [hcons] at hcall ⊢
  rw [scan, if_neg (by rw [isLuaLineComment_of_ne (by decide)]; exact Bool.false_ne_true), hcall]
  show _ :: scan (_ - _) _ _ = _
  rw [List.length_append, Nat.add_sub_cancel, scan_skip, List.getLast?_concat]
  rfl

/-- Blanks are jumped over. -/
theorem skipSpace_blanks {blanks : List Lexeme} (h : Blanks blanks) {b : UInt8}
    (hb : isAsciiWhitespace b = false) : skipSpace (source blanks ++ b :: bytes) = b :: bytes := by
  have hall : ∀ c ∈ source blanks, isAsciiWhitespace c = true := by
    intro c hc
    obtain ⟨lexeme, hmem, hc⟩ := List.mem_flatMap.1 hc
    obtain ⟨d, rfl, hd⟩ := h lexeme hmem
    rwa [List.mem_singleton.1 hc]
  rw [skipSpace, List.dropWhile_append_of_pos hall, List.dropWhile_cons,
    if_neg (by rw [hb]; exact Bool.false_ne_true)]

theorem not_isAsciiWhitespace_of_isQuote {b : UInt8} (h : isQuote b = true) : isAsciiWhitespace b = false := by
  simp only [isQuote, Bool.or_eq_true, decide_eq_true_eq] at h
  rcases h with rfl | rfl <;> decide

theorem ne_paren_of_isQuote {b : UInt8} (h : isQuote b = true) : b ≠ '('.toUInt8 := by
  rintro rfl
  exact absurd h (by decide)

variable (bytes) in
/-- The string of a call. -/
theorem parse_string (before : List UInt8) {quote : UInt8} {items : List Item} (hquote : isQuote quote = true)
    (hitems : ∀ item ∈ items, PlainItem quote item)
    (hskip : skipParen (skipSpace (before ++ quote :: (items.flatMap Item.raw ++ quote :: bytes))) =
      quote :: (items.flatMap Item.raw ++ quote :: bytes)) :
    ∃ module, parseRequireCall (before ++ quote :: (items.flatMap Item.raw ++ quote :: bytes)) =
      some (module, bytes) ∧ Utf8.encode module.toList = valueOf items := by
  obtain ⟨value, hparse, hencode⟩ := parseString_plain bytes hquote hitems
  refine ⟨String.ofList value, ?_, by rw [String.toList_ofList, hencode]⟩
  have hquotes : ¬ (quote ≠ '"'.toUInt8 ∧ quote ≠ '\''.toUInt8) := by
    simp only [isQuote, Bool.or_eq_true, decide_eq_true_eq] at hquote
    tauto
  rw [parseRequireCall, hskip]
  simp only [if_neg hquotes, hparse, Option.map_some]

end Pieces

/-! ## The scan finds the calls -/

section Calls

theorem Blanks.filter {blanks : List Lexeme} (h : Blanks blanks) : blanks.filter Counts = [] := by
  rw [List.filter_eq_nil_iff]
  intro lexeme hmem
  obtain ⟨b, rfl, _⟩ := h lexeme hmem
  exact Bool.false_ne_true

/-- No call starts with a name that is not `require`, or has no string after it. -/
theorem callAt_word {name : List UInt8} {tokens : List Lexeme}
    (h : name = requireBytes → ¬ StartsCall tokens) : callAt (.word name :: tokens) = none := by
  rw [callAt.eq_def]
  split
  · rename_i heq
    obtain ⟨hname, rfl⟩ := List.cons.inj heq
    obtain rfl := Lexeme.word.inj hname
    exact if_neg fun hrequire => h hrequire trivial
  · rename_i heq
    obtain ⟨hname, rfl⟩ := List.cons.inj heq
    obtain rfl := Lexeme.word.inj hname
    exact if_neg fun hrequire => h hrequire.1 hrequire.2.1
  · rfl

theorem not_isAsciiWhitespace {b : UInt8} (h : Lua.isSpace b = false) : isAsciiWhitespace b = false := by
  by_contra hb
  rw [isSpace_of_isAsciiWhitespace (Bool.not_eq_false _ ▸ hb)] at h
  cases h

theorem skipSpace_cons {b : UInt8} {bytes : List UInt8} (h : isAsciiWhitespace b = false) :
    skipSpace (b :: bytes) = b :: bytes := by
  rw [skipSpace, List.dropWhile_cons, if_neg (by rw [h]; exact Bool.false_ne_true)]

/-- The name at the front of a source. -/
theorem source_word {name : List UInt8} {lexemes : List Lexeme}
    (h : WellLexed (.word name :: lexemes)) :
    ∃ b bytes, source (.word name :: lexemes) = b :: bytes ∧ isWordByte b = true := by
  obtain ⟨⟨hne, hname, _⟩, _⟩ := h
  obtain ⟨b, name, rfl⟩ := List.exists_cons_of_ne_nil hne
  exact ⟨b, name ++ source lexemes, rfl, hname b List.mem_cons_self⟩

/-- Where the scan stops jumping over blanks, and what counts from there on. -/
theorem skipSpace_source : ∀ {lexemes : List Lexeme}, WellLexed lexemes → ∃ rest, WellLexed rest ∧
    skipSpace (source lexemes) = source rest ∧ rest.filter Counts = lexemes.filter Counts
  | [], h => ⟨[], h, rfl, rfl⟩
  | .space b :: lexemes, h => by
    by_cases hb : isAsciiWhitespace b = true
    · obtain ⟨rest, hwell, hskip, hfilter⟩ := skipSpace_source h.2
      refine ⟨rest, hwell, ?_, hfilter⟩
      show skipSpace (b :: source lexemes) = _
      rw [skipSpace, List.dropWhile_cons, if_pos hb]
      exact hskip
    · exact ⟨_, h, skipSpace_cons (Bool.eq_false_iff.2 hb), rfl⟩
  | .comment text :: lexemes, h => ⟨_, h, rfl, rfl⟩
  | .word name :: lexemes, h => by
    obtain ⟨b, bytes, hsource, hb⟩ := source_word h
    refine ⟨_, h, ?_, rfl⟩
    rw [hsource, skipSpace_cons (not_isAsciiWhitespace ?_)]
    by_contra hspace
    rw [not_isWordByte_of_isSpace (Bool.not_eq_false _ ▸ hspace)] at hb
    cases hb
  | .string quote items :: lexemes, h =>
    ⟨_, h, skipSpace_cons (not_isAsciiWhitespace_of_isQuote h.1), rfl⟩
  | .symbol b :: lexemes, h => ⟨_, h, skipSpace_cons (not_isAsciiWhitespace h.1.1), rfl⟩

/-- A quote is at the front of a source if and only if a string is. -/
theorem exists_string_of_head {lexemes : List Lexeme} (h : WellLexed lexemes) {b : UInt8}
    (hb : b ∈ (source lexemes).head?) (hquote : isQuote b = true) :
    ∃ quote items rest, lexemes = .string quote items :: rest := by
  cases lexemes with
  | nil => cases hb
  | cons lexeme lexemes =>
    cases lexeme with
    | string quote items => exact ⟨quote, items, lexemes, rfl⟩
    | space c =>
      obtain rfl : c = b := Option.some.inj hb
      have hspace : Lua.isSpace c = true := h.1
      simp only [isQuote, Bool.or_eq_true, decide_eq_true_eq] at hquote
      rcases hquote with rfl | rfl <;> exact absurd hspace (by decide)
    | comment text =>
      obtain rfl := Option.some.inj hb
      exact absurd hquote (by decide)
    | word name =>
      obtain ⟨c, bytes, hsource, hc⟩ := source_word h
      rw [hsource] at hb
      obtain rfl := Option.some.inj hb
      cases hc.symm.trans (not_isWordByte_of_isQuote hquote)
    | symbol c =>
      obtain rfl := Option.some.inj hb
      cases h.1.2.2.1.symm.trans hquote

/-- So is a bracket. -/
theorem eq_symbol_of_head {lexemes : List Lexeme} (h : WellLexed lexemes)
    (hb : '('.toUInt8 ∈ (source lexemes).head?) : ∃ rest, lexemes = .symbol '('.toUInt8 :: rest := by
  cases lexemes with
  | nil => cases hb
  | cons lexeme lexemes =>
    cases lexeme with
    | symbol c =>
      obtain rfl := Option.some.inj hb
      exact ⟨lexemes, rfl⟩
    | string quote items =>
      obtain rfl := Option.some.inj hb
      have hquote : isQuote '('.toUInt8 = true := h.1
      exact absurd hquote (by decide)
    | space c =>
      obtain rfl := Option.some.inj hb
      have hspace : Lua.isSpace '('.toUInt8 = true := h.1
      exact absurd hspace (by decide)
    | comment text => exact absurd (Option.some.inj hb) (by decide)
    | word name =>
      obtain ⟨c, bytes, hsource, hc⟩ := source_word h
      rw [hsource] at hb
      obtain rfl := Option.some.inj hb
      exact absurd hc (by decide)

/-- No quote opens where no call starts. -/
theorem not_opensQuote {lexemes : List Lexeme} (h : WellLexed lexemes)
    (hstarts : ¬ StartsCall (lexemes.filter Counts)) : ¬ OpensQuote (source lexemes) := by
  obtain ⟨rest, hwell, hskip, hfilter⟩ := skipSpace_source h
  rw [← hfilter] at hstarts
  rw [OpensQuote, hskip]
  rintro ⟨b, hb, hquote⟩
  by_cases hparen : '('.toUInt8 ∈ (source rest).head?
  · obtain ⟨rest, rfl⟩ := eq_symbol_of_head hwell hparen
    obtain ⟨rest', hwell', hskip', hfilter'⟩ := skipSpace_source hwell.2
    have hb : b ∈ (source rest').head? := by
      rw [← hskip']
      exact hb
    obtain ⟨quote, items, after, rfl⟩ := exists_string_of_head hwell' hb hquote
    have htokens : (Lexeme.symbol '('.toUInt8 :: rest).filter Counts =
        .symbol '('.toUInt8 :: .string quote items :: after.filter Counts := by
      rw [List.filter_cons_of_pos rfl, ← hfilter', List.filter_cons_of_pos rfl]
    rw [htokens] at hstarts
    exact hstarts rfl
  · have hskip : skipParen (source rest) = source rest := by
      cases hsource : source rest with
      | nil => rfl
      | cons c bytes =>
        rw [hsource] at hparen
        exact if_neg fun hc => hparen (congrArg some hc)
    rw [hskip] at hb
    obtain ⟨quote, items, after, rfl⟩ := exists_string_of_head hwell hb hquote
    exact hstarts trivial

/-- A string is followed by what Lua makes of the rest. -/
theorem calls_string (quote : UInt8) (items : List Item) (lexemes : List Lexeme) :
    calls (.string quote items :: lexemes) = calls lexemes := rfl

theorem calls_word {name : List UInt8} {lexemes : List Lexeme}
    (h : name = requireBytes → ¬ StartsCall (lexemes.filter Counts)) :
    calls (.word name :: lexemes) = calls lexemes := by
  show (callAt (.word name :: lexemes.filter Counts)).toList ++ callsFrom _ = _
  rw [callAt_word h]
  rfl

theorem calls_call {blanks lexemes : List Lexeme} (hblanks : Blanks blanks) (quote : UInt8)
    (items : List Item) :
    calls (.word requireBytes :: (blanks ++ .string quote items :: lexemes)) =
      valueOf items :: calls lexemes := by
  rw [calls, List.filter_cons_of_pos rfl, List.filter_append, hblanks.filter, List.nil_append,
    List.filter_cons_of_pos rfl]
  show (callAt (.word requireBytes :: .string quote items :: _)).toList ++ _ = _
  rw [callAt, if_pos rfl]
  rfl

theorem calls_bracketCall {blanks blanks' lexemes : List Lexeme} (hblanks : Blanks blanks)
    (hblanks' : Blanks blanks') (quote : UInt8) (items : List Item)
    (hclosed : (lexemes.filter Counts).head? = some (.symbol ')'.toUInt8)) :
    calls (.word requireBytes :: (blanks ++ .symbol '('.toUInt8 :: (blanks' ++ .string quote items :: lexemes))) =
      valueOf items :: calls lexemes := by
  obtain ⟨tokens, htokens⟩ : ∃ tokens, lexemes.filter Counts = .symbol ')'.toUInt8 :: tokens := by
    cases hfilter : lexemes.filter Counts with
    | nil =>
      rw [hfilter] at hclosed
      cases hclosed
    | cons token tokens =>
      rw [hfilter] at hclosed
      exact ⟨tokens, by rw [Option.some.inj hclosed]⟩
  rw [calls, List.filter_cons_of_pos rfl, List.filter_append, hblanks.filter, List.nil_append,
    List.filter_cons_of_pos rfl, List.filter_append, hblanks'.filter, List.nil_append,
    List.filter_cons_of_pos rfl, calls, htokens]
  show (callAt (.word requireBytes :: .symbol '('.toUInt8 :: .string quote items ::
    .symbol ')'.toUInt8 :: tokens)).toList ++ _ = _
  rw [callAt, if_pos ⟨rfl, rfl, rfl⟩]
  rfl

theorem wellLexed_of_append {lexemes rest : List Lexeme} (h : WellLexed (lexemes ++ rest)) : WellLexed rest := by
  induction lexemes with
  | nil => exact h
  | cons _ lexemes ih => exact ih h.2

theorem source_append (lexemes rest : List Lexeme) :
    source (lexemes ++ rest) = source lexemes ++ source rest := List.flatMap_append

theorem source_string (quote : UInt8) (items : List Item) (lexemes : List Lexeme) :
    source (.string quote items :: lexemes) =
      quote :: (items.flatMap Item.raw ++ quote :: source lexemes) := by
  show (quote :: (items.flatMap Item.raw ++ [quote])) ++ source lexemes = _
  rw [List.cons_append, List.append_assoc, List.singleton_append]

/-- **The scan of a plain source** finds the calls in it. -/
theorem scan_source {lexemes : List Lexeme} (hplain : Plain lexemes) (hwell : WellLexed lexemes)
    {previous : Option UInt8}
    (hprevious : ∀ name rest, lexemes = .word name :: rest → previous.all (!isIdentByte ·) = true) :
    (scan 0 previous (source lexemes)).map (fun module => Utf8.encode module.toList) = calls lexemes := by
  -- a byte of no name is in front of the rest
  have hfree : ∀ {b : UInt8}, isWordByte b = false → (some b).all (!isIdentByte ·) = true := by
    intro b hb
    show (!isIdentByte b) = true
    rw [isIdentByte_eq, hb]
    rfl
  induction hplain generalizing previous with
  | nil => rfl
  | @space b rest _ ih =>
    have hspace : Lua.isSpace b = true := hwell.1
    have hdash : b ≠ '-'.toUInt8 := by
      rintro rfl
      exact absurd hspace (by decide)
    show (scan 0 previous (b :: source rest)).map _ = calls rest
    rw [scan_symbol (not_isWordByte_of_isSpace hspace) fun h => hdash h.1]
    exact ih hwell.2 fun _ _ _ => hfree (not_isWordByte_of_isSpace hspace)
  | @symbol b rest _ ih =>
    obtain ⟨_, hword, _, hdash⟩ := hwell.1
    show (scan 0 previous (b :: source rest)).map _ = calls rest
    rw [scan_symbol hword hdash]
    exact ih hwell.2 fun _ _ _ => hfree hword
  | @comment text rest hline _ ih =>
    obtain ⟨previous', hscan⟩ := scan_comment previous (source rest) hwell.1.1
    show (scan 0 previous ('-'.toUInt8 :: '-'.toUInt8 :: (text ++ source rest))).map _ = calls rest
    rw [hscan]
    rcases hline with rfl | ⟨rest, rfl⟩ | ⟨rest, rfl⟩
    · rfl
    · exact ih hwell.2 fun name rest heq => by cases heq
    · -- the scan stops behind the carriage return
      have hih := @ih hwell.2 none fun name rest heq => by cases heq
      have hstep : scan 0 none ('\r'.toUInt8 :: '\n'.toUInt8 :: source rest) =
          scan 0 previous' ('\n'.toUInt8 :: source rest) := by
        rw [scan_symbol (by decide) fun h => absurd h.1 (by decide)]
        exact scan_previous (by decide) previous'
      rw [← hih]
      exact congrArg _ hstep.symm
  | @word name rest hname _ ih =>
    obtain ⟨hne, hbytes, hafter⟩ := hwell.1
    show (scan 0 previous (name ++ source rest)).map _ = _
    rw [scan_word hbytes hafter fun hrequire =>
      parseRequireCall_eq_none (not_opensQuote hwell.2 (hname hrequire)), calls_word hname]
    refine ih hwell.2 fun name' rest' heq => ?_
    subst heq
    obtain ⟨b, bytes, hsource, hb⟩ := source_word hwell.2
    cases hb.symm.trans (hafter b (by rw [hsource]; rfl))
  | @string quote items rest hquiet _ ih =>
    have hquote : isQuote quote = true := hwell.1
    show (scan 0 previous (quote :: (items.flatMap Item.raw ++ [quote]) ++ source rest)).map _ = calls rest
    rw [scan_string hquote hquiet]
    exact ih hwell.2 fun _ _ _ => hfree (not_isWordByte_of_isQuote hquote)
  | @call blanks rest quote items hblanks hitems _ ih =>
    obtain ⟨⟨_, _, hafter⟩, hwell⟩ := hwell
    have hstring := wellLexed_of_append hwell
    have hquote : isQuote quote = true := hstring.1
    obtain ⟨module, hparse, hencode⟩ := parse_string (source rest) (source blanks) hquote
      hitems (by rw [skipSpace_blanks hblanks (not_isAsciiWhitespace_of_isQuote hquote), skipParen,
        if_neg (ne_paren_of_isQuote hquote)])
    have hsource : source (blanks ++ .string quote items :: rest) =
        (source blanks ++ quote :: items.flatMap Item.raw) ++ quote :: source rest := by
      rw [source_append, source_string, List.append_assoc, List.cons_append]
    rw [← List.cons_append, ← List.append_assoc] at hparse
    rw [hsource] at hafter
    show (scan 0 previous (requireBytes ++ source (blanks ++ .string quote items :: rest))).map _ = _
    rw [hsource, scan_call (hprevious _ _ rfl) hafter hparse, calls_call hblanks, List.map_cons, hencode,
      ih hstring.2 fun _ _ _ => hfree (not_isWordByte_of_isQuote hquote)]
  | @bracketCall blanks blanks' rest quote items hblanks hblanks' hitems hclosed _ ih =>
    obtain ⟨⟨_, _, hafter⟩, hwell⟩ := hwell
    have hstring := wellLexed_of_append (wellLexed_of_append hwell).2
    have hquote : isQuote quote = true := hstring.1
    obtain ⟨module, hparse, hencode⟩ := parse_string (source rest)
      (source blanks ++ '('.toUInt8 :: source blanks') hquote hitems (by
        rw [List.append_assoc, List.cons_append, skipSpace_blanks hblanks (by decide), skipParen, if_pos rfl,
          skipSpace_blanks hblanks' (not_isAsciiWhitespace_of_isQuote hquote)])
    have hsource : source (blanks ++ .symbol '('.toUInt8 :: (blanks' ++ .string quote items :: rest)) =
        (source blanks ++ '('.toUInt8 :: source blanks' ++ quote :: items.flatMap Item.raw) ++
          quote :: source rest := by
      rw [source_append]
      show source blanks ++ '('.toUInt8 :: source (blanks' ++ .string quote items :: rest) = _
      rw [source_append, source_string]
      simp only [List.append_assoc, List.cons_append]
    rw [← List.cons_append, ← List.append_assoc] at hparse
    rw [hsource] at hafter
    show (scan 0 previous (requireBytes ++ source _)).map _ = _
    rw [hsource, scan_call (hprevious _ _ rfl) hafter hparse, calls_bracketCall hblanks hblanks' _ _ hclosed,
      List.map_cons, hencode, ih hstring.2 fun _ _ _ => hfree (not_isWordByte_of_isQuote hquote)]

end Calls

/-- **The scan finds what Lua calls `require` with**, in order, in every source whose strings are no trap
for it. -/
theorem requireLiterals_eq {text : String} {lexemes : List Lexeme}
    (hlex : Lua.lex (Utf8.encode text.toList) = some lexemes) (hplain : Plain lexemes) :
    (requireLiterals text).map (fun module => Utf8.encode module.toList) = calls lexemes := by
  obtain ⟨hsource, hwell⟩ := Lua.lex_spec hlex
  rw [requireLiterals, ← hsource]
  exact scan_source hplain hwell fun _ _ _ => rfl

namespace Sample

/-- A call, and a comment with another one. -/
def plainText : String := "require('m') -- require 'n'"

def plainLexemes : List Lexeme :=
  [.word requireBytes, .symbol '('.toUInt8, .string '\''.toUInt8 [⟨['m'.toUInt8], ['m'.toUInt8]⟩],
    .symbol ')'.toUInt8, .space ' '.toUInt8, .comment (" require 'n'".toList.map Char.toUInt8)]

/-- Two dashes in a string, and a call behind them. -/
def dashText : String := "f('--') require 'm'"

end Sample

/-- The call behind the two dashes is not found. -/
theorem dashes_hide_call : ∃ lexemes, Lua.lex (Utf8.encode Sample.dashText.toList) = some lexemes ∧
    calls lexemes = [['m'.toUInt8]] ∧ requireLiterals Sample.dashText = [] := by
  have hsome : (Lua.lex (Utf8.encode Sample.dashText.toList)).map calls = some [['m'.toUInt8]] := by
    decide +kernel
  obtain ⟨lexemes, hlex, hcalls⟩ := Option.map_eq_some_iff.1 hsome
  exact ⟨lexemes, hlex, hcalls, by decide +kernel⟩

theorem requireLiterals_sample : Lua.lex (Utf8.encode Sample.plainText.toList) = some Sample.plainLexemes ∧
    (requireLiterals Sample.plainText).map (fun module => Utf8.encode module.toList) = [['m'.toUInt8]] := by
  have hlex : Lua.lex (Utf8.encode Sample.plainText.toList) = some Sample.plainLexemes := by decide +kernel
  have hitems : ∀ item ∈ [(⟨['m'.toUInt8], ['m'.toUInt8]⟩ : Item)], PlainItem '\''.toUInt8 item := by
    rw [List.forall_mem_singleton]
    exact ⟨'m'.toUInt8, by decide, rfl, Or.inl ⟨rfl, by decide, by decide⟩⟩
  have hplain : Plain Sample.plainLexemes :=
    @Plain.bracketCall [] [] _ _ _ (fun _ h => by cases h) (fun _ h => by cases h) hitems rfl
      (.symbol (.space (.comment (Or.inl rfl) .nil)))
  exact ⟨hlex, requireLiterals_eq hlex hplain⟩

end Fkst.Manifest
