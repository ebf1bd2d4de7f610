import Mathlib.Algebra.GroupWithZero.Nat
import Mathlib.Data.List.TakeWhile
import Mathlib.Tactic.Common

/-!
# The words of a Lua source

How Lua 5.4 cuts a source into names, short strings, comments to the end of a line, blanks and single
symbols.  Sources with long brackets are left out (`lex` has no result), and so are those with a string that
has no end or no meaning.

`lex_spec` says what the pieces are like and that they make up the source.
-/

set_option autoImplicit false

namespace Lib.Lua

/-! ## Bytes -/

/-- `lisspace`. -/
def isSpace (b : UInt8) : Bool := b = ' '.toUInt8 || (9 ≤ b && b ≤ 13)

/-- The end of a line. -/
def isNewline (b : UInt8) : Bool := b = '\n'.toUInt8 || b = '\r'.toUInt8

def isDigit (b : UInt8) : Bool := '0'.toUInt8 ≤ b && b ≤ '9'.toUInt8

/-- `lislalnum`: what names and numbers are made of. -/
def isWordByte (b : UInt8) : Bool :=
  isDigit b || ('a'.toUInt8 ≤ b && b ≤ 'z'.toUInt8) || ('A'.toUInt8 ≤ b && b ≤ 'Z'.toUInt8) || b = '_'.toUInt8

def isQuote (b : UInt8) : Bool := b = '"'.toUInt8 || b = '\''.toUInt8

/-- What can be checked byte by byte. -/
theorem forall_byte {p : UInt8 → Bool} (h : ∀ n < 256, p (UInt8.ofNat n) = true) (b : UInt8) : p b = true := by
  have hb := h b.toNat b.toNat_lt
  rwa [UInt8.ofNat_toNat] at hb

theorem not_isWordByte_of_isSpace {b : UInt8} (h : isSpace b = true) : isWordByte b = false := by
  have hall := forall_byte (p := fun b => !(isSpace b && isWordByte b)) (by decide +kernel) b
  simpa [h] using hall

theorem not_isWordByte_of_isQuote {b : UInt8} (h : isQuote b = true) : isWordByte b = false := by
  simp only [isQuote, Bool.or_eq_true, decide_eq_true_eq] at h
  rcases h with rfl | rfl <;> decide

/-- The value of a hexadecimal digit. -/
def hexValue (b : UInt8) : Option ℕ :=
  if isDigit b then some (b.toNat - '0'.toNat)
  else if 'a'.toUInt8 ≤ b ∧ b ≤ 'f'.toUInt8 then some (b.toNat - 'a'.toNat + 10)
  else if 'A'.toUInt8 ≤ b ∧ b ≤ 'F'.toUInt8 then some (b.toNat - 'A'.toNat + 10)
  else none

/-! ## Strings -/

/-- A piece of a short string: how it is written, and what it stands for. -/
structure Item where
  raw : List UInt8
  value : List UInt8
deriving DecidableEq

/-- Escapes of one letter. -/
def simpleEscape (b : UInt8) : Option UInt8 :=
  if b = 'a'.toUInt8 then some 7
  else if b = 'b'.toUInt8 then some 8
  else if b = 'f'.toUInt8 then some 12
  else if b = 'n'.toUInt8 then some 10
  else if b = 'r'.toUInt8 then some 13
  else if b = 't'.toUInt8 then some 9
  else if b = 'v'.toUInt8 then some 11
  else if b = '\\'.toUInt8 ∨ isQuote b then some b
  else none

/-- The bytes that continue a character of `\u`, and what is left for the first one. -/
def utf8Tail : ℕ → ℕ → ℕ → List UInt8 → List UInt8
  | 0, _, _, bytes => bytes
  | fuel + 1, x, mask, bytes =>
    let bytes := UInt8.ofNat (0x80 + x % 0x40) :: bytes
    let x := x / 0x40
    let mask := mask / 2
    if mask < x then utf8Tail fuel x mask bytes
    else UInt8.ofNat (2 * (0x7F - mask) + x) :: bytes

/-- `luaO_utf8esc`. -/
def utf8Escape (x : ℕ) : List UInt8 := if x < 0x80 then [UInt8.ofNat x] else utf8Tail 6 x 0x3F []

/-- A number in digits of a base. -/
def number (base : ℕ) (digits : List ℕ) : ℕ := digits.foldl (fun n d => base * n + d) 0

/-- An escape, after its backslash: how much of the text it takes, and what it stands for. -/
def readEscape : List UInt8 → Option (ℕ × List UInt8)
  | [] => none
  | c :: text =>
    match simpleEscape c with
    | some value => some (1, [value])
    | none =>
      if isNewline c then
        -- two different ones after each other are one end of a line
        match text with
        | d :: _ => some (if isNewline d ∧ d ≠ c then 2 else 1, ['\n'.toUInt8])
        | [] => some (1, ['\n'.toUInt8])
      else if c = 'z'.toUInt8 then some (1 + (text.takeWhile isSpace).length, [])
      else if c = 'x'.toUInt8 then
        match (text.take 2).mapM hexValue with
        | some [h, l] => some (3, [UInt8.ofNat (number 16 [h, l])])
        | _ => none
      else if isDigit c then
        let digits := ((c :: text).take 3).takeWhile isDigit
        let value := number 10 (digits.map fun d => d.toNat - '0'.toNat)
        if value ≤ 255 then some (digits.length, [UInt8.ofNat value]) else none
      else if c = 'u'.toUInt8 then
        match text with
        | d :: text =>
          let digits := text.takeWhile fun b => (hexValue b).isSome
          let value := number 16 (digits.filterMap hexValue)
          if d = '{'.toUInt8 ∧ digits ≠ [] ∧ (text.drop digits.length).head? = some '}'.toUInt8 ∧
              value < 2 ^ 31 then
            some (digits.length + 3, utf8Escape value)
          else none
        | [] => none
      else none

/-- A short string after its first quote: its pieces, and what comes after it. -/
def readString (quote : UInt8) : ℕ → List UInt8 → Option (List Item × List UInt8)
  | 0, _ => none
  | _ + 1, [] => none
  | fuel + 1, b :: text =>
    if b = quote then some ([], text)
    else if isNewline b then none
    else if b = '\\'.toUInt8 then
      match readEscape text with
      | none => none
      | some (width, value) =>
        (readString quote fuel (text.drop width)).map fun (items, after) =>
          (⟨b :: text.take width, value⟩ :: items, after)
    else (readString quote fuel text).map fun (items, after) => (⟨[b], [b]⟩ :: items, after)

/-! ## Pieces of a source -/

/-- A piece of a source. -/
inductive Lexeme where
  | space (b : UInt8)
  | comment (text : List UInt8)
  | word (bytes : List UInt8)
  | string (quote : UInt8) (items : List Item)
  | symbol (b : UInt8)
deriving DecidableEq

/-- How a piece is written. -/
def Lexeme.raw : Lexeme → List UInt8
  | .space b => [b]
  | .comment text => '-'.toUInt8 :: '-'.toUInt8 :: text
  | .word bytes => bytes
  | .string quote items => quote :: (items.flatMap Item.raw ++ [quote])
  | .symbol b => [b]

/-- The source of some pieces. -/
def source (lexemes : List Lexeme) : List UInt8 := lexemes.flatMap Lexeme.raw

/-- A long bracket opens, after its first sign. -/
def opensLong (text : List UInt8) : Bool :=
  (text.dropWhile (· = '='.toUInt8)).head? = some '['.toUInt8

/-- A long bracket opens. -/
def startsLong : List UInt8 → Bool
  | [] => false
  | b :: text => b = '['.toUInt8 && opensLong text

/-- The piece at the front, and what comes after it. -/
def next (b : UInt8) (text : List UInt8) : Option (Lexeme × List UInt8) :=
  if isSpace b then some (.space b, text)
  else if b = '-'.toUInt8 ∧ text.head? = some '-'.toUInt8 then
    if startsLong text.tail then none
    else some (.comment (text.tail.takeWhile (!isNewline ·)), text.tail.dropWhile (!isNewline ·))
  else if startsLong (b :: text) then none
  else if isQuote b then
    (readString b (text.length + 1) text).map fun (items, after) => (.string b items, after)
  else if isWordByte b then some (.word ((b :: text).takeWhile isWordByte), (b :: text).dropWhile isWordByte)
  else some (.symbol b, text)

/-- The pieces of a source.  Every one of them has a byte, so as many as there are bytes is enough. -/
def lexFrom : ℕ → List UInt8 → Option (List Lexeme)
  | _, [] => some []
  | 0, _ :: _ => none
  | fuel + 1, b :: text => do
    let (lexeme, after) ← next b text
    let lexemes ← lexFrom fuel after
    return lexeme :: lexemes

def lex (text : List UInt8) : Option (List Lexeme) := lexFrom text.length text

/-! ## What the pieces are like -/

/-- A piece, with the source after it. -/
def Lexeme.Fits (after : List UInt8) : Lexeme → Prop
  | .space b => isSpace b = true
  | .comment text => (∀ b ∈ text, isNewline b = false) ∧ ∀ b ∈ after.head?, isNewline b = true
  | .word bytes => bytes ≠ [] ∧ (∀ b ∈ bytes, isWordByte b = true) ∧ ∀ b ∈ after.head?, isWordByte b = false
  | .string quote _ => isQuote quote = true
  | .symbol b => isSpace b = false ∧ isWordByte b = false ∧ isQuote b = false ∧
    ¬ (b = '-'.toUInt8 ∧ after.head? = some '-'.toUInt8)

/-- All pieces fit. -/
def WellLexed : List Lexeme → Prop
  | [] => True
  | lexeme :: lexemes => lexeme.Fits (source lexemes) ∧ WellLexed lexemes

theorem readString_raw {quote : UInt8} {fuel : ℕ} {text after : List UInt8} {items : List Item}
    (h : readString quote fuel text = some (items, after)) :
    items.flatMap Item.raw ++ quote :: after = text := by
  induction fuel generalizing text items with
  | zero => cases h
  | succ fuel ih =>
    cases text with
    | nil => cases h
    | cons b text =>
      rw [readString] at h
      split at h
      · rename_i hquote
        obtain ⟨rfl, rfl⟩ := Prod.mk.inj (Option.some.inj h)
        rw [hquote]
        rfl
      · split at h
        · cases h
        · split at h
          · split at h
            · cases h
            · rename_i width value _
              obtain ⟨⟨items, after⟩, hrest, heq⟩ := Option.map_eq_some_iff.1 h
              obtain ⟨rfl, rfl⟩ := Prod.mk.inj heq
              have hrest := ih hrest
              rw [List.flatMap_cons, List.cons_append, List.cons_append, List.append_assoc, hrest,
                List.take_append_drop]
          · obtain ⟨⟨items, after⟩, hrest, heq⟩ := Option.map_eq_some_iff.1 h
            obtain ⟨rfl, rfl⟩ := Prod.mk.inj heq
            have hrest := ih hrest
            rw [List.flatMap_cons, List.append_assoc, hrest]
            rfl

theorem head_dropWhile {p : UInt8 → Bool} : ∀ {text : List UInt8}, ∀ b ∈ (text.dropWhile p).head?, p b = false
  | [], b, h => by simp at h
  | c :: text, b, h => by
    rw [List.dropWhile_cons] at h
    split at h
    · exact head_dropWhile b h
    · rename_i hc
      obtain rfl := Option.some.inj h
      exact Bool.eq_false_iff.2 hc

/-- The piece at the front is the start of the source, and fits. -/
theorem next_spec {b : UInt8} {text after : List UInt8} {lexeme : Lexeme}
    (h : next b text = some (lexeme, after)) : lexeme.raw ++ after = b :: text ∧ lexeme.Fits after := by
  rw [next] at h
  split at h
  · rename_i hspace
    obtain ⟨rfl, rfl⟩ := Prod.mk.inj (Option.some.inj h)
    exact ⟨rfl, hspace⟩
  · rename_i hspace
    split at h
    · rename_i hcomment
      obtain ⟨rfl, hhead⟩ := hcomment
      split at h
      · cases h
      · obtain ⟨rfl, rfl⟩ := Prod.mk.inj (Option.some.inj h)
        obtain ⟨_, text, rfl⟩ : ∃ c rest, text = c :: rest := by
          cases text with
          | nil => cases hhead
          | cons c rest => exact ⟨c, rest, rfl⟩
        obtain rfl := Option.some.inj hhead
        refine ⟨?_, fun c hc => ?_, fun c hc => ?_⟩
        · show _ :: _ :: (List.takeWhile _ text ++ List.dropWhile _ text) = _
          rw [List.takeWhile_append_dropWhile]
        · simpa using List.mem_takeWhile_imp hc
        · simpa using head_dropWhile c hc
    · rename_i hcomment
      split at h
      · cases h
      · split at h
        · rename_i hquote
          obtain ⟨⟨items, after⟩, hstring, heq⟩ := Option.map_eq_some_iff.1 h
          obtain ⟨rfl, rfl⟩ := Prod.mk.inj heq
          refine ⟨?_, hquote⟩
          rw [Lexeme.raw, List.cons_append, List.append_assoc, List.singleton_append, readString_raw hstring]
        · rename_i hquote
          split at h
          · rename_i hword
            obtain ⟨rfl, rfl⟩ := Prod.mk.inj (Option.some.inj h)
            refine ⟨List.takeWhile_append_dropWhile, ?_, fun c hc => List.mem_takeWhile_imp hc,
              fun c hc => head_dropWhile c hc⟩
            rw [List.takeWhile_cons, if_pos hword]
            exact List.cons_ne_nil _ _
          · rename_i hword
            obtain ⟨rfl, rfl⟩ := Prod.mk.inj (Option.some.inj h)
            exact ⟨rfl, Bool.eq_false_iff.2 hspace, Bool.eq_false_iff.2 hword, Bool.eq_false_iff.2 hquote,
              hcomment⟩

theorem lexFrom_spec {fuel : ℕ} {text : List UInt8} {lexemes : List Lexeme}
    (h : lexFrom fuel text = some lexemes) : source lexemes = text ∧ WellLexed lexemes := by
  induction fuel generalizing text lexemes with
  | zero =>
    cases text with
    | nil =>
      obtain rfl := Option.some.inj h
      exact ⟨rfl, trivial⟩
    | cons b text => cases h
  | succ fuel ih =>
    cases text with
    | nil =>
      obtain rfl := Option.some.inj h
      exact ⟨rfl, trivial⟩
    | cons b text =>
      obtain ⟨⟨lexeme, after⟩, hnext, h⟩ := Option.bind_eq_some_iff.1 h
      obtain ⟨lexemes, hrest, h⟩ := Option.bind_eq_some_iff.1 h
      obtain rfl := Option.some.inj h
      obtain ⟨hsource, hfits⟩ := next_spec hnext
      obtain ⟨rfl, hwell⟩ := ih hrest
      exact ⟨hsource, hfits, hwell⟩

/-- **The pieces of a source** make it up, and they are cut where Lua cuts. -/
theorem lex_spec {text : List UInt8} {lexemes : List Lexeme} (h : lex text = some lexemes) :
    source lexemes = text ∧ WellLexed lexemes := lexFrom_spec h

end Lib.Lua
