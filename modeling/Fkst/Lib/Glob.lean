import Mathlib.Data.List.Forall2
import Mathlib.Data.List.Infix
import Mathlib.Data.List.ReduceOption
import Mathlib.Tactic.Common
import Fkst.Lib.Utf8

/-!
# Wildcards

A pattern over an alphabet has one symbol that stands for any text and one that stands for any symbol
(`Means`).  The usual matcher walks over pattern and text at once, remembers the last `star` and, when
it is stuck, lets that `star` stand for one symbol more.

The matcher of this file asks first whether the symbol of the pattern is that of the text, and only
then whether it is `star`.  A `star` that comes upon a `star` in the text stands for that alone, then.
`Pins` is the meaning with this rule, and `run_eq_true` says that the matcher decides it; there is no
difference if the pattern or the text is free of `star` (`pins_iff`), and there is one for some text
or some pattern else (`exists_text`, `exists_pattern`).
-/

set_option autoImplicit false

namespace Lib.Glob

variable {α : Type} [DecidableEq α] (star any : α)

/-! ## Meanings -/

/-- **What a pattern means.** -/
def Means : List α → List α → Prop
  | [], text => text = []
  | c :: pattern, text =>
    if c = star then ∃ rest, rest <:+ text ∧ Means pattern rest
    else ∃ d rest, text = d :: rest ∧ (c = any ∨ c = d) ∧ Means pattern rest

/-- What a pattern means if a `star` that comes upon a `star` stands for that alone. -/
def Pins : List α → List α → Prop
  | [], text => text = []
  | c :: pattern, text =>
    if c = star then
      if text.head? = some star then Pins pattern text.tail
      else ∃ rest, rest <:+ text ∧ Pins pattern rest
    else ∃ d rest, text = d :: rest ∧ (c = any ∨ c = d) ∧ Pins pattern rest

/-! ## The matcher -/

/-- What the matcher goes back to: the pattern behind the last `star`, and the text that is left if it
stands for no more than it does now.  That is no less than what is left of the text. -/
abbrev Back (α : Type) (text : List α) := { back : List α × List α // text.length ≤ back.2.length }

/-- How much text a matcher may still go back to. -/
def leftOver {text : List α} : Option (Back α text) → ℕ
  | none => text.length + 1
  | some back => back.1.2.length

/-- Match a pattern and a text. -/
def run (pattern text : List α) (back : Option (Back α text)) : Bool :=
  match text with
  | [] => pattern.all (· = star)
  | d :: text =>
    if pattern.head? = some any ∨ pattern.head? = some d then
      run pattern.tail text (back.map fun b => ⟨b.1, Nat.le_of_succ_le b.2⟩)
    else if pattern.head? = some star then
      run pattern.tail (d :: text) (some ⟨(pattern.tail, d :: text), Nat.le_refl _⟩)
    else
      match back with
      | none => false
      | some b => run b.1.1 b.1.2.tail (some ⟨(b.1.1, b.1.2.tail), Nat.le_refl _⟩)
termination_by (leftOver back, pattern.length + text.length)
decreasing_by
  · cases back with
    | none => exact Prod.Lex.left _ _ (Nat.lt_succ_self _)
    | some b =>
      refine Prod.Lex.right _ ?_
      simp only [List.length_tail, List.length_cons]
      omega
  · rename_i hstar
    have hpattern : 0 < pattern.length := List.length_pos_of_ne_nil (by rintro rfl; cases hstar)
    cases back with
    | none => exact Prod.Lex.left _ _ (Nat.lt_succ_self _)
    | some b =>
      rcases Nat.lt_or_eq_of_le b.2 with hlt | heq
      · exact Prod.Lex.left _ _ hlt
      · simp only [leftOver, ← heq]
        refine Prod.Lex.right _ ?_
        simp only [List.length_tail]
        omega
  · refine Prod.Lex.left _ _ ?_
    have hb := b.2
    simp only [leftOver, List.length_tail, List.length_cons] at hb ⊢
    omega

/-- Match a pattern and a text, with nothing to go back to. -/
def isMatch (pattern text : List α) : Bool := run star any pattern text none

/-! ## What the matcher decides -/

section Literal

/-- The symbols of a pattern are those of a text, one by one. -/
def Literal (pattern text : List α) : Prop := List.Forall₂ (fun c d => c = any ∨ c = d) pattern text

variable {star any}

theorem pins_cons_literal (hne : star ≠ any) {c d : α} (hcd : c = any ∨ c = d) {pattern text : List α} :
    Pins star any (c :: pattern) (d :: text) ↔ Pins star any pattern text := by
  rw [Pins]
  split
  · rename_i hc
    have hd : d = star := by
      rcases hcd with rfl | rfl
      · exact absurd hc.symm hne
      · exact hc
    rw [if_pos (by rw [hd]; rfl)]
    rfl
  · constructor
    · rintro ⟨d', rest, heq, _, hrest⟩
      rwa [(List.cons.inj heq).2]
    · exact fun hrest => ⟨d, text, rfl, hcd, hrest⟩

/-- What was matched symbol by symbol has to be matched so. -/
theorem pins_append_literal (hne : star ≠ any) {front before : List α} (h : Literal any front before)
    {pattern text : List α} :
    Pins star any (front ++ pattern) (before ++ text) ↔ Pins star any pattern text := by
  induction h with
  | nil => rfl
  | cons hcd _ ih => exact (pins_cons_literal hne hcd).trans ih

/-- **A later start does not help.** -/
theorem exists_suffix_of_pins (hne : star ≠ any) {front before : List α} (h : Literal any front before)
    {pattern text rest : List α} (hrest : rest <:+ before ++ text)
    (hpins : Pins star any (front ++ pattern) rest) :
    ∃ rest', rest' <:+ text ∧ Pins star any pattern rest' := by
  induction h generalizing rest with
  | nil => exact ⟨rest, hrest, hpins⟩
  | @cons c d front before hcd _ ih =>
    rcases List.suffix_cons_iff.1 hrest with rfl | hrest
    · exact ih (List.suffix_refl _) ((pins_cons_literal hne hcd).1 hpins)
    · rw [List.cons_append, Pins] at hpins
      split at hpins
      · split at hpins
        · exact ih ((List.tail_suffix rest).trans hrest) hpins
        · obtain ⟨rest', hrest', hpins⟩ := hpins
          exact ih (hrest'.trans hrest) hpins
      · obtain ⟨d', rest', rfl, _, hpins⟩ := hpins
        exact ih ((List.suffix_cons d' rest').trans hrest) hpins

theorem pins_nil {pattern : List α} :
    Pins star any pattern [] ↔ pattern.all (· = star) = true := by
  induction pattern with
  | nil => simp [Pins]
  | cons c pattern ih =>
    rw [Pins, List.all_cons, Bool.and_eq_true, decide_eq_true_eq, ← ih]
    split
    · rename_i hc
      simp [hc]
    · rename_i hc
      simp [hc]

/-- A pattern behind a `star` is met somewhere in the text. -/
theorem exists_suffix_of_pins_star {pattern text : List α} (h : Pins star any (star :: pattern) text) :
    ∃ rest, rest <:+ text ∧ Pins star any pattern rest := by
  rw [Pins, if_pos rfl] at h
  split at h
  · exact ⟨text.tail, List.tail_suffix text, h⟩
  · exact h

/-- A pattern that does not fit the text at its first symbol. -/
theorem not_pins_cons {pattern text : List α} {d : α}
    (hliteral : ¬ (pattern.head? = some any ∨ pattern.head? = some d)) (hstar : pattern.head? ≠ some star) :
    ¬ Pins star any pattern (d :: text) := by
  cases pattern with
  | nil => simp [Pins]
  | cons c pattern =>
    rw [Pins, if_neg (by simpa using hstar)]
    rintro ⟨d', rest, heq, hcd, _⟩
    rw [← (List.cons.inj heq).1] at hcd
    exact hliteral (by simpa using hcd)

end Literal

section Run

/-- What the matcher is about to decide. -/
def Goal (pattern text : List α) : Option (Back α text) → Prop
  | none => Pins star any pattern text
  | some back => ∃ rest, rest <:+ back.1.2 ∧ Pins star any back.1.1 rest

/-- What the matcher goes back to is behind it by what it matched symbol by symbol. -/
def Behind (pattern text : List α) : Option (Back α text) → Prop
  | none => True
  | some back => ∃ front before, Literal any front before ∧ back.1.1 = front ++ pattern ∧
      back.1.2 = before ++ text

variable {star any} {pattern text : List α} {back : Option (Back α text)}

theorem goal_of_pins (hne : star ≠ any) (hbehind : Behind any pattern text back)
    (h : Pins star any pattern text) : Goal star any pattern text back := by
  cases back with
  | none => exact h
  | some b =>
    obtain ⟨front, before, hliteral, hpattern, htext⟩ := hbehind
    refine ⟨b.1.2, List.suffix_refl _, ?_⟩
    rw [hpattern, htext]
    exact (pins_append_literal hne hliteral).2 h

theorem exists_of_goal (hne : star ≠ any) (hbehind : Behind any pattern text back)
    (h : Goal star any pattern text back) : ∃ rest, rest <:+ text ∧ Pins star any pattern rest := by
  cases back with
  | none => exact ⟨text, List.suffix_refl _, h⟩
  | some b =>
    obtain ⟨front, before, hliteral, hpattern, htext⟩ := hbehind
    obtain ⟨rest, hrest, hpins⟩ := h
    rw [htext] at hrest
    rw [hpattern] at hpins
    exact exists_suffix_of_pins hne hliteral hrest hpins

omit [DecidableEq α] in
theorem behind_self {back : Back α text} (h : back.1 = (pattern, text)) :
    Behind any pattern text (some back) :=
  ⟨[], [], .nil, by rw [h]; rfl, by rw [h]; rfl⟩

/-- **What the matcher decides**, wherever it has come to. -/
theorem run_eq_true (hne : star ≠ any) (hbehind : Behind any pattern text back) :
    run star any pattern text back = true ↔ Goal star any pattern text back := by
  fun_induction run star any pattern text back with
  | case1 pattern back =>
    rw [← @pins_nil _ _ star any]
    refine ⟨goal_of_pins hne hbehind, fun hgoal => ?_⟩
    obtain ⟨rest, hrest, hpins⟩ := exists_of_goal hne hbehind hgoal
    rwa [List.suffix_nil.1 hrest] at hpins
  | case2 pattern d text hliteral back ih =>
    obtain ⟨c, pattern, rfl, hcd⟩ : ∃ c rest, pattern = c :: rest ∧ (c = any ∨ c = d) := by
      cases pattern with
      | nil => simp at hliteral
      | cons c pattern => exact ⟨c, pattern, rfl, by simpa using hliteral⟩
    cases back with
    | none => exact (ih trivial).trans (pins_cons_literal hne hcd).symm
    | some b =>
      obtain ⟨front, before, hfront, hpattern, htext⟩ := hbehind
      refine ih ⟨front ++ [c], before ++ [d], ?_, by simpa using hpattern, by simpa using htext⟩
      exact List.rel_append hfront (.cons hcd .nil)
  | case3 pattern d text hliteral hstar back ih =>
    have hd : d ≠ star := by
      rintro rfl
      exact hliteral (Or.inr hstar)
    obtain ⟨pattern, rfl⟩ : ∃ rest, pattern = star :: rest := by
      cases pattern with
      | nil => cases hstar
      | cons c pattern => exact ⟨pattern, by rw [Option.some.inj hstar]⟩
    rw [ih (behind_self rfl)]
    constructor
    · intro hgoal
      refine goal_of_pins hne hbehind ?_
      rw [Pins, if_pos rfl, if_neg (by simpa using hd)]
      exact hgoal
    · intro hgoal
      obtain ⟨rest, hrest, hpins⟩ := exists_of_goal hne hbehind hgoal
      obtain ⟨rest', hrest', hpins⟩ := exists_suffix_of_pins_star hpins
      exact ⟨rest', hrest'.trans hrest, hpins⟩
  | case4 pattern d text hliteral hstar =>
    simpa [Goal] using not_pins_cons hliteral hstar
  | case5 pattern d text hliteral hstar b ih =>
    rw [ih (behind_self rfl)]
    obtain ⟨front, before, hfront, hpattern, htext⟩ := hbehind
    constructor
    · rintro ⟨rest, hrest, hpins⟩
      exact ⟨rest, hrest.trans (List.tail_suffix _), hpins⟩
    · rintro ⟨rest, hrest, hpins⟩
      have hne_nil : b.1.2 ≠ [] := by simp [htext]
      rw [← List.cons_head_tail hne_nil, List.suffix_cons_iff, List.cons_head_tail] at hrest
      rcases hrest with rfl | hrest
      · -- with no more text for the `star` the matcher is stuck
        rw [htext, hpattern] at hpins
        exact absurd ((pins_append_literal hne hfront).1 hpins) (not_pins_cons hliteral hstar)
      · exact ⟨rest, hrest, hpins⟩

end Run

variable {star any}

/-- **The matcher decides the meaning with pinned stars.** -/
theorem isMatch_eq_true (hne : star ≠ any) {pattern text : List α} :
    isMatch star any pattern text = true ↔ Pins star any pattern text :=
  run_eq_true hne (show Behind any pattern text none from trivial)

/-! ## Pinned and free stars -/

theorem means_of_pins {pattern text : List α} (h : Pins star any pattern text) :
    Means star any pattern text := by
  induction pattern generalizing text with
  | nil => exact h
  | cons c pattern ih =>
    rw [Pins] at h
    rw [Means]
    split
    · rename_i hc
      rw [if_pos hc] at h
      split at h
      · exact ⟨text.tail, List.tail_suffix text, ih h⟩
      · obtain ⟨rest, hrest, h⟩ := h
        exact ⟨rest, hrest, ih h⟩
    · rename_i hc
      rw [if_neg hc] at h
      obtain ⟨d, rest, rfl, hcd, h⟩ := h
      exact ⟨d, rest, rfl, hcd, ih h⟩

/-- **Without a `star` in the pattern or in the text there is no difference.** -/
theorem pins_iff {pattern text : List α} (h : star ∉ pattern ∨ star ∉ text) :
    Pins star any pattern text ↔ Means star any pattern text := by
  refine ⟨means_of_pins, fun hmeans => ?_⟩
  induction pattern generalizing text with
  | nil => exact hmeans
  | cons c pattern ih =>
    rw [Means] at hmeans
    rw [Pins]
    split
    · rename_i hc
      rw [if_pos hc] at hmeans
      have htext : star ∉ text := h.resolve_left fun hnot => hnot (hc ▸ List.mem_cons_self)
      obtain ⟨rest, hrest, hmeans⟩ := hmeans
      have hhead : text.head? ≠ some star := fun hhead => htext (List.mem_of_mem_head? hhead)
      rw [if_neg hhead]
      exact ⟨rest, hrest, ih (Or.inr fun hmem => htext (hrest.subset hmem)) hmeans⟩
    · rename_i hc
      rw [if_neg hc] at hmeans
      obtain ⟨d, rest, rfl, hcd, hmeans⟩ := hmeans
      refine ⟨d, rest, rfl, hcd, ih ?_ hmeans⟩
      exact h.imp (fun hnot hmem => hnot (List.mem_cons_of_mem c hmem))
        fun hnot hmem => hnot (List.mem_cons_of_mem d hmem)

/-- Where the pattern has no `star`, the text is as long as the pattern. -/
theorem length_of_pins {pattern text : List α} (hstar : star ∉ pattern) (h : Pins star any pattern text) :
    text.length = pattern.length := by
  induction pattern generalizing text with
  | nil =>
    obtain rfl : text = [] := h
    rfl
  | cons c pattern ih =>
    rw [List.mem_cons, not_or] at hstar
    rw [Pins, if_neg (Ne.symm hstar.1)] at h
    obtain ⟨d, rest, rfl, _, h⟩ := h
    rw [List.length_cons, List.length_cons, ih hstar.2 h]

omit [DecidableEq α] in
theorem literal_replicate (text : List α) : Literal any (List.replicate text.length any) text := by
  induction text with
  | nil => exact .nil
  | cons d text ih => exact .cons (Or.inl rfl) ih

omit [DecidableEq α] in
theorem literal_self (text : List α) : Literal any text text :=
  List.forall₂_same.2 fun _ _ => Or.inr rfl

/-- Symbol by symbol is a way to match. -/
theorem means_append_literal {front before : List α} (h : Literal any front before)
    {pattern text : List α} (hmeans : Means star any pattern text) :
    Means star any (front ++ pattern) (before ++ text) := by
  induction h with
  | nil => exact hmeans
  | @cons c d front before hcd _ ih =>
    rw [List.cons_append, Means]
    split
    · exact ⟨before ++ text, List.suffix_cons d _, ih⟩
    · exact ⟨d, before ++ text, rfl, hcd, ih⟩

theorem means_of_literal {pattern text : List α} (h : Literal any pattern text) :
    Means star any pattern text := by
  have hmeans := means_append_literal h (show Means star any [] [] from rfl)
  rwa [List.append_nil, List.append_nil] at hmeans

/-- **Every text with a `star` is missed by a pattern that means it.** -/
theorem exists_pattern (hne : star ≠ any) {text : List α} (h : star ∈ text) :
    ∃ pattern, (∀ c ∈ pattern, c = star ∨ c = any) ∧ any ∈ pattern ∧ Means star any pattern text ∧
      ¬ Pins star any pattern text := by
  obtain ⟨front, rest, rfl⟩ := List.append_of_mem h
  refine ⟨List.replicate front.length any ++ star :: List.replicate (star :: rest).length any, ?_, ?_,
    means_append_literal (literal_replicate front) ?_, fun hpins => ?_⟩
  · intro c hc
    simp only [List.mem_append, List.mem_cons, List.mem_replicate] at hc
    tauto
  · simp
  · rw [Means, if_pos rfl]
    exact ⟨star :: rest, List.suffix_refl _, means_of_literal (literal_replicate (star :: rest))⟩
  · -- the `star` is taken by that of the text, and then a symbol is missing
    have hpins := (pins_append_literal hne (literal_replicate front)).1 hpins
    rw [Pins, if_pos rfl, if_pos (by rfl)] at hpins
    have hlength := length_of_pins (fun hmem => hne (List.eq_of_mem_replicate hmem)) hpins
    simp at hlength

/-- **Every pattern with a `star` misses a text that it means.** -/
theorem exists_text (hne : star ≠ any) {pattern : List α} (h : star ∈ pattern) (x : α) :
    ∃ text, (∀ c ∈ text, c ∈ pattern ∨ c = x) ∧ Means star any pattern text ∧
      ¬ Pins star any pattern text := by
  obtain ⟨rest, front, hreverse, hlast⟩ := List.eq_append_cons_of_mem (List.mem_reverse.2 h)
  obtain ⟨front, rest, rfl, hlast⟩ : ∃ front rest, pattern = front ++ star :: rest ∧ star ∉ rest := by
    refine ⟨front.reverse, rest.reverse, ?_, by simpa using hlast⟩
    rw [← List.reverse_reverse pattern, hreverse]
    simp
  refine ⟨front ++ star :: x :: rest, ?_, means_append_literal (literal_self front) ?_, fun hpins => ?_⟩
  · intro c hc
    simp only [List.mem_append, List.mem_cons] at hc ⊢
    tauto
  · rw [Means, if_pos rfl]
    exact ⟨rest, (List.suffix_cons x rest).trans (List.suffix_cons star _),
      means_of_literal (literal_self rest)⟩
  · have hpins := (pins_append_literal hne (literal_self front)).1 hpins
    rw [Pins, if_pos rfl, if_pos (by rfl)] at hpins
    have hlength := length_of_pins hlast hpins
    simp at hlength

/-! ## Text in bytes

Matching the bytes of a text is matching the text, as long as the pattern does not ask for any one
symbol where the text has a character of several bytes. -/

/-- Symbols that stand for themselves. -/
theorem exists_of_means_append {front pattern text : List α} (hstar : star ∉ front) (hany : any ∉ front)
    (h : Means star any (front ++ pattern) text) :
    ∃ rest, text = front ++ rest ∧ Means star any pattern rest := by
  induction front generalizing text with
  | nil => exact ⟨text, rfl, h⟩
  | cons c front ih =>
    rw [List.mem_cons, not_or] at hstar hany
    rw [List.cons_append, Means, if_neg (Ne.symm hstar.1)] at h
    obtain ⟨d, rest, rfl, hcd, h⟩ := h
    obtain ⟨rest', rfl, hrest⟩ := ih hstar.2 hany.2 h
    obtain rfl := hcd.resolve_left (Ne.symm hany.1)
    exact ⟨rest', rfl, hrest⟩

section Bytes

open Utf8

variable {star any : Char} {s a : UInt8}

/-- A character of one byte. -/
theorem exists_byte {c : Char} (h : c.utf8Size = 1) : ∃ b, String.utf8EncodeChar c = [b] :=
  List.length_eq_one_iff.1 (by rw [String.length_utf8EncodeChar, h])

/-- The bytes of a character are not that of another one. -/
theorem notMem_utf8EncodeChar {c d : Char} {b : UInt8} (hb : String.utf8EncodeChar d = [b])
    (hne : c ≠ d) : b ∉ String.utf8EncodeChar c :=
  fun hmem => hne ((mem_utf8EncodeChar hb c).1 hmem)

theorem byte_ne {c d : Char} {b b' : UInt8} (hb : String.utf8EncodeChar c = [b])
    (hb' : String.utf8EncodeChar d = [b']) (hne : c ≠ d) : b ≠ b' := by
  have h := notMem_utf8EncodeChar hb' hne
  rw [hb, List.mem_singleton] at h
  exact Ne.symm h

variable (hs : String.utf8EncodeChar star = [s]) (ha : String.utf8EncodeChar any = [a]) (hne : star ≠ any)

include hs ha hne

theorem means_encode_of_means {pattern text : List Char}
    (hany : any ∉ pattern ∨ ∀ c ∈ text, c.utf8Size = 1) (h : Means star any pattern text) :
    Means s a (encode pattern) (encode text) := by
  induction pattern generalizing text with
  | nil =>
    obtain rfl : text = [] := h
    rfl
  | cons c pattern ih =>
    rw [Means] at h
    split at h
    · rename_i hc
      obtain ⟨rest, hrest, h⟩ := h
      rw [hc, encode_cons, hs, List.singleton_append, Means, if_pos rfl]
      refine ⟨encode rest, ?_, ih ?_ h⟩
      · obtain ⟨front, rfl⟩ := hrest
        rw [encode_append]
        exact List.suffix_append _ _
      · exact hany.imp (fun hnot hmem => hnot (List.mem_cons_of_mem c hmem))
          fun hsize d hd => hsize d (hrest.subset hd)
    · obtain ⟨d, rest, rfl, hcd, h⟩ := h
      have hrest : any ∉ pattern ∨ ∀ c ∈ rest, c.utf8Size = 1 :=
        hany.imp (fun hnot hmem => hnot (List.mem_cons_of_mem c hmem))
          fun hsize d' hd' => hsize d' (List.mem_cons_of_mem d hd')
      rcases eq_or_ne c d with rfl | hdiffer
      · rw [encode_cons, encode_cons]
        exact means_append_literal (literal_self _) (ih hrest h)
      · obtain rfl := hcd.resolve_right hdiffer
        have hsize := (hany.resolve_left fun hnot => hnot List.mem_cons_self) d List.mem_cons_self
        obtain ⟨b, hb⟩ := exists_byte hsize
        rw [encode_cons, encode_cons, ha, hb]
        exact means_append_literal (.cons (Or.inl rfl) .nil) (ih hrest h)

/-- A pattern that does not begin with `star` begins where a character does. -/
theorem firstByte_of_means {c : Char} {pattern text : List Char} {bytes : List UInt8} (hc : c ≠ star)
    (hany : any ∉ c :: pattern ∨ ∀ c ∈ text, c.utf8Size = 1) (hbytes : bytes <:+ encode text)
    (h : Means s a (encode (c :: pattern)) bytes) {b : UInt8} (hb : bytes.head? = some b) :
    b.IsUTF8FirstByte := by
  rcases eq_or_ne c any with rfl | hcany
  · -- all bytes of the text are first bytes
    have hsize := hany.resolve_left fun hnot => hnot List.mem_cons_self
    have hmem : b ∈ encode text := hbytes.subset (List.mem_of_mem_head? hb)
    obtain ⟨d, hd, hbd⟩ := List.mem_flatMap.1 hmem
    obtain ⟨b', hb'⟩ := exists_byte (hsize d hd)
    have hfirst := UInt8.isUTF8FirstByte_getElem_zero_utf8EncodeChar (c := d)
    rw [hb', List.mem_singleton] at hbd
    subst hbd
    simpa [hb'] using hfirst
  · rw [encode_cons] at h
    obtain ⟨rest, rfl, _⟩ := exists_of_means_append (notMem_utf8EncodeChar hs hc)
      (notMem_utf8EncodeChar ha hcany) h
    have hfirst := UInt8.isUTF8FirstByte_getElem_zero_utf8EncodeChar (c := c)
    obtain ⟨b', tail, hc'⟩ := List.exists_cons_of_ne_nil (String.utf8EncodeChar_ne_nil (c := c))
    simp only [hc', List.cons_append, List.head?_cons, Option.some.injEq] at hb
    subst hb
    simpa [hc'] using hfirst

theorem means_of_means_encode {pattern : List Char} :
    ∀ text : List Char, (any ∉ pattern ∨ ∀ c ∈ text, c.utf8Size = 1) →
      (Means s a (encode pattern) (encode text) → Means star any pattern text) ∧
      ∀ bytes, bytes <:+ encode text → Means s a (encode pattern) bytes →
        ∃ rest, rest <:+ text ∧ Means star any pattern rest := by
  induction pattern with
  | nil =>
    intro text _
    refine ⟨fun h => ?_, fun bytes _ h => ⟨[], List.nil_suffix, rfl⟩⟩
    have hlength := length_le_encode text
    rw [show encode text = [] from h] at hlength
    exact List.length_eq_zero_iff.1 (Nat.le_zero.1 hlength)
  | cons c pattern ih =>
    have hlater : ∀ {text rest : List Char}, (any ∉ c :: pattern ∨ ∀ c ∈ text, c.utf8Size = 1) →
        rest <:+ text → any ∉ pattern ∨ ∀ c ∈ rest, c.utf8Size = 1 :=
      fun hany hrest => hany.imp (fun hnot hmem => hnot (List.mem_cons_of_mem c hmem))
        fun hsize d hd => hsize d (hrest.subset hd)
    by_cases hc : c = star
    · subst hc
      -- behind the `star` the bytes go on where a character starts, or there is another `star`
      have hstar : ∀ {text : List Char}, (any ∉ c :: pattern ∨ ∀ c ∈ text, c.utf8Size = 1) →
          ∀ bytes, bytes <:+ encode text → Means s a (encode (c :: pattern)) bytes →
          ∃ rest, rest <:+ text ∧ Means c any pattern rest := by
        intro text hany bytes hbytes h
        rw [encode_cons, hs, List.singleton_append, Means, if_pos rfl] at h
        obtain ⟨bytes', hbytes', h⟩ := h
        exact (ih _ (hlater hany (List.suffix_refl _))).2 bytes' (hbytes'.trans hbytes) h
      intro text hany
      refine ⟨fun h => ?_, fun bytes hbytes h => ?_⟩
      · obtain ⟨rest, hrest, h⟩ := hstar hany _ (List.suffix_refl _) h
        rw [Means, if_pos rfl]
        exact ⟨rest, hrest, h⟩
      · obtain ⟨rest, hrest, h⟩ := hstar hany _ hbytes h
        refine ⟨rest, hrest, ?_⟩
        rw [Means, if_pos rfl]
        exact ⟨rest, List.suffix_refl _, h⟩
    · have hwhole : ∀ {text : List Char}, (any ∉ c :: pattern ∨ ∀ c ∈ text, c.utf8Size = 1) →
          Means s a (encode (c :: pattern)) (encode text) → Means star any (c :: pattern) text := by
        intro text hany h
        rw [Means, if_neg hc]
        rcases eq_or_ne c any with rfl | hcany
        · rw [encode_cons, ha, List.singleton_append, Means, if_neg (byte_ne ha hs hc)] at h
          obtain ⟨b, bytes, htext, _, h⟩ := h
          cases text with
          | nil => cases htext
          | cons d text =>
            have hsize := (hany.resolve_left fun hnot => hnot List.mem_cons_self) d List.mem_cons_self
            obtain ⟨b', hb'⟩ := exists_byte hsize
            rw [encode_cons, hb', List.singleton_append] at htext
            rw [← (List.cons.inj htext).2] at h
            exact ⟨d, text, rfl, Or.inl rfl, (ih _ (hlater hany (List.suffix_cons d text))).1 h⟩
        · rw [encode_cons] at h
          obtain ⟨bytes, htext, h⟩ := exists_of_means_append (notMem_utf8EncodeChar hs hc)
            (notMem_utf8EncodeChar ha hcany) h
          obtain ⟨text, rfl, rfl⟩ := exists_of_append_eq_encode htext.symm
          exact ⟨c, text, rfl, Or.inr rfl, (ih _ (hlater hany (List.suffix_cons c text))).1 h⟩
      intro text hany
      refine ⟨hwhole hany, fun bytes hbytes h => ?_⟩
      obtain ⟨rest, hrest, rfl⟩ := exists_suffix_of_firstByte hbytes fun b hb =>
        firstByte_of_means hs ha hne hc hany hbytes h hb
      refine ⟨rest, hrest, hwhole (hany.imp_right fun hsize d hd => hsize d (hrest.subset hd)) h⟩

/-- **Matching bytes is matching text**, where a pattern does not ask for any one symbol or the text is
in ASCII. -/
theorem means_encode {pattern text : List Char} (hany : any ∉ pattern ∨ ∀ c ∈ text, c.utf8Size = 1) :
    Means s a (encode pattern) (encode text) ↔ Means star any pattern text :=
  ⟨(means_of_means_encode hs ha hne text hany).1, means_encode_of_means hs ha hne hany⟩

end Bytes

/-! ## Paths

A pattern for paths is a list of patterns for single names, and `none` stands for any number of
names. -/

section Paths

variable {σ τ : Type} {seg seg' : σ → τ → Prop}

/-- **What a pattern for paths means.** -/
def PathMeans (seg : σ → τ → Prop) : List (Option σ) → List τ → Prop
  | [], path => path = []
  | none :: pattern, path => ∃ rest, rest <:+ path ∧ PathMeans seg pattern rest
  | some p :: pattern, path => ∃ name rest, path = name :: rest ∧ seg p name ∧ PathMeans seg pattern rest

/-- The names that a recursive wildcard stands for, one by one. -/
theorem pathMeans_none_cons {pattern : List (Option σ)} {name : τ} {path : List τ} :
    PathMeans seg (none :: pattern) (name :: path) ↔
      PathMeans seg pattern (name :: path) ∨ PathMeans seg (none :: pattern) path := by
  constructor
  · rintro ⟨rest, hrest, h⟩
    rcases List.suffix_cons_iff.1 hrest with rfl | hrest
    · exact Or.inl h
    · exact Or.inr ⟨rest, hrest, h⟩
  · rintro (h | ⟨rest, hrest, h⟩)
    · exact ⟨_, List.suffix_refl _, h⟩
    · exact ⟨rest, hrest.trans (List.suffix_cons name path), h⟩

theorem pathMeans_none_nil {pattern : List (Option σ)} :
    PathMeans seg (none :: pattern) [] ↔ PathMeans seg pattern [] := by
  constructor
  · rintro ⟨rest, hrest, h⟩
    rwa [List.suffix_nil.1 hrest] at h
  · exact fun h => ⟨[], List.suffix_refl _, h⟩

theorem pathMeans_some_cons {p : σ} {pattern : List (Option σ)} {name : τ} {path : List τ} :
    PathMeans seg (some p :: pattern) (name :: path) ↔ seg p name ∧ PathMeans seg pattern path := by
  constructor
  · rintro ⟨name', rest, heq, hseg, h⟩
    obtain ⟨rfl, rfl⟩ := List.cons.inj heq
    exact ⟨hseg, h⟩
  · exact fun h => ⟨name, path, rfl, h.1, h.2⟩

/-- Only the names of the path and the patterns at hand matter. -/
theorem pathMeans_congr {pattern : List (Option σ)} {path : List τ}
    (h : ∀ p, some p ∈ pattern → ∀ name ∈ path, (seg p name ↔ seg' p name)) :
    PathMeans seg pattern path ↔ PathMeans seg' pattern path := by
  induction pattern generalizing path with
  | nil => rfl
  | cons p pattern ih =>
    have hlater : ∀ rest, rest <:+ path → (PathMeans seg pattern rest ↔ PathMeans seg' pattern rest) :=
      fun rest hrest => ih fun p hp name hname => h p (List.mem_cons_of_mem _ hp) name (hrest.subset hname)
    cases p with
    | none =>
      exact exists_congr fun rest => and_congr_right fun hrest => hlater rest hrest
    | some p =>
      cases path with
      | nil => simp [PathMeans]
      | cons name path =>
        rw [pathMeans_some_cons, pathMeans_some_cons, h p List.mem_cons_self name List.mem_cons_self,
          hlater path (List.suffix_cons name path)]

/-- A path has a name for every pattern of a name. -/
theorem length_le_of_pathMeans {pattern : List (Option σ)} {path : List τ}
    (h : PathMeans seg pattern path) : pattern.reduceOption.length ≤ path.length := by
  induction pattern generalizing path with
  | nil => exact Nat.zero_le _
  | cons p pattern ih =>
    cases p with
    | none =>
      obtain ⟨rest, hrest, h⟩ := h
      exact (ih h).trans hrest.length_le
    | some p =>
      obtain ⟨name, rest, rfl, _, h⟩ := h
      rw [List.reduceOption_cons_of_some, List.length_cons, List.length_cons]
      exact Nat.succ_le_succ (ih h)

/-- A path with no more names than that matches name by name. -/
theorem pathMeans_iff_forall₂ {pattern : List (Option σ)} {path : List τ}
    (hlength : path.length = pattern.reduceOption.length) :
    PathMeans seg pattern path ↔ List.Forall₂ seg pattern.reduceOption path := by
  induction pattern generalizing path with
  | nil =>
    obtain rfl := List.length_eq_zero_iff.1 hlength
    simp [PathMeans]
  | cons p pattern ih =>
    cases p with
    | none =>
      rw [List.reduceOption_cons_of_none] at hlength ⊢
      rw [← ih hlength]
      constructor
      · rintro ⟨rest, hrest, h⟩
        have hle := length_le_of_pathMeans h
        rwa [← hrest.eq_of_length_le (by omega)]
      · exact fun h => ⟨path, List.suffix_refl _, h⟩
    | some p =>
      rw [List.reduceOption_cons_of_some, List.length_cons] at hlength
      cases path with
      | nil => cases hlength
      | cons name path =>
        rw [pathMeans_some_cons, List.reduceOption_cons_of_some, List.forall₂_cons,
          ih (Nat.succ.inj hlength)]

end Paths

end Lib.Glob
