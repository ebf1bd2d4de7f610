import Mathlib.Algebra.Group.Int.Defs
import Mathlib.Algebra.GroupWithZero.Nat
import Mathlib.Data.Nat.Init
import Mathlib.Tactic.Common

/-!
# Keys made of fields

A composite key of an ordered table is a piece of text: fields one after another, a separator
between them, and every number written with a fixed number of digits so that the order of the text
is the order of the numbers.  Three things are needed of such keys, and each has its section here:

* that a key can be taken apart again (`splitOnce_append`, `append_sep_inj`), unless one of its
  fields runs on into the next (`append_eq_append_iff_runsOn`);
* that a number can be read back and is determined by its digits (`readDec_digits`,
  `digits_injOn`);
* that a range of keys `P ++ a ≤ k ≤ P ++ b` contains only keys that start with `P`, in the order
  of what follows (`exists_append_of_between`, `le_of_digits_append_le`).
-/

set_option autoImplicit false

namespace Lib.Text

/-! ## Splitting at a separator -/

section Split

variable {α : Type} [DecidableEq α]

/-- Split a list at the first separator. -/
def splitOnce (sep : α) : List α → Option (List α × List α)
  | [] => none
  | c :: cs => if c = sep then some ([], cs) else (splitOnce sep cs).map fun p => (c :: p.1, p.2)

theorem splitOnce_append {sep : α} : ∀ {a b : List α}, sep ∉ a →
    splitOnce sep (a ++ sep :: b) = some (a, b)
  | [], b, _ => by simp [splitOnce]
  | c :: a, b, h => by
    rw [List.mem_cons, not_or] at h
    rw [List.cons_append, splitOnce, if_neg (Ne.symm h.1), splitOnce_append h.2]
    rfl

theorem splitOnce_eq_none {sep : α} : ∀ {text : List α}, sep ∉ text → splitOnce sep text = none
  | [], _ => rfl
  | c :: cs, h => by
    rw [List.mem_cons, not_or] at h
    rw [splitOnce, if_neg (Ne.symm h.1), splitOnce_eq_none h.2, Option.map_none]

theorem splitOnce_eq_some {sep : α} : ∀ {text a b : List α}, splitOnce sep text = some (a, b) →
    text = a ++ sep :: b ∧ sep ∉ a
  | [], a, b, h => by simp [splitOnce] at h
  | c :: text, a, b, h => by
    rw [splitOnce] at h
    split at h
    · rename_i hc
      rw [Option.some_inj, Prod.mk.injEq] at h
      obtain ⟨rfl, rfl⟩ := h
      exact ⟨by rw [hc, List.nil_append], by simp⟩
    · rename_i hc
      rw [Option.map_eq_some_iff] at h
      obtain ⟨⟨a', b'⟩, hsplit, heq⟩ := h
      rw [Prod.mk.injEq] at heq
      obtain ⟨rfl, rfl⟩ := heq
      obtain ⟨rfl, hnot⟩ := splitOnce_eq_some hsplit
      exact ⟨rfl, by simp [Ne.symm hc, hnot]⟩

omit [DecidableEq α] in
/-- What is in pieces joined by a separator is the separator or in one of them. -/
theorem mem_intercalate {sep c : α} {pieces : List (List α)} (h : c ∈ [sep].intercalate pieces) :
    c = sep ∨ ∃ piece ∈ pieces, c ∈ piece := by
  induction pieces with
  | nil => simp at h
  | cons piece pieces ih =>
    cases pieces with
    | nil => exact Or.inr ⟨piece, List.mem_cons_self, by simpa using h⟩
    | cons piece' pieces =>
      rw [List.intercalate_cons_cons, List.mem_append, List.mem_append, List.mem_singleton] at h
      rcases h with (h | h) | h
      · exact Or.inr ⟨piece, List.mem_cons_self, h⟩
      · exact Or.inl h
      · exact (ih h).imp_right fun ⟨p, hp, hc⟩ => ⟨p, List.mem_cons_of_mem _ hp, hc⟩

omit [DecidableEq α] in
theorem mem_intercalate_of_mem {sep c : α} {pieces : List (List α)} {piece : List α}
    (hpiece : piece ∈ pieces) (hc : c ∈ piece) : c ∈ [sep].intercalate pieces := by
  induction pieces with
  | nil => cases hpiece
  | cons piece' pieces ih =>
    cases pieces with
    | nil =>
      rw [List.mem_singleton] at hpiece
      rwa [List.intercalate_singleton, ← hpiece]
    | cons piece'' pieces =>
      rw [List.intercalate_cons_cons, List.append_assoc, List.mem_append]
      rcases List.mem_cons.1 hpiece with rfl | hpiece
      · exact Or.inl hc
      · exact Or.inr (List.mem_append_right _ (ih hpiece))

/-- No piece has the separator in it. -/
theorem notMem_of_mem_splitOn {sep : α} {text piece : List α} (h : piece ∈ text.splitOn sep) :
    sep ∉ piece := by
  induction text generalizing piece with
  | nil =>
    rw [List.splitOn_nil, List.mem_singleton] at h
    rw [h]
    exact List.not_mem_nil
  | cons c text ih =>
    obtain ⟨first, rest, hsplit⟩ := List.exists_cons_of_ne_nil (List.splitOn_ne_nil sep text)
    rw [hsplit] at ih
    rw [List.splitOn_cons_eq_if_modifyHead, hsplit] at h
    split at h
    · rcases List.mem_cons.1 h with rfl | h
      · exact List.not_mem_nil
      · exact ih h
    · rename_i hc
      rcases List.mem_cons.1 h with rfl | h
      · have hne : c ≠ sep := by simpa using hc
        rw [List.mem_cons, not_or]
        exact ⟨hne.symm, ih List.mem_cons_self⟩
      · exact ih (List.mem_cons_of_mem _ h)

/-- Two texts that agree up to a separator missing from both heads agree in head and tail. -/
theorem append_sep_inj {sep : α} {a a' b b' : List α} (ha : sep ∉ a) (ha' : sep ∉ a')
    (h : a ++ sep :: b = a' ++ sep :: b') : a = a' ∧ b = b' := by
  have h1 := splitOnce_append (b := b) ha
  rw [h, splitOnce_append ha', Option.some_inj, Prod.mk.injEq] at h1
  exact ⟨h1.1.symm, h1.2.symm⟩

/-- Pieces that do not have the first symbol of the separator in them are determined by what they make. -/
theorem intercalate_inj {s : α} {rest : List α} {l l' : List (List α)} (hne : l ≠ []) (hne' : l' ≠ [])
    (h : ∀ piece ∈ l, s ∉ piece) (h' : ∀ piece ∈ l', s ∉ piece)
    (heq : (s :: rest).intercalate l = (s :: rest).intercalate l') : l = l' := by
  induction l generalizing l' with
  | nil => exact absurd rfl hne
  | cons a l ih =>
    obtain ⟨a', l', rfl⟩ := List.exists_cons_of_ne_nil hne'
    have ha := h a List.mem_cons_self
    have ha' := h' a' List.mem_cons_self
    cases l with
    | nil =>
      cases l' with
      | nil => simpa using heq
      | cons b' l' =>
        rw [List.intercalate_singleton, List.intercalate_cons_cons] at heq
        exact absurd (heq ▸ by simp) ha
    | cons b l =>
      cases l' with
      | nil =>
        rw [List.intercalate_singleton, List.intercalate_cons_cons] at heq
        exact absurd (heq ▸ by simp) ha'
      | cons b' l' =>
        rw [List.intercalate_cons_cons, List.intercalate_cons_cons, List.append_assoc,
          List.append_assoc, List.cons_append, List.cons_append] at heq
        obtain ⟨hhead, htail⟩ := append_sep_inj ha ha' heq
        rw [hhead, ih (List.cons_ne_nil _ _) (List.cons_ne_nil _ _)
          (fun piece hp => h piece (List.mem_cons_of_mem _ hp))
          (fun piece hp => h' piece (List.mem_cons_of_mem _ hp)) (List.append_cancel_left htail)]

/-- The same at a separator missing from both tails. -/
theorem append_sep_inj_right {sep : α} {a a' b b' : List α} (hb : sep ∉ b) (hb' : sep ∉ b')
    (h : a ++ sep :: b = a' ++ sep :: b') : a = a' ∧ b = b' := by
  have hreverse := congrArg List.reverse h
  rw [List.reverse_append, List.reverse_append, List.reverse_cons, List.reverse_cons,
    List.append_assoc, List.append_assoc] at hreverse
  obtain ⟨hb, ha⟩ := append_sep_inj (by simpa using hb) (by simpa using hb') hreverse
  exact ⟨List.reverse_inj.1 (List.append_cancel_left ha), List.reverse_inj.1 hb⟩

end Split

/-! ## Fields that run on -/

section RunsOn

variable {α : Type} {a a' b b' : List α}

/-- One text has a field `a` and then `b`, another a field `a'` and then `b'`, and the second field
runs on into what follows the first. -/
def RunsOn (a b a' b' : List α) : Prop := ∃ y, y ≠ [] ∧ a' = a ++ y ∧ b = y ++ b'

/-- Two texts agree if their fields do, or if one field runs on. -/
theorem append_eq_append_iff_runsOn :
    a ++ b = a' ++ b' ↔ (a = a' ∧ b = b') ∨ RunsOn a b a' b' ∨ RunsOn a' b' a b := by
  rw [List.append_eq_append_iff]
  constructor
  · rintro (⟨y, rfl, rfl⟩ | ⟨y, rfl, rfl⟩)
    · rcases eq_or_ne y [] with rfl | hy
      · exact Or.inl ⟨(List.append_nil a).symm, rfl⟩
      · exact Or.inr (Or.inl ⟨y, hy, rfl, rfl⟩)
    · rcases eq_or_ne y [] with rfl | hy
      · exact Or.inl ⟨List.append_nil a', rfl⟩
      · exact Or.inr (Or.inr ⟨y, hy, rfl, rfl⟩)
  · rintro (⟨rfl, rfl⟩ | ⟨y, _, rfl, rfl⟩ | ⟨y, _, rfl, rfl⟩)
    · exact Or.inl ⟨[], (List.append_nil a).symm, rfl⟩
    · exact Or.inl ⟨y, rfl, rfl⟩
    · exact Or.inr ⟨y, rfl, rfl⟩

/-- A field that runs on is another one. -/
theorem RunsOn.ne (h : RunsOn a b a' b') : a ≠ a' := by
  obtain ⟨y, hy, rfl, _⟩ := h
  intro heq
  exact hy (List.append_right_eq_self.1 heq.symm)

/-- A field that runs on takes in the first symbol of what follows. -/
theorem RunsOn.mem {c : α} (h : RunsOn a (c :: b) a' b') : c ∈ a' := by
  obtain ⟨y, hy, rfl, heq⟩ := h
  cases y with
  | nil => exact absurd rfl hy
  | cons d y =>
    rw [List.cons_append, List.cons.injEq] at heq
    rw [heq.1]
    simp

end RunsOn

/-! ## Numbers of a fixed width -/

/-- The last `w` digits of `n` in base `b`, the most significant first, written by `d`. -/
def digits (d : ℕ → Char) (b : ℕ) : ℕ → ℕ → List Char
  | 0, _ => []
  | w + 1, n => d (n / b ^ w % b) :: digits d b w n

@[simp] theorem length_digits (d : ℕ → Char) (b : ℕ) : ∀ w n, (digits d b w n).length = w
  | 0, _ => rfl
  | w + 1, n => by rw [digits, List.length_cons, length_digits d b w n]

theorem mem_digits {d : ℕ → Char} {b : ℕ} (hb : 0 < b) {c : Char} :
    ∀ {w n}, c ∈ digits d b w n → ∃ i, i < b ∧ c = d i
  | 0, _, h => by simp [digits] at h
  | w + 1, n, h => by
    rw [digits, List.mem_cons] at h
    rcases h with rfl | h
    · exact ⟨_, Nat.mod_lt _ hb, rfl⟩
    · exact mem_digits hb h

theorem digits_inj {d : ℕ → Char} {b : ℕ} (hb : 0 < b)
    (hd : ∀ i j, i < b → j < b → d i = d j → i = j) :
    ∀ {w n m}, digits d b w n = digits d b w m → n % b ^ w = m % b ^ w
  | 0, n, m, _ => by simp [Nat.mod_one]
  | w + 1, n, m, h => by
    rw [digits, digits, List.cons.injEq] at h
    rw [Nat.mod_pow_succ, Nat.mod_pow_succ, digits_inj hb hd h.2,
      hd _ _ (Nat.mod_lt _ hb) (Nat.mod_lt _ hb) h.1]

/-- A number below `b ^ w` is determined by its `w` digits. -/
theorem digits_injOn {d : ℕ → Char} {b w n m : ℕ} (hb : 0 < b)
    (hd : ∀ i j, i < b → j < b → d i = d j → i = j) (hn : n < b ^ w) (hm : m < b ^ w)
    (h : digits d b w n = digits d b w m) : n = m := by
  have h1 := digits_inj hb hd h
  rwa [Nat.mod_eq_of_lt hn, Nat.mod_eq_of_lt hm] at h1

/-- The value of a decimal digit. -/
def decValue (c : Char) : Option ℕ :=
  if '0' ≤ c ∧ c ≤ '9' then some (c.toNat - '0'.toNat) else none

/-- Read decimal digits onto what has been read so far. -/
def readDec : ℕ → List Char → Option ℕ
  | acc, [] => some acc
  | acc, c :: cs => (decValue c).bind fun v => readDec (acc * 10 + v) cs

theorem decValue_digitChar : ∀ i, i < 10 → decValue (Nat.digitChar i) = some i := by decide

theorem digitChar_inj_ten (i j : ℕ) (hi : i < 10) (hj : j < 10)
    (h : Nat.digitChar i = Nat.digitChar j) : i = j := by
  have := congrArg decValue h
  rwa [decValue_digitChar i hi, decValue_digitChar j hj, Option.some_inj] at this

theorem digitChar_inj_sixteen : ∀ i j, i < 16 → j < 16 → Nat.digitChar i = Nat.digitChar j → i = j := by
  have h : ∀ i < 16, ∀ j < 16, Nat.digitChar i = Nat.digitChar j → i = j := by decide
  exact fun i j hi hj => h i hi j hj

theorem readDec_digits (w : ℕ) : ∀ acc n,
    readDec acc (digits Nat.digitChar 10 w n) = some (acc * 10 ^ w + n % 10 ^ w) := by
  induction w with
  | zero => intro acc n; simp [digits, readDec, Nat.mod_one]
  | succ w ih =>
    intro acc n
    rw [digits, readDec, decValue_digitChar _ (Nat.mod_lt _ (by decide)), Option.bind_some, ih,
      Nat.mod_pow_succ, Nat.pow_succ]
    congr 1
    rw [Nat.add_mul, Nat.mul_assoc, Nat.mul_comm 10 (10 ^ w), Nat.mul_comm (n / 10 ^ w % 10)]
    omega

theorem readDec_of_isDigit : ∀ {cs : List Char} {acc : ℕ}, (∀ c ∈ cs, c.isDigit = true) →
    readDec acc cs = some (Nat.ofDigitChars 10 cs acc)
  | [], acc, _ => by rw [Nat.ofDigitChars_nil]; rfl
  | c :: cs, acc, h => by
    rw [List.forall_mem_cons] at h
    have hc : '0' ≤ c ∧ c ≤ '9' := by simpa [Char.isDigit, Char.le_def] using h.1
    rw [readDec, decValue, if_pos hc, Option.bind_some, readDec_of_isDigit h.2,
      Nat.ofDigitChars_cons, Nat.mul_comm]

/-- A number in decimal has nothing but digits. -/
theorem notMem_repr {c : Char} (hc : c.isDigit = false) (n : ℕ) : c ∉ n.repr.toList := by
  intro hmem
  rw [Nat.toList_repr] at hmem
  rw [Nat.isDigit_of_mem_toDigits (by decide) (by decide) hmem] at hc
  cases hc

/-- A number that was printed is read back. -/
theorem readDec_repr (n : ℕ) : readDec 0 n.repr.toList = some n := by
  rw [Nat.toList_repr, readDec_of_isDigit fun c hc =>
    Nat.isDigit_of_mem_toDigits (by decide) (by decide) hc, Nat.ofDigitChars_ten_toDigits]

/-! ## Ranges in lexicographic order -/

section Lex

variable {α : Type} [LT α]

/-- A text between two extensions of `P` is itself an extension of `P`, and lies between what they
extend it by. -/
theorem exists_append_of_between [Std.Trichotomous fun a b : α => a < b] : ∀ {P a b k : List α}, ¬ k < P ++ a → ¬ P ++ b < k →
    ∃ c, k = P ++ c ∧ ¬ c < a ∧ ¬ b < c
  | [], a, b, k, h1, h2 => ⟨k, rfl, h1, h2⟩
  | p :: P, a, b, [], h1, _ => absurd (List.nil_lt_cons p (P ++ a)) h1
  | p :: P, a, b, q :: k, h1, h2 => by
    rw [List.cons_append, List.cons_lt_cons_iff, not_or] at h1 h2
    have hpq : q = p := Std.Trichotomous.trichotomous q p h1.1 h2.1
    subst hpq
    obtain ⟨c, rfl, hc⟩ := exists_append_of_between (P := P) (a := a) (b := b) (k := k)
      (fun h => h1.2 ⟨rfl, h⟩) (fun h => h2.2 ⟨rfl, h⟩)
    exact ⟨c, rfl, hc⟩

/-- Texts with heads of one length are ordered by the heads first. -/
theorem append_lt_append_iff : ∀ {a b x y : List α}, a.length = b.length →
    (a ++ x < b ++ y ↔ a < b ∨ a = b ∧ x < y)
  | [], [], x, y, _ => by simp
  | p :: a, q :: b, x, y, hl => by
    have ih := append_lt_append_iff (x := x) (y := y) (a := a) (b := b) (by simpa using hl)
    rw [List.cons_append, List.cons_append, List.cons_lt_cons_iff, ih, List.cons_lt_cons_iff,
      List.cons.injEq]
    tauto

end Lex

theorem digitChar_lt_ten : ∀ i, i < 10 → ∀ j, j < 10 → i < j →
    Nat.digitChar i < Nat.digitChar j := by
  decide

theorem digitChar_lt_sixteen : ∀ i, i < 16 → ∀ j, j < 16 → i < j →
    Nat.digitChar i < Nat.digitChar j := by
  decide

section Order

variable {d : ℕ → Char} {b : ℕ}

/-- The order of the digits is the order of the numbers. -/
theorem digits_lt_of_lt (hb : 0 < b) (hd : ∀ i, i < b → ∀ j, j < b → i < j → d i < d j) :
    ∀ {w n m : ℕ}, n % b ^ w < m % b ^ w → digits d b w n < digits d b w m
  | 0, n, m, h => by simp [Nat.mod_one] at h
  | w + 1, n, m, h => by
    rw [Nat.mod_pow_succ, Nat.mod_pow_succ] at h
    rw [digits, digits, List.cons_lt_cons_iff]
    have hn := Nat.mod_lt n (Nat.pow_pos (n := w) hb)
    have hm := Nat.mod_lt m (Nat.pow_pos (n := w) hb)
    have hi := Nat.mod_lt (n / b ^ w) hb
    have hj := Nat.mod_lt (m / b ^ w) hb
    rcases Nat.lt_trichotomy (n / b ^ w % b) (m / b ^ w % b) with hlt | heq | hgt
    · exact Or.inl (hd _ hi _ hj hlt)
    · rw [heq] at h ⊢
      exact Or.inr ⟨rfl, digits_lt_of_lt hb hd (by omega)⟩
    · have hmul := Nat.mul_le_mul_left (b ^ w) (Nat.succ_le_of_lt hgt)
      rw [Nat.mul_succ] at hmul
      generalize n % b ^ w = low at *
      omega

/-- Texts that start with numbers of one width are ordered by the numbers first. -/
theorem digits_append_lt_iff (hb : 0 < b) (hd : ∀ i, i < b → ∀ j, j < b → i < j → d i < d j)
    {w n m : ℕ} (hn : n < b ^ w) (hm : m < b ^ w) {x y : List Char} :
    digits d b w n ++ x < digits d b w m ++ y ↔ n < m ∨ n = m ∧ x < y := by
  have hlt : ∀ {n m : ℕ}, n < b ^ w → m < b ^ w → n < m → digits d b w n < digits d b w m :=
    fun hn hm h => digits_lt_of_lt hb hd (by rwa [Nat.mod_eq_of_lt hn, Nat.mod_eq_of_lt hm])
  rw [append_lt_append_iff (by simp)]
  rcases Nat.lt_trichotomy n m with h | rfl | h
  · simp [h, hlt hn hm h]
  · simp [List.lt_irrefl]
  · have hne : digits d b w n ≠ digits d b w m := fun heq =>
      List.lt_irrefl _ (heq ▸ hlt hm hn h)
    simp [Nat.ne_of_gt h, Nat.lt_asymm h, List.lt_asymm (hlt hm hn h), hne]

end Order

/-- Reading an upper bound off a range of keys: the number at the front of a key that is not above
another is at most the other's. -/
theorem le_of_digits_append_le {w n m : ℕ} (hn : n < 10 ^ w) (hm : m < 10 ^ w) {x y : List Char}
    (h : ¬ digits Nat.digitChar 10 w m ++ y < digits Nat.digitChar 10 w n ++ x) : n ≤ m := by
  rw [digits_append_lt_iff (by decide) digitChar_lt_ten hm hn, not_or] at h
  exact Nat.le_of_not_lt h.1

end Lib.Text
