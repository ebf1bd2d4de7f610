import Mathlib.Data.List.DropRight
import Mathlib.Data.List.Forall2
import Fkst.Lib.Replace

/-!
# Words, and what encloses them

A text falls into words at the symbols of a class, as at white space (`words`), and words that are joined
by such a symbol come apart again (`words_intercalate`).

A word may have symbols of another class at both ends, as punctuation.  What they enclose is found by
trimming (`Enclosed.trimMatches_eq`), and it is in the word only once, so that replacing it replaces
nothing else (`Enclosed.replace`).
-/

set_option autoImplicit false

namespace Lib.Words

variable {α : Type} {p : α → Bool}

/-! ## Words -/

/-- What is between symbols of a class and not empty. -/
def words (p : α → Bool) (text : List α) : List (List α) :=
  (text.splitOnP p).filter (!·.isEmpty)

/-- Not empty, and without a symbol of the class. -/
def IsWord (p : α → Bool) (word : List α) : Prop := word ≠ [] ∧ ∀ c ∈ word, p c = false

theorem eq_false_of_mem_splitOnP : ∀ {text word : List α}, word ∈ text.splitOnP p →
    ∀ c ∈ word, p c = false
  | [], word, h, c, hc => by
    rw [List.splitOnP_nil, List.mem_singleton] at h
    subst h
    cases hc
  | a :: text, word, h, c, hc => by
    rw [List.splitOnP_cons_eq_if_modifyHead] at h
    split at h
    · rcases List.mem_cons.1 h with rfl | h
      · cases hc
      · exact eq_false_of_mem_splitOnP h c hc
    · rename_i ha
      obtain ⟨first, rest, heq⟩ := List.exists_cons_of_ne_nil (List.splitOnP_ne_nil p text)
      rw [heq, List.modifyHead_cons] at h
      rcases List.mem_cons.1 h with rfl | h
      · rcases List.mem_cons.1 hc with rfl | hc
        · exact Bool.eq_false_iff.2 ha
        · exact eq_false_of_mem_splitOnP (heq ▸ List.mem_cons_self) c hc
      · exact eq_false_of_mem_splitOnP (heq ▸ List.mem_cons_of_mem _ h) c hc

theorem isWord_of_mem {text word : List α} (h : word ∈ words p text) : IsWord p word := by
  obtain ⟨hmem, hne⟩ := List.mem_filter.1 h
  exact ⟨by simpa using hne, eq_false_of_mem_splitOnP hmem⟩

/-- **Words that are joined come apart again.** -/
theorem words_intercalate {sep : α} (hsep : p sep = true) : ∀ {ws : List (List α)},
    (∀ w ∈ ws, IsWord p w) → words p ([sep].intercalate ws) = ws
  | [], _ => by simp [words, List.splitOnP_nil]
  | [w], h => by
    obtain ⟨hne, hfree⟩ := h w List.mem_cons_self
    rw [List.intercalate_singleton, words, List.splitOnP_eq_singleton hfree]
    simp [hne]
  | w :: w' :: ws, h => by
    rw [List.forall_mem_cons] at h
    obtain ⟨⟨hne, hfree⟩, hrest⟩ := h
    have ih := words_intercalate hsep hrest
    rw [words] at ih
    rw [List.intercalate_cons_cons, words, List.append_assoc, List.singleton_append,
      List.splitOnP_append_cons_of_forall_mem hfree sep hsep, List.filter_cons_of_pos (by simp [hne]), ih]

/-- Words are determined by how they read joined. -/
theorem intercalate_words_inj {sep : α} (hsep : p sep = true) {ws ws' : List (List α)}
    (h : ∀ w ∈ ws, IsWord p w) (h' : ∀ w ∈ ws', IsWord p w) :
    [sep].intercalate ws = [sep].intercalate ws' ↔ ws = ws' := by
  refine ⟨fun heq => ?_, fun heq => heq ▸ rfl⟩
  rw [← words_intercalate hsep h, heq, words_intercalate hsep h']

/-! ## What encloses a word -/

/-- Trim the symbols of a class at both ends. -/
def trimMatches (p : α → Bool) (text : List α) : List α := (text.dropWhile p).rdropWhile p

/-- The text is a body between symbols of the class; the body begins and ends with none. -/
structure Enclosed (p : α → Bool) (front body back text : List α) : Prop where
  eq : text = front ++ body ++ back
  front : ∀ c ∈ front, p c = true
  back : ∀ c ∈ back, p c = true
  head : ∀ c, body.head? = some c → p c = false
  last : ∀ c, body.getLast? = some c → p c = false

theorem enclosed_trimMatches (p : α → Bool) (text : List α) :
    Enclosed p (text.takeWhile p) (trimMatches p text) ((text.dropWhile p).rtakeWhile p) text where
  eq := by
    rw [trimMatches, List.append_assoc, List.rdropWhile_append_rtakeWhile, List.takeWhile_append_dropWhile]
  front := fun c hc => List.mem_takeWhile_imp hc
  back := fun c hc => List.mem_rtakeWhile_imp hc
  head := by
    intro c hc
    have hhead : (text.dropWhile p).head? = some c := by
      obtain ⟨rest, heq⟩ : (text.dropWhile p).rdropWhile p <+: text.dropWhile p :=
        List.rdropWhile_prefix p _
      rw [trimMatches] at hc
      rw [← heq, List.head?_append, hc]
      rfl
    have hnot := List.head?_dropWhile_not p text
    rw [hhead] at hnot
    exact hnot
  last := by
    intro c hc
    have hne : (text.dropWhile p).rdropWhile p ≠ [] := by
      intro hnil
      rw [trimMatches, hnil] at hc
      cases hc
    have hnot := List.rdropWhile_last_not p (text.dropWhile p) hne
    rw [trimMatches, List.getLast?_eq_getLast_of_ne_nil hne, Option.some.injEq] at hc
    rw [hc] at hnot
    exact Bool.eq_false_iff.2 hnot

namespace Enclosed

variable {front body back text front' body' back' : List α}

/-- **A body that is not empty is found by trimming**, and so are its two sides. -/
theorem parts_eq (h : Enclosed p front body back text) (hne : body ≠ []) :
    text.takeWhile p = front ∧ trimMatches p text = body ∧ (text.dropWhile p).rtakeWhile p = back := by
  obtain ⟨c, rest, hbody⟩ := List.exists_cons_of_ne_nil hne
  have hc : p c = false := h.head c (by rw [hbody]; rfl)
  have htext : text = front ++ c :: (rest ++ back) := by
    rw [h.eq, hbody, List.append_assoc]
    rfl
  have hdrop : text.dropWhile p = body ++ back := by
    rw [htext, List.dropWhile_append_of_pos h.front, List.dropWhile_cons_of_neg (by simp [hc]), hbody]
    rfl
  have htake : text.takeWhile p = front := by
    rw [htext, List.takeWhile_append_of_pos h.front, List.takeWhile_cons_of_neg (by simp [hc]),
      List.append_nil]
  have hlast : ¬ p (body.getLast hne) = true := by
    rw [h.last _ (List.getLast?_eq_getLast_of_ne_nil hne)]
    decide
  have htrim : (body ++ back).rdropWhile p = body := by
    rw [List.rdropWhile, List.reverse_append,
      List.dropWhile_append_of_pos fun c hc => h.back c (List.mem_reverse.1 hc), ← List.rdropWhile,
      List.rdropWhile_eq_self_iff]
    exact fun _ => hlast
  refine ⟨htake, by rw [trimMatches, hdrop, htrim], ?_⟩
  have hparts : (body ++ back).rdropWhile p ++ (body ++ back).rtakeWhile p = body ++ back :=
    List.rdropWhile_append_rtakeWhile
  rw [htrim] at hparts
  rw [hdrop]
  exact List.append_cancel_left hparts

theorem trimMatches_eq (h : Enclosed p front body back text) (hne : body ≠ []) :
    trimMatches p text = body := (h.parts_eq hne).2.1

/-- A text encloses one body at most, apart from the empty one. -/
theorem inj (h : Enclosed p front body back text) (h' : Enclosed p front' body' back' text)
    (hne : body ≠ []) (hne' : body' ≠ []) : front = front' ∧ body = body' ∧ back = back' := by
  obtain ⟨hfront, hbody, hback⟩ := h.parts_eq hne
  obtain ⟨hfront', hbody', hback'⟩ := h'.parts_eq hne'
  exact ⟨hfront ▸ hfront', hbody ▸ hbody', hback ▸ hback'⟩

/-- **Replacing the body** replaces what is enclosed, and nothing else. -/
theorem replace [DecidableEq α] (h : Enclosed p front body back text) (hne : body ≠ [])
    (replacement : List α) : Replace.replace body replacement text = front ++ replacement ++ back := by
  obtain ⟨c, rest, hbody⟩ := List.exists_cons_of_ne_nil hne
  have hc : p c = false := h.head c (by rw [hbody]; rfl)
  -- no occurrence of the body begins with a symbol of the class
  have hskip : ∀ {side : List α} (more : List α), (∀ c ∈ side, p c = true) →
      Replace.replace body replacement (side ++ more) = side ++ Replace.replace body replacement more := by
    intro side more hside
    induction side with
    | nil => rfl
    | cons a side ih =>
      rw [List.forall_mem_cons] at hside
      have hnot : ¬ body <+: a :: (side ++ more) := by
        rintro ⟨after, heq⟩
        rw [hbody, List.cons_append, List.cons.injEq] at heq
        rw [heq.1, hside.1] at hc
        cases hc
      rw [List.cons_append, Replace.replace_cons hnot, ih hside.2, List.cons_append]
  have hback := hskip [] h.back
  have hnil : Replace.replace body replacement [] = [] := rfl
  rw [List.append_nil, hnil, List.append_nil] at hback
  rw [h.eq, List.append_assoc, hskip _ h.front, Replace.replace_pattern hne, hback, List.append_assoc]

end Enclosed

end Lib.Words
