import Fkst.Lib.Text

/-!
# Lines of a stream

A reader that gets a stream in pieces and wants its lines keeps what follows the last separator
until the next piece comes.  `cut` takes a text apart into its complete lines and the rest, and
`feed` is such a reader.  How the stream was split into pieces does not matter (`foldl_feed`).
-/

set_option autoImplicit false

namespace Lib.Lines

variable {α : Type} [DecidableEq α] {sep : α}

/-- The complete lines of a text, without their separators, and what follows the last separator. -/
def cut (sep : α) : List α → List (List α) × List α
  | [] => ([], [])
  | c :: cs =>
    match cut sep cs with
    | (lines, rest) =>
      if c = sep then ([] :: lines, rest)
      else match lines with
        | [] => ([], c :: rest)
        | line :: lines => ((c :: line) :: lines, rest)

@[simp] theorem cut_nil : cut sep [] = ([], []) := rfl

theorem cut_of_notMem : ∀ {a : List α}, sep ∉ a → cut sep a = ([], a)
  | [], _ => rfl
  | c :: a, h => by
    rw [List.mem_cons, not_or] at h
    rw [cut, cut_of_notMem h.2]
    simp [Ne.symm h.1]

theorem cut_append_sep : ∀ {a : List α} (b : List α), sep ∉ a →
    cut sep (a ++ sep :: b) = (a :: (cut sep b).1, (cut sep b).2)
  | [], b, _ => by simp [cut]
  | c :: a, b, h => by
    rw [List.mem_cons, not_or] at h
    rw [List.cons_append, cut, cut_append_sep b h.2]
    simp [Ne.symm h.1]

/-- Cutting is taking off what comes before the first separator, again and again. -/
theorem cut_eq_splitOnce (a : List α) :
    cut sep a = match Text.splitOnce sep a with
      | some (line, rest) => (line :: (cut sep rest).1, (cut sep rest).2)
      | none => ([], a) := by
  by_cases h : sep ∈ a
  · obtain ⟨line, rest, rfl, hline⟩ := List.eq_append_cons_of_mem h
    rw [Text.splitOnce_append hline, cut_append_sep rest hline]
  · rw [Text.splitOnce_eq_none h, cut_of_notMem h]

theorem notMem_rest (a : List α) : sep ∉ (cut sep a).2 := by
  induction a with
  | nil => simp
  | cons c a ih =>
    rw [cut]
    split
    rename_i lines rest hcut
    rw [hcut] at ih
    split
    · exact ih
    · rename_i hc
      split
      · simp [Ne.symm hc, ih]
      · exact ih

/-- **Cutting is independent of the pieces**: cut the first part, then what it leaves with the rest. -/
theorem cut_append (a b : List α) :
    cut sep (a ++ b) =
      ((cut sep a).1 ++ (cut sep ((cut sep a).2 ++ b)).1, (cut sep ((cut sep a).2 ++ b)).2) := by
  induction h : a.length using Nat.strongRecOn generalizing a with
  | _ n ih =>
    by_cases hmem : sep ∈ a
    · obtain ⟨line, rest, rfl, hline⟩ := List.eq_append_cons_of_mem hmem
      have hshort : rest.length < n := by
        rw [← h, List.length_append, List.length_cons]
        omega
      rw [List.append_assoc, List.cons_append, cut_append_sep _ hline, cut_append_sep _ hline,
        ih rest.length hshort rest rfl]
      simp
    · rw [cut_of_notMem hmem]
      simp

/-- A reader that handles every line once it is complete: what it keeps, and its state. -/
def feed {σ : Type} (sep : α) (handle : σ → List α → σ) (state : List α × σ) (piece : List α) :
    List α × σ :=
  match cut sep (state.1 ++ piece) with
  | (lines, rest) => (rest, lines.foldl handle state.2)

/-- **A reader sees the lines of the whole stream**, however it is split. -/
theorem foldl_feed {σ : Type} (sep : α) (handle : σ → List α → σ) (pieces : List (List α)) :
    ∀ (rest : List α) (s : σ), sep ∉ rest →
      pieces.foldl (feed sep handle) (rest, s) =
        ((cut sep (rest ++ pieces.flatten)).2,
          (cut sep (rest ++ pieces.flatten)).1.foldl handle s) := by
  induction pieces with
  | nil =>
    intro rest s hrest
    simp [cut_of_notMem hrest]
  | cons piece pieces ih =>
    intro rest s _
    rw [List.foldl_cons, feed, ih _ _ (notMem_rest _), List.flatten_cons, ← List.append_assoc,
      cut_append (rest ++ piece)]
    simp

/-- Every text is its lines and the rest. -/
theorem eq_lines_append (sep : α) (a : List α) :
    a = ((cut sep a).1.flatMap (· ++ [sep])) ++ (cut sep a).2 := by
  induction h : a.length using Nat.strongRecOn generalizing a with
  | _ n ih =>
    by_cases hmem : sep ∈ a
    · obtain ⟨line, rest, rfl, hline⟩ := List.eq_append_cons_of_mem hmem
      have hshort : rest.length < n := by
        rw [← h, List.length_append, List.length_cons]
        omega
      have hrest := ih rest.length hshort rest rfl
      rw [cut_append_sep _ hline]
      simp only [List.flatMap_cons, List.append_assoc, List.cons_append, List.nil_append]
      rw [← hrest]
    · rw [cut_of_notMem hmem]
      rfl

/-- A line is a piece of the text. -/
theorem infix_of_mem {a line : List α} (h : line ∈ (cut sep a).1) : line <:+: a := by
  obtain ⟨front, back, hsplit⟩ := List.append_of_mem h
  rw [eq_lines_append sep a, hsplit]
  simp only [List.flatMap_append, List.flatMap_cons, List.append_assoc]
  exact ⟨_, _, (List.append_assoc _ _ _)⟩

theorem rest_infix (a : List α) : (cut sep a).2 <:+: a := by
  nth_rewrite 2 [eq_lines_append sep a]
  exact (List.suffix_append _ _).isInfix

end Lib.Lines
