import Mathlib.Tactic

set_option autoImplicit false

/-! # Words

The words of a text are its maximal parts without separators. A scanner that goes over the text
once finds them one after the other (`words_cons_sep`, `words_cons_word`).
-/

namespace Words

variable {α : Type} {sep : α → Bool}

/-- The words of a text; `sep` tells the separators. -/
def words (sep : α → Bool) (text : List α) : List (List α) :=
  (text.splitOnP sep).filter (fun w => !w.isEmpty)

/-- The part of a text before its first separator. -/
def firstWord (sep : α → Bool) (text : List α) : List α := text.takeWhile (fun c => !sep c)

/-- The text from its first separator on. -/
def afterWord (sep : α → Bool) (text : List α) : List α := text.dropWhile (fun c => !sep c)

@[simp] theorem words_nil : words sep [] = [] := rfl

theorem words_cons_sep {c : α} {text : List α} (h : sep c = true) :
    words sep (c :: text) = words sep text := by
  unfold words
  rw [List.splitOnP_cons_eq_if_modifyHead, if_pos h, List.filter_cons_of_neg (by simp)]

/-- The first part of a text that is split is its first word. -/
theorem splitOnP_eq (text : List α) : ∃ parts, text.splitOnP sep = firstWord sep text :: parts ∧
    parts.filter (fun w => !w.isEmpty) = words sep (afterWord sep text) := by
  induction text with
  | nil => exact ⟨[], rfl, rfl⟩
  | cons c text ih =>
      unfold firstWord afterWord
      cases hc : sep c with
      | true =>
          refine ⟨text.splitOnP sep, ?_, ?_⟩
          · rw [List.splitOnP_cons_eq_if_modifyHead, if_pos hc, List.takeWhile_cons_of_neg (by simp [hc])]
          · rw [List.dropWhile_cons_of_neg (by simp [hc]), words_cons_sep hc]
            rfl
      | false =>
          rcases ih with ⟨parts, hsplit, hparts⟩
          refine ⟨parts, ?_, ?_⟩
          · rw [List.splitOnP_cons_eq_if_modifyHead, if_neg (by simp [hc]), hsplit,
              List.takeWhile_cons_of_pos (by simp [hc])]
            rfl
          · rw [List.dropWhile_cons_of_pos (by simp [hc])]
            exact hparts

/-- A text that begins with a word. -/
theorem words_cons_word {c : α} {text : List α} (h : sep c = false) :
    words sep (c :: text) = (c :: firstWord sep text) :: words sep (afterWord sep text) := by
  rcases @splitOnP_eq α sep text with ⟨parts, hsplit, hparts⟩
  rw [← hparts]
  show (List.splitOnP sep (c :: text)).filter _ = _
  rw [List.splitOnP_cons_eq_if_modifyHead, if_neg (by simp [h]), hsplit]
  rfl

theorem firstWord_cons_sep {c : α} {text : List α} (h : sep c = true) :
    firstWord sep (c :: text) = [] := List.takeWhile_cons_of_neg (by simp [h])

theorem firstWord_cons_word {c : α} {text : List α} (h : sep c = false) :
    firstWord sep (c :: text) = c :: firstWord sep text :=
  List.takeWhile_cons_of_pos (by simp [h])

theorem afterWord_cons_sep {c : α} {text : List α} (h : sep c = true) :
    afterWord sep (c :: text) = c :: text := List.dropWhile_cons_of_neg (by simp [h])

theorem afterWord_cons_word {c : α} {text : List α} (h : sep c = false) :
    afterWord sep (c :: text) = afterWord sep text := List.dropWhile_cons_of_pos (by simp [h])

end Words
