import Mathlib.Data.List.TakeWhile
import RoomControl.Text.Lines

/-!
# Lines and blanks: their laws

The text that has given lines is found by joining them (`lines_textOf`). Trimming takes blanks and nothing else: what is left begins and
ends where the first and the last character stand that is no blank (`trim_append_cons`).
-/

set_option autoImplicit false

namespace RoomControl

/-! ## Splitting and joining -/

section Splitting

variable {separator : Char}

theorem splitAt_cons_of_ne {c : Char} (h : c ≠ separator) (text : List Char) :
    ∃ piece pieces, splitAt separator text = piece :: pieces ∧
      splitAt separator (c :: text) = (c :: piece) :: pieces := by
  cases hrest : splitAt separator text with
  | nil => exact absurd hrest (splitAt_ne_nil _ _)
  | cons piece pieces => exact ⟨piece, pieces, rfl, by rw [splitAt, if_neg h, hrest]⟩

/-- No piece holds the separator. -/
theorem not_mem_of_mem_splitAt {text piece : List Char} (h : piece ∈ splitAt separator text) :
    separator ∉ piece := by
  induction text generalizing piece with
  | nil =>
    rw [List.mem_singleton.mp h]
    exact List.not_mem_nil
  | cons c rest ih =>
    by_cases hc : c = separator
    · rw [splitAt, if_pos hc] at h
      rcases List.mem_cons.mp h with rfl | h
      · exact List.not_mem_nil
      · exact ih h
    · obtain ⟨first, pieces, hrest, hsplit⟩ := splitAt_cons_of_ne hc rest
      rw [hsplit] at h
      rcases List.mem_cons.mp h with rfl | h
      · intro hmem
        rcases List.mem_cons.mp hmem with rfl | hmem
        · exact hc rfl
        · exact ih (hrest ▸ List.mem_cons_self) hmem
      · exact ih (hrest ▸ List.mem_cons_of_mem _ h)

/-- What is no separator stands in a piece. -/
theorem exists_piece_of_mem (separator : Char) {c : Char} {text : List Char} (hc : c ≠ separator)
    (h : c ∈ text) : ∃ piece ∈ splitAt separator text, c ∈ piece := by
  induction text with
  | nil => exact absurd h List.not_mem_nil
  | cons d rest ih =>
    by_cases hd : d = separator
    · have hrest : c ∈ rest := (List.mem_cons.mp h).resolve_left fun e => hc (e.trans hd)
      obtain ⟨piece, hpiece, hmem⟩ := ih hrest
      rw [splitAt, if_pos hd]
      exact ⟨piece, List.mem_cons_of_mem _ hpiece, hmem⟩
    · obtain ⟨first, pieces, hrest, hsplit⟩ := splitAt_cons_of_ne hd rest
      rw [hrest] at ih
      rw [hsplit]
      rcases List.mem_cons.mp h with rfl | h
      · exact ⟨_, List.mem_cons_self, List.mem_cons_self⟩
      · obtain ⟨piece, hpiece, hmem⟩ := ih h
        rcases List.mem_cons.mp hpiece with rfl | hpiece
        · exact ⟨_, List.mem_cons_self, List.mem_cons_of_mem _ hmem⟩
        · exact ⟨piece, List.mem_cons_of_mem _ hpiece, hmem⟩

theorem splitAt_eq_splitOn (text : List Char) : splitAt separator text = text.splitOn separator := by
  induction text with
  | nil => rfl
  | cons c rest ih =>
    rw [List.splitOn_cons_eq_if_modifyHead, ← ih]
    by_cases hc : c = separator
    · rw [splitAt, if_pos hc, if_pos (beq_iff_eq.mpr hc)]
    · obtain ⟨piece, pieces, hrest, hsplit⟩ := splitAt_cons_of_ne hc rest
      rw [hsplit, hrest, if_neg (by rwa [beq_iff_eq]), List.modifyHead_cons]

end Splitting

/-- The text that has these lines. -/
def textOf (ls : List (List Char)) : String := String.ofList (['\n'].intercalate ls)

theorem lines_textOf {ls : List (List Char)} (hne : ls ≠ []) (h : ∀ line ∈ ls, '\n' ∉ line) :
    lines (textOf ls).toList = ls := by
  rw [textOf, String.toList_ofList, lines, splitAt_eq_splitOn, List.splitOn_intercalate _ h hne]

theorem not_mem_of_mem_lines {text line : List Char} (h : line ∈ lines text) : '\n' ∉ line :=
  not_mem_of_mem_splitAt h

/-- One line of a text is exchanged for another. -/
theorem lines_exchange {text : List Char} {before after : List (List Char)} {line line' : List Char}
    (h : lines text = before ++ line :: after) (hline' : '\n' ∉ line → '\n' ∉ line') :
    lines (textOf (before ++ line' :: after)).toList = before ++ line' :: after := by
  have hone : ∀ other ∈ lines text, '\n' ∉ other := fun _ => not_mem_of_mem_lines
  rw [h] at hone
  refine lines_textOf (List.append_ne_nil_of_right_ne_nil _ (List.cons_ne_nil _ _)) ?_
  rw [List.forall_mem_append, List.forall_mem_cons] at hone ⊢
  exact ⟨hone.1, hline' hone.2.1, hone.2.2⟩

/-! ## The first of a character -/

section First

variable {c : Char} {left : List Char}

theorem takeWhile_ne (h : c ∉ left) (right : List Char) :
    (left ++ c :: right).takeWhile (· ≠ c) = left := by
  have hleft : ∀ d ∈ left, decide (d ≠ c) = true := fun d hd =>
    decide_eq_true fun e => h (e ▸ hd)
  rw [List.takeWhile_append_of_pos hleft, List.takeWhile_cons_of_neg (by simp), List.append_nil]

theorem dropWhile_ne (h : c ∉ left) (right : List Char) :
    (left ++ c :: right).dropWhile (· ≠ c) = c :: right := by
  have hleft : ∀ d ∈ left, decide (d ≠ c) = true := fun d hd =>
    decide_eq_true fun e => h (e ▸ hd)
  rw [List.dropWhile_append_of_pos hleft, List.dropWhile_cons_of_neg (by simp)]

theorem takeWhile_ne_of_not_mem (h : c ∉ left) : left.takeWhile (· ≠ c) = left :=
  List.takeWhile_eq_self_iff.mpr fun _ hd => decide_eq_true fun e => h (e ▸ hd)

theorem dropWhile_ne_of_not_mem (h : c ∉ left) : left.dropWhile (· ≠ c) = [] :=
  List.dropWhile_eq_nil_iff.mpr fun _ hd => decide_eq_true fun e => h (e ▸ hd)

/-- A text is split in one way at the first of a character. -/
theorem split_unique {left' right right' : List Char} (h : c ∉ left) (h' : c ∉ left')
    (heq : left ++ c :: right = left' ++ c :: right') : left = left' ∧ right = right' := by
  have hleft := congrArg (List.takeWhile (· ≠ c)) heq
  rw [takeWhile_ne h, takeWhile_ne h'] at hleft
  subst hleft
  exact ⟨rfl, (List.cons.inj (List.append_cancel_left heq)).2⟩

end First

/-! ## Trimming -/

theorem dropWhile_append_cons {p : Char → Bool} {c : Char} (hc : p c = false)
    (left right : List Char) :
    (left ++ c :: right).dropWhile p = left.dropWhile p ++ c :: right := by
  induction left with
  | nil => rw [List.nil_append, List.dropWhile_cons_of_neg (by rw [hc]; decide)]; rfl
  | cons d rest ih =>
    rw [List.cons_append, List.dropWhile_cons, List.dropWhile_cons, ih]
    split
    · rfl
    · rfl

/-- What trimming at the end takes away is blank. -/
theorem exists_trimEnd (text : List Char) :
    ∃ gap, text = trimEnd text ++ gap ∧ ∀ c ∈ gap, isBlank c = true := by
  refine ⟨(text.reverse.takeWhile isBlank).reverse, ?_, fun c hc => ?_⟩
  · rw [trimEnd, ← List.reverse_append, List.takeWhile_append_dropWhile, List.reverse_reverse]
  · exact List.mem_takeWhile_imp (List.mem_reverse.mp hc)

theorem trimEnd_append_blanks {gap : List Char} (h : ∀ c ∈ gap, isBlank c = true)
    (text : List Char) : trimEnd (text ++ gap) = trimEnd text := by
  have hall : ∀ c ∈ gap.reverse, isBlank c = true := fun c hc => h c (List.mem_reverse.mp hc)
  rw [trimEnd, List.reverse_append, List.dropWhile_append_of_pos hall, trimEnd]

theorem trimEnd_append_cons {c : Char} (hc : isBlank c = false) (left right : List Char) :
    trimEnd (left ++ c :: right) = left ++ c :: trimEnd right := by
  have hreverse : (left ++ c :: right).reverse = right.reverse ++ c :: left.reverse := by
    rw [List.reverse_append, List.reverse_cons, List.append_assoc, List.singleton_append]
  rw [trimEnd, hreverse, dropWhile_append_cons hc, List.reverse_append, List.reverse_cons,
    List.reverse_reverse, List.append_assoc, List.singleton_append, trimEnd]

theorem trimEnd_trimEnd (text : List Char) : trimEnd (trimEnd text) = trimEnd text := by
  obtain ⟨gap, htext, hgap⟩ := exists_trimEnd text
  have hsame := trimEnd_append_blanks hgap (trimEnd text)
  rw [← htext] at hsame
  exact hsame.symm

/-- Behind a character that is no blank, a text is trimmed at its end; before it, at its start. -/
theorem trim_append_cons {c : Char} (hc : isBlank c = false) (left right : List Char) :
    trim (left ++ c :: right) = left.dropWhile isBlank ++ c :: trimEnd right := by
  rw [trim, dropWhile_append_cons hc, trimEnd_append_cons hc]

theorem trim_cons {c : Char} (hc : isBlank c = false) (rest : List Char) :
    trim (c :: rest) = c :: trimEnd rest :=
  trim_append_cons hc [] rest

theorem trim_of_blanks {text : List Char} (h : ∀ c ∈ text, isBlank c = true) : trim text = [] := by
  rw [trim, List.dropWhile_eq_nil_iff.mpr h]
  rfl

/-- A text is all blank, or there is a first character that is not. -/
theorem trim_cases (text : List Char) :
    (trim text = [] ∧ ∀ c ∈ text, isBlank c = true) ∨
      ∃ c rest, isBlank c = false ∧ text.dropWhile isBlank = c :: rest ∧
        trim text = c :: trimEnd rest := by
  cases hdrop : text.dropWhile isBlank with
  | nil =>
    have hall := List.dropWhile_eq_nil_iff.mp hdrop
    exact .inl ⟨trim_of_blanks hall, hall⟩
  | cons c rest =>
    have hc : isBlank c = false := by
      have := List.head?_dropWhile_not isBlank text
      rwa [hdrop] at this
    refine .inr ⟨c, rest, hc, rfl, ?_⟩
    rw [trim, hdrop]
    exact trimEnd_append_cons hc [] rest

/-- Trimming takes blanks away at both ends. -/
theorem exists_trim (text : List Char) :
    ∃ lead trail, text = lead ++ trim text ++ trail ∧ (∀ c ∈ lead, isBlank c = true) ∧
      ∀ c ∈ trail, isBlank c = true := by
  obtain ⟨trail, hrest, htrail⟩ := exists_trimEnd (text.dropWhile isBlank)
  refine ⟨text.takeWhile isBlank, trail, ?_, fun c hc => List.mem_takeWhile_imp hc, htrail⟩
  rw [List.append_assoc, trim, ← hrest, List.takeWhile_append_dropWhile]

/-- Blanks behind what has been trimmed go, and nothing else. -/
theorem trim_trim_append_blanks {gap : List Char} (h : ∀ c ∈ gap, isBlank c = true)
    (text : List Char) : trim (trim text ++ gap) = trim text := by
  rcases trim_cases text with ⟨hnil, -⟩ | ⟨c, rest, hc, -, htrim⟩
  · rw [hnil]
    exact trim_of_blanks h
  · rw [htrim, List.cons_append, trim_cons hc, trimEnd_append_blanks h, trimEnd_trimEnd]

/-- Trimming keeps every character that is no blank. -/
theorem mem_trim {c : Char} {text : List Char} (hc : isBlank c = false) (h : c ∈ text) :
    c ∈ trim text := by
  obtain ⟨left, right, rfl⟩ := List.append_of_mem h
  rw [trim_append_cons hc]
  exact List.mem_append_right _ List.mem_cons_self

/-- A character that is no blank, behind a text that has one, leaves the text as it was trimmed, but
for blanks behind it. -/
theorem trim_append_gap_cons {c : Char} (hc : isBlank c = false) {text gap : List Char}
    (htext : trim text ≠ []) (hgap : ∀ b ∈ gap, isBlank b = true) (right : List Char) :
    ∃ gap', (∀ b ∈ gap', isBlank b = true) ∧
      trim (text ++ gap ++ c :: right) = trim text ++ gap' ++ c :: trimEnd right := by
  rcases trim_cases text with ⟨hnil, -⟩ | ⟨first, rest, hfirst, hdrop, htrim⟩
  · exact absurd hnil htext
  · obtain ⟨behind, hrest, hbehind⟩ := exists_trimEnd rest
    refine ⟨behind ++ gap, fun b hb => ?_, ?_⟩
    · rcases List.mem_append.mp hb with hb | hb
      · exact hbehind b hb
      · exact hgap b hb
    · have hstart : (text ++ gap).dropWhile isBlank = first :: (rest ++ gap) := by
        rw [List.dropWhile_append, hdrop]
        rfl
      have hwhole : rest ++ gap = trimEnd rest ++ (behind ++ gap) := by
        rw [← List.append_assoc, ← hrest]
      rw [trim_append_cons hc, hstart, htrim, hwhole]
      rfl

end RoomControl
