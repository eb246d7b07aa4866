import YapAssist.Position

/-!
# The name at a cursor

A cursor stands between two characters of a line. The name it asks for is the one that touches it
on either side: the longest stretch of name characters around the cursor.

* `Position.IsRun`, a stretch of name characters that cannot be made longer;
* `Position.IsRun.unique`, at most one of them touches a cursor;
* `Position.wordAt?_run`, the name at a position is the run that touches it, the same one for every
  column of the run and both of its ends.
-/

namespace YapAssist

namespace Position

/-- Whether a character of a name stands at a column of a line. -/
def nameCharAt (t : Text) (column : Nat) : Bool := t[column]?.any isNameChar

/-- A character of a name stands at a column or directly before it. -/
def TouchesName (line : Text) (column : Nat) : Prop :=
  nameCharAt line column = true ∨ 0 < column ∧ nameCharAt line (column - 1) = true

/-- The columns from `first` up to `last` of a line hold name characters, and neither neighbour of
them does. -/
structure IsRun (line : Text) (first last : Nat) : Prop where
  lt : first < last
  names : ∀ i, first ≤ i → i < last → nameCharAt line i = true
  before : 0 < first → nameCharAt line (first - 1) = false
  behind : nameCharAt line last = false

/-- The column of a position on its line; the end of the line stands for the columns past it. -/
def columnOn (line : Text) (p : Position) : Nat := min p.character line.length

/-! ## Runs -/

theorem IsRun.last_le {line : Text} {first last : Nat} (h : IsRun line first last) :
    last ≤ line.length := by
  have hlt := h.lt
  have hname := h.names (last - 1) (by omega) (by omega)
  rw [nameCharAt, Option.any_eq_true] at hname
  obtain ⟨c, hc, -⟩ := hname
  have hin := (List.getElem?_eq_some_iff.1 hc).1
  omega

theorem IsRun.touchesName {line : Text} {first last column : Nat} (h : IsRun line first last)
    (hfirst : first ≤ column) (hlast : column ≤ last) : TouchesName line column := by
  have hlt := h.lt
  by_cases hin : column < last
  · exact .inl (h.names column hfirst hin)
  · -- at the end of the run the character before the cursor belongs to it
    exact .inr ⟨by omega, h.names (column - 1) (by omega) (by omega)⟩

/-- A run that touches a cursor does not begin before another one that does. -/
theorem IsRun.first_le {line : Text} {first last first' last' column : Nat}
    (h : IsRun line first last) (h' : IsRun line first' last') (hcolumn : column ≤ last)
    (hcolumn' : first' ≤ column) : first' ≤ first := by
  apply Nat.le_of_not_lt
  intro hlt
  have hname := h.names (first' - 1) (by omega) (by omega)
  rw [h'.before (by omega)] at hname
  exact absurd hname (by simp)

/-- A run that touches a cursor does not end behind another one that does. -/
theorem IsRun.le_last {line : Text} {first last first' last' column : Nat}
    (h : IsRun line first last) (h' : IsRun line first' last') (hcolumn : first ≤ column)
    (hcolumn' : column ≤ last') : last ≤ last' := by
  apply Nat.le_of_not_lt
  intro hlt
  have hname := h.names last' (by omega) (by omega)
  rw [h'.behind] at hname
  exact absurd hname (by simp)

/-- At most one run touches a cursor. -/
theorem IsRun.unique {line : Text} {first last first' last' column : Nat}
    (h : IsRun line first last) (h' : IsRun line first' last')
    (hfirst : first ≤ column) (hlast : column ≤ last)
    (hfirst' : first' ≤ column) (hlast' : column ≤ last') : first' = first ∧ last' = last := by
  constructor
  · exact Nat.le_antisymm (h.first_le h' hlast hfirst') (h'.first_le h hlast' hfirst)
  · exact Nat.le_antisymm (h'.le_last h hfirst' hlast) (h.le_last h' hfirst hlast')

/-! ## The name characters around a column -/

/-- A line cut around the name characters that touch a column. -/
structure WordCut (line : Text) (column : Nat) (front word back : Text) : Prop where
  cut : line = front ++ (word ++ back)
  front_le : front.length ≤ column
  le_word : column ≤ front.length + word.length
  names : ∀ c ∈ word, isNameChar c = true
  front_last : ∀ c ∈ front.getLast?, isNameChar c = false
  back_first : ∀ c ∈ back.head?, isNameChar c = false

theorem head?_dropWhile_name (t : Text) : ∀ c ∈ (t.dropWhile isNameChar).head?,
    isNameChar c = false := by
  intro c hc
  have hfirst := List.head?_dropWhile_not isNameChar t
  rw [Option.mem_def.1 hc] at hfirst
  simpa using hfirst

/-- What is read before and behind a column makes up such a cut. -/
theorem exists_wordCut (line : Text) (column : Nat) : ∃ front word back,
    WordCut line (min column line.length) front word back ∧
      nameAt? line column = if word.isEmpty then none else some word := by
  let before := ((line.take column).reverse.takeWhile isNameChar).reverse
  let front := ((line.take column).reverse.dropWhile isNameChar).reverse
  let after := (line.drop column).takeWhile isNameChar
  let back := (line.drop column).dropWhile isNameChar
  have hbefore : front ++ before = line.take column := by
    rw [← List.reverse_append, List.takeWhile_append_dropWhile, List.reverse_reverse]
  have hafter : after ++ back = line.drop column := List.takeWhile_append_dropWhile
  have hlength : front.length + before.length = min column line.length := by
    rw [← List.length_append, hbefore, List.length_take]
  refine ⟨front, before ++ after, back, ⟨?_, ?_, ?_, ?_, ?_, ?_⟩, rfl⟩
  · rw [List.append_assoc, hafter, ← List.append_assoc, hbefore, List.take_append_drop]
  · omega
  · rw [List.length_append]
    omega
  · intro c hc
    rcases List.mem_append.1 hc with hc | hc
    · exact List.all_eq_true.1 List.all_takeWhile c (List.mem_reverse.1 hc)
    · exact List.all_eq_true.1 List.all_takeWhile c hc
  · rw [List.getLast?_reverse]
    exact head?_dropWhile_name _
  · exact head?_dropWhile_name _

namespace WordCut

variable {t : Text} {column : Nat} {front word back : Text}

theorem behind (h : WordCut t column front word back) :
    nameCharAt t (front.length + word.length) = false := by
  have hhead : t[front.length + word.length]? = back.head? := by
    rw [h.cut, List.head?_eq_getElem?, ← List.append_assoc, List.getElem?_append_right (by simp)]
    simp
  rw [nameCharAt, hhead, ← Bool.not_eq_true, Option.any_eq_true]
  rintro ⟨c, hc, hname⟩
  rw [h.back_first c hc] at hname
  exact absurd hname (by simp)

theorem before (h : WordCut t column front word back) (hpos : 0 < front.length) :
    nameCharAt t (front.length - 1) = false := by
  have hlast : t[front.length - 1]? = front.getLast? := by
    rw [h.cut, List.getLast?_eq_getElem?, List.getElem?_append_left (by omega)]
  rw [nameCharAt, hlast, ← Bool.not_eq_true, Option.any_eq_true]
  rintro ⟨c, hc, hname⟩
  rw [h.front_last c hc] at hname
  exact absurd hname (by simp)

theorem nameCharAt_word (h : WordCut t column front word back) {i : Nat}
    (hfirst : front.length ≤ i) (hlast : i < front.length + word.length) :
    nameCharAt t i = true := by
  have hin : i - front.length < word.length := by omega
  have hchar : t[i]? = some word[i - front.length] := by
    rw [h.cut, List.getElem?_append_right hfirst, List.getElem?_append_left hin,
      List.getElem?_eq_getElem hin]
  rw [nameCharAt, hchar, Option.any_some]
  exact h.names _ (List.getElem_mem hin)

theorem isRun (h : WordCut t column front word back) (hne : word ≠ []) :
    IsRun t front.length (front.length + word.length) where
  lt := by
    have := List.length_pos_iff.2 hne
    omega
  names _ := h.nameCharAt_word
  before := h.before
  behind := h.behind

theorem extract_eq (h : WordCut t column front word back) :
    t.extract front.length (front.length + word.length) = word := by
  rw [List.extract_eq_take_drop, h.cut, List.drop_left, Nat.add_sub_cancel_left, List.take_left]

/-- Where the cut leaves no word, no name touches the column. -/
theorem touchesName_iff (h : WordCut t column front word back) :
    TouchesName t column ↔ word ≠ [] := by
  constructor
  · rintro htouches rfl
    have hend : column ≤ front.length := h.le_word
    obtain rfl : column = front.length := Nat.le_antisymm hend h.front_le
    have hbehind : nameCharAt t front.length = false := h.behind
    rcases htouches with hat | ⟨hpos, hbefore⟩
    · rw [hbehind] at hat
      exact absurd hat (by simp)
    · rw [h.before hpos] at hbefore
      exact absurd hbefore (by simp)
  · intro hne
    exact (h.isRun hne).touchesName h.front_le h.le_word

end WordCut

/-! ## The name at a column -/

theorem isSome_nameAt? (line : Text) (column : Nat) :
    (nameAt? line column).isSome = true ↔ TouchesName line (min column line.length) := by
  obtain ⟨front, word, back, hcut, hname⟩ := exists_wordCut line column
  rw [hname, hcut.touchesName_iff]
  cases word <;> simp

/-- The name at a column is a run that touches it. -/
theorem exists_isRun_of_nameAt? {line w : Text} {column : Nat} (h : nameAt? line column = some w) :
    ∃ first last, IsRun line first last ∧ first ≤ min column line.length ∧
      min column line.length ≤ last ∧ w = line.extract first last := by
  obtain ⟨front, word, back, hcut, hname⟩ := exists_wordCut line column
  rw [hname] at h
  split at h
  · exact absurd h (by simp)
  · next hne =>
    obtain rfl : word = w := Option.some.inj h
    have hrun := hcut.isRun (by simpa using hne)
    exact ⟨_, _, hrun, hcut.front_le, hcut.le_word, hcut.extract_eq.symm⟩

/-- The run that touches a column is the name there. -/
theorem nameAt?_of_isRun {line : Text} {first last column : Nat} (h : IsRun line first last)
    (hfirst : first ≤ column) (hlast : column ≤ last) :
    nameAt? line column = some (line.extract first last) := by
  have hclamp : min column line.length = column := Nat.min_eq_left (Nat.le_trans hlast h.last_le)
  have hsome := (isSome_nameAt? line column).2 (by rw [hclamp]; exact h.touchesName hfirst hlast)
  obtain ⟨w, hw⟩ := Option.isSome_iff_exists.1 hsome
  obtain ⟨first', last', hrun, hfirst', hlast', rfl⟩ := exists_isRun_of_nameAt? hw
  rw [hclamp] at hfirst' hlast'
  obtain ⟨rfl, rfl⟩ := h.unique hrun hfirst hlast hfirst' hlast'
  exact hw

/-! ## The name at a position -/

theorem wordAt?_of_line {text line : Text} {p : Position} (h : text.lines[p.line]? = some line) :
    wordAt? text p = nameAt? line p.character := by
  rw [wordAt?, h, Option.bind_some]

/-- The name at a position. There is one exactly when the position has a line and a name character
stands at its column there or directly before it. It is then the only run of name characters that
touches the column, and every column from the first to the end of that run leads to it. -/
theorem wordAt?_run (text : Text) (p : Position) :
    ((wordAt? text p).isSome = true ↔
      ∃ line, text.lines[p.line]? = some line ∧ TouchesName line (p.columnOn line)) ∧
    ∀ w, wordAt? text p = some w → ∃ line first last, text.lines[p.line]? = some line ∧
      IsRun line first last ∧ first ≤ p.columnOn line ∧ p.columnOn line ≤ last ∧
      (∀ first' last', IsRun line first' last' → first' ≤ p.columnOn line →
        p.columnOn line ≤ last' → first' = first ∧ last' = last) ∧
      w = line.extract first last ∧
      ∀ column, first ≤ column → column ≤ last → wordAt? text ⟨p.line, column⟩ = some w := by
  cases hline : text.lines[p.line]? with
  | none =>
    have hnone : wordAt? text p = none := by rw [wordAt?, hline, Option.bind_none]
    simp [hnone]
  | some line =>
    rw [wordAt?_of_line hline, isSome_nameAt?]
    refine ⟨by simp [columnOn], ?_⟩
    intro w hw
    obtain ⟨first, last, hrun, hfirst, hlast, rfl⟩ := exists_isRun_of_nameAt? hw
    refine ⟨line, first, last, rfl, hrun, hfirst, hlast, ?_, rfl, ?_⟩
    · intro first' last' hrun' hfirst' hlast'
      exact hrun.unique hrun' hfirst hlast hfirst' hlast'
    · intro column hfrom hto
      have hsame : text.lines[(⟨p.line, column⟩ : Position).line]? = some line := hline
      rw [wordAt?_of_line hsame]
      exact nameAt?_of_isRun hrun hfrom hto

-- a letter beyond ASCII is no part of a name, and columns past the end of a line stand for its end
example : wordAt? "é_a1;\r\n".toList ⟨0, 4⟩ = some ['_', 'a', '1'] ∧
    wordAt? "é_a1;\r\n".toList ⟨0, 0⟩ = none ∧ wordAt? "x\r\n".toList ⟨0, 9⟩ = some ['x'] := by
  decide

end Position

end YapAssist
