import YapAssist.Layout.Row
import YapAssist.Proofs.Layout.Detached
import YapAssist.Proofs.Text.Lines

/-!
# The rows of a text and the lines of its layout

A layout is a document (`Text.document`) whose lines are the rows: all of them closed when the text
ends with a line feed, the last of them open otherwise.

* `Layout.mem_partRows`, `Layout.lineRows_of_isVerbatim`, what the rows of one line are;
* `Layout.closable_rows`, no row runs into the line feed behind it;
* `Layout.lines_format`, the lines of a layout are its rows, but for an empty row at the end that is
  no line of its own.
-/

namespace YapAssist.Layout

open Line

/-! ## The rows of one line -/

/-- The rows of a line of code are its parts; only the last of them can have the comment. -/
theorem mem_partRows {comment : Text} {level : Nat} {parts : List Text} :
    ∀ row ∈ (partRows comment level parts).1, ∃ here part behind, row = .code here part behind ∧
      part ∈ parts ∧ (behind = [] ∨ behind = comment ∧ part ∈ parts.getLast?) := by
  fun_induction partRows comment level parts with
  | case1 level =>
    intro row h
    simp at h
  | case2 level part here =>
    intro row h
    rw [List.mem_singleton] at h
    exact ⟨here, part, comment, h, by simp, .inr ⟨rfl, by simp⟩⟩
  | case3 level part parts hne here later ih =>
    intro row h
    rcases List.mem_cons.1 h with rfl | h
    · exact ⟨here, part, [], rfl, by simp, .inl rfl⟩
    · rcases ih row h with ⟨below, q, behind, rfl, hq, hbehind⟩
      refine ⟨below, q, behind, rfl, List.mem_cons_of_mem _ hq, ?_⟩
      rcases hbehind with hnil | ⟨hcomment, hlast⟩
      · exact .inl hnil
      · refine .inr ⟨hcomment, ?_⟩
        rw [List.getLast?_cons, Option.mem_def.1 hlast]
        rfl

theorem partRows_ne_nil {comment : Text} {level : Nat} {parts : List Text} (h : parts ≠ []) :
    (partRows comment level parts).1 ≠ [] := by
  fun_cases partRows comment level parts with
  | case1 => exact absurd rfl h
  | case2 => simp
  | case3 => simp

theorem lineRows_of_isVerbatim {line : Text} (h : isVerbatim line = true) (level : Nat) :
    lineRows level line = ([.verbatim line], level) := by
  rw [lineRows, if_pos h]

theorem lineRows_of_code {line : Text} (h : isVerbatim line = false) (level : Nat) :
    lineRows level line =
      partRows (split line.trim).comment level (Block.parts (split line.trim).code) := by
  rw [lineRows, if_neg (by simp [h])]

theorem lineRows_ne_nil (level : Nat) (line : Text) : (lineRows level line).1 ≠ [] := by
  by_cases h : isVerbatim line = true
  · rw [lineRows_of_isVerbatim h]
    simp
  · rw [lineRows_of_code (by simpa using h)]
    exact partRows_ne_nil (Block.parts_ne_nil _)

/-- A row of a line of code stands for a part of that line. -/
theorem mem_lineRows_of_code {line : Text} (h : isVerbatim line = false) {level : Nat} {row : Row}
    (hrow : row ∈ (lineRows level line).1) : ∃ here part behind, row = .code here part behind ∧
      part ∈ Block.parts (split line.trim).code ∧ part.Tight ∧ part ≠ [] ∧ behind.Tight ∧
      (behind = [] ∨ behind = (split line.trim).comment) := by
  have hcut := separable_split (Text.tight_trim line)
  rw [lineRows_of_code h] at hrow
  rcases mem_partRows row hrow with ⟨here, part, behind, rfl, hpart, hbehind⟩
  rcases Block.tight_of_mem_parts hcut.tight (code_ne_nil h) part hpart with ⟨htight, hne⟩
  rcases hbehind with rfl | ⟨rfl, -⟩
  · exact ⟨here, part, [], rfl, hpart, htight, hne, Text.tight_nil, .inl rfl⟩
  · exact ⟨here, part, _, rfl, hpart, htight, hne, hcut.comment_tight, .inr rfl⟩

/-- The part and the comment of a row come apart again, if every header ends outside literals. -/
theorem separable_of_mem_partRows {cut : Line} (hcut : Separable cut) (hcode : cut.code ≠ [])
    (hout : Block.HeadersOutside cut.code) {level : Nat} :
    ∀ row ∈ (partRows cut.comment level (Block.parts cut.code)).1,
      ∃ here part behind, row = .code here part behind ∧ part ∈ Block.parts cut.code ∧
        part ≠ [] ∧ Separable ⟨part, behind⟩ := by
  intro row hrow
  rcases mem_partRows row hrow with ⟨here, part, behind, rfl, hpart, hbehind⟩
  rcases Block.tight_of_mem_parts hcut.tight hcode part hpart with ⟨htight, hne⟩
  have hseparate := Block.separate_of_headersClear hout.clear
  have hfree : commentFree .start part = true := by
    rcases Block.commentFree_or_silent_of_mem_parts hseparate hcut.free part hpart with
      hfree | ⟨-, hinside⟩
    · exact hfree
    · exact absurd hout hinside
  exact ⟨here, part, behind, rfl, hpart, hne,
    Block.separable_part hcut hseparate htight hfree hbehind⟩

/-! ## The characters of a row -/

theorem trim_row {part behind : Text} (hpart : part.Tight) (hbehind : behind.Tight)
    (hne : part ≠ []) (level width : Nat) :
    ((Row.code level part behind).text width).trim = attach part behind :=
  Text.trim_gap_append (Text.gap_replicate_space _) (tight_attach hpart hbehind hne)

theorem feed_not_mem_trim {t : Text} (h : '\n' ∉ t) : '\n' ∉ t.trim := by
  rcases Text.exists_gaps_trim t with ⟨front, back, -, -, he⟩
  rw [he] at h
  exact fun hn => h (by simp [hn])

theorem feed_not_mem_blanks (n : Nat) : '\n' ∉ List.replicate n ' ' := by
  intro hn
  exact absurd (List.eq_of_mem_replicate hn) (by decide)

/-- The rows of a single line are single lines. -/
theorem feed_not_mem_row {line : Text} (h : '\n' ∉ line) {level : Nat} {row : Row}
    (hrow : row ∈ (lineRows level line).1) (width : Nat) : '\n' ∉ row.text width := by
  by_cases hline : isVerbatim line = true
  · rw [lineRows_of_isVerbatim hline, List.mem_singleton] at hrow
    rw [hrow]
    exact h
  · have hcut := feed_not_mem_split (feed_not_mem_trim h)
    rcases mem_lineRows_of_code (by simpa using hline) hrow with
      ⟨here, part, behind, rfl, hpart, -, -, -, hbehind⟩
    have hbehindFeed : '\n' ∉ behind := by
      rcases hbehind with rfl | rfl
      · simp
      · exact hcut.2
    have hattach := feed_not_mem_attach
      (Block.feed_not_mem_of_mem_parts hcut.1 part hpart) hbehindFeed
    rw [Row.text, List.mem_append]
    rintro (hn | hn)
    · exact feed_not_mem_blanks _ hn
    · exact hattach hn

/-- Only a line that is kept as it is can end with a carriage return. -/
theorem getLast?_row_ne {line : Text} {level : Nat} {row : Row}
    (hrow : row ∈ (lineRows level line).1)
    (h : isVerbatim line = true → line.getLast? ≠ some '\r') (width : Nat) :
    (row.text width).getLast? ≠ some '\r' := by
  by_cases hline : isVerbatim line = true
  · rw [lineRows_of_isVerbatim hline, List.mem_singleton] at hrow
    rw [hrow]
    exact h hline
  · rcases mem_lineRows_of_code (by simpa using hline) hrow with
      ⟨here, part, behind, rfl, -, htight, hne, hbehind, -⟩
    have hattach := tight_attach htight hbehind hne
    intro hend
    have hnil : attach part behind ≠ [] := by
      unfold attach
      split
      · exact hne
      · simp
    rw [Row.text, Text.getLast?_append_right hnil] at hend
    exact absurd (hattach.last '\r' hend) (by simp [isBlank_return])

/-! ## The rows of a list of lines -/

/-- The level after a list of lines, coming from `level`. -/
def levelThrough (level : Nat) (lines : List Text) : Nat :=
  lines.foldl (fun here line => (lineRows here line).2) level

theorem rowsFrom_append (level : Nat) (s t : List Text) :
    rowsFrom level (s ++ t) = rowsFrom level s ++ rowsFrom (levelThrough level s) t := by
  induction s generalizing level with
  | nil => rfl
  | cons line s ih =>
    show (lineRows level line).1 ++ rowsFrom (lineRows level line).2 (s ++ t) =
      ((lineRows level line).1 ++ rowsFrom (lineRows level line).2 s) ++ _
    rw [ih, List.append_assoc]
    rfl

theorem mem_rowsFrom {level : Nat} {lines : List Text} {row : Row}
    (h : row ∈ rowsFrom level lines) : ∃ line ∈ lines, ∃ here, row ∈ (lineRows here line).1 := by
  induction lines generalizing level with
  | nil => simp [rowsFrom] at h
  | cons line lines ih =>
    rw [rowsFrom, List.mem_append] at h
    rcases h with h | h
    · exact ⟨line, List.mem_cons_self, level, h⟩
    · rcases ih h with ⟨l, hl, hrow⟩
      exact ⟨l, List.mem_cons_of_mem _ hl, hrow⟩

/-- A row before the last one comes from a line before the last one, or from a line of code. -/
theorem mem_dropLast_rowsFrom {level : Nat} {lines : List Text} {row : Row}
    (h : row ∈ (rowsFrom level lines).dropLast) :
    ∃ line here, row ∈ (lineRows here line).1 ∧
      (line ∈ lines.dropLast ∨ line ∈ lines ∧ isVerbatim line = false) := by
  rcases List.eq_nil_or_concat lines with rfl | ⟨front, last, rfl⟩
  · simp [rowsFrom] at h
  · rw [List.concat_eq_append, rowsFrom_append] at h
    have hlast : rowsFrom (levelThrough level front) [last] =
        (lineRows (levelThrough level front) last).1 := List.append_nil _
    rw [hlast, List.dropLast_append_of_ne_nil (lineRows_ne_nil _ last), List.mem_append] at h
    rw [List.concat_eq_append, List.dropLast_concat]
    rcases h with h | h
    · rcases mem_rowsFrom h with ⟨line, hline, here, hrow⟩
      exact ⟨line, here, hrow, .inl hline⟩
    · -- a line that is kept as it is has a single row, which would be the last one
      refine ⟨last, _, List.dropLast_subset _ h, .inr ⟨by simp, ?_⟩⟩
      rw [← Bool.not_eq_true]
      intro hverbatim
      rw [lineRows_of_isVerbatim hverbatim] at h
      simp at h

theorem rowsFrom_ne_nil {level : Nat} {lines : List Text} (h : lines ≠ []) :
    rowsFrom level lines ≠ [] := by
  rcases List.exists_cons_of_ne_nil h with ⟨line, rest, rfl⟩
  have hline := lineRows_ne_nil level line
  simp [rowsFrom, hline]

theorem joinDetached_ne_nil {lines : List Text} (h : lines ≠ []) : joinDetached lines ≠ [] := by
  have hall := joinDetached_induction (motive := fun before above => before ≠ [] → above ≠ [])
    lines (by simp) (by
      intro before above line _ _
      rcases addLine_cases above line with ⟨hadd, -⟩ | ⟨-, near, target, far, -, hadd, -⟩
      · simp [hadd]
      · simp [hadd])
  simpa using hall h

theorem rows_ne_nil {text : Text} (h : text ≠ []) : rows text ≠ [] :=
  rowsFrom_ne_nil (joinDetached_ne_nil (Text.lines_ne_nil h))

theorem rows_nil : rows [] = [] := rfl

/-- The last row of a text comes from the last of its lines, detached braces joined. -/
theorem exists_last_row {text line : Text} {front : List Text}
    (h : joinDetached text.lines = front ++ [line]) :
    ∃ before last here, rows text = before ++ [last] ∧ last ∈ (lineRows here line).1 ∧
      (front ≠ [] → before ≠ []) := by
  have hrows : rows text =
      rowsFrom 0 front ++ (lineRows (levelThrough 0 front) line).1 := by
    rw [rows, h, rowsFrom_append, rowsFrom, rowsFrom, List.append_nil]
  obtain ⟨init, last, hlast⟩ := (List.eq_nil_or_concat _).resolve_left
    (lineRows_ne_nil (levelThrough 0 front) line)
  rw [List.concat_eq_append] at hlast
  refine ⟨rowsFrom 0 front ++ init, last, levelThrough 0 front, ?_, ?_, ?_⟩
  · rw [hrows, hlast, List.append_assoc]
  · simp [hlast]
  · intro hfront hnil
    exact rowsFrom_ne_nil hfront (List.append_eq_nil_iff.1 hnil).1

/-! ## Rows and line feeds -/

theorem feed_not_mem_of_mem_joinDetached {text line : Text}
    (h : line ∈ joinDetached text.lines) : '\n' ∉ line := by
  rcases (mem_joinDetached text.lines).1 line h with hline | ⟨target, htarget, -, -, rfl⟩
  · exact Text.feed_not_mem_of_mem_lines hline
  · have hcut := feed_not_mem_split (feed_not_mem_trim (Text.feed_not_mem_of_mem_lines htarget))
    apply feed_not_mem_attach _ hcut.2
    apply feed_not_mem_of_respaced (respaced_respace _)
    simpa using hcut.1

theorem feed_not_mem_rows {text : Text} {row : Row} (h : row ∈ rows text) (width : Nat) :
    '\n' ∉ row.text width := by
  rcases mem_rowsFrom h with ⟨line, hline, here, hrow⟩
  exact feed_not_mem_row (feed_not_mem_of_mem_joinDetached hline) hrow width

/-- A line that is kept as it is has no brace joined to it. -/
theorem not_isVerbatim_of_isJoined {lines : List Text} {line : Text} (h : IsJoined lines line) :
    isVerbatim line ≠ true := by
  rcases h with ⟨target, -, hcode, -, rfl⟩
  simp [isVerbatim_joinBrace hcode]

/-- A row of a text with lone line feeds ends with a carriage return only if it is the last row and
nothing closes it. -/
theorem getLast?_rows_ne {text : Text} (hfeed : LineEnding.ofText text = .feed) {row : Row}
    (h : row ∈ (rows text).dropLast ∨ row ∈ rows text ∧ text.getLast? = some '\n') (width : Nat) :
    (row.text width).getLast? ≠ some '\r' := by
  rcases Text.exists_closed_lines text with ⟨closed, rest, hlines, hclosed, -, hend⟩
  have hjoined := mem_joinDetached text.lines
  have hclosedLine : ∀ line ∈ closed, line.getLast? ≠ some '\r' := hclosed.no_return hfeed
  -- every row in question comes from a closed line, or from a line that is not kept as it is
  have hall : ∃ line here, row ∈ (lineRows here line).1 ∧
      (isVerbatim line = true → line ∈ closed) := by
    rcases h with h | ⟨h, hended⟩
    · rcases mem_dropLast_rowsFrom h with ⟨line, here, hrow, hline⟩
      refine ⟨line, here, hrow, ?_⟩
      intro hverbatim
      rcases hline with hline | ⟨-, hcode⟩
      · rcases hjoined.2 line hline with hline | hline
        · rw [hlines] at hline
          split at hline
          · exact List.dropLast_subset _ (by simpa using hline)
          · simpa using hline
        · exact absurd hverbatim (not_isVerbatim_of_isJoined hline)
      · simp [hcode] at hverbatim
    · rcases mem_rowsFrom h with ⟨line, hline, here, hrow⟩
      refine ⟨line, here, hrow, ?_⟩
      intro hverbatim
      rcases hjoined.1 line hline with hline | hline
      · rw [hlines, if_pos (hend.1 hended).2, List.append_nil] at hline
        exact hline
      · exact absurd hverbatim (not_isVerbatim_of_isJoined hline)
  rcases hall with ⟨line, here, hrow, hline⟩
  exact getLast?_row_ne hrow (fun hverbatim => hclosedLine line (hline hverbatim)) width

/-- No row that a line ending closes runs into it. -/
theorem closable_rows {text : Text} {closed : List Row}
    (h : ∀ row ∈ closed, row ∈ (rows text).dropLast ∨
      row ∈ rows text ∧ text.getLast? = some '\n') (width : Nat) :
    Text.Closable (LineEnding.ofText text) (closed.map (Row.text width)) := by
  constructor
  · intro line hline
    rcases List.mem_map.1 hline with ⟨row, hrow, rfl⟩
    apply feed_not_mem_rows
    rcases h row hrow with hmem | ⟨hmem, -⟩
    · exact List.dropLast_subset _ hmem
    · exact hmem
  · intro hfeed line hline
    rcases List.mem_map.1 hline with ⟨row, hrow, rfl⟩
    exact getLast?_rows_ne hfeed (h row hrow) width

/-! ## The layout as a document -/

/-- A text that ends with a line feed is laid out as closed rows. -/
theorem format_of_ended {text : Text} (h : text.getLast? = some '\n') (width : Nat) :
    format width text =
      Text.document (LineEnding.ofText text) ((rows text).map (Row.text width)) [] := by
  have hne : text ≠ [] := by
    rintro rfl
    simp at h
  rcases List.eq_nil_or_concat (rows text) with hnil | ⟨front, last, hrows⟩
  · exact absurd hnil (rows_ne_nil hne)
  · rw [List.concat_eq_append] at hrows
    rw [format, hrows, List.map_append, List.map_singleton, Text.joinWith_concat,
      Text.document_concat, h, if_pos (by simp)]

/-- The last row of any other text is open. -/
theorem format_of_open {text : Text} (h : text.getLast? ≠ some '\n') {front : List Row}
    {last : Row} (hrows : rows text = front ++ [last]) (width : Nat) :
    format width text =
      Text.document (LineEnding.ofText text) (front.map (Row.text width)) (last.text width) := by
  rw [format, hrows, List.map_append, List.map_singleton, Text.joinWith_concat,
    if_neg (by simpa using h)]

theorem format_nil (width : Nat) : format width [] = [] := rfl

theorem closable_of_ended {text : Text} (h : text.getLast? = some '\n') (width : Nat) :
    Text.Closable (LineEnding.ofText text) ((rows text).map (Row.text width)) :=
  closable_rows (fun _ hrow => .inr ⟨hrow, h⟩) width

theorem closable_front {text : Text} {front : List Row} {last : Row}
    (h : rows text = front ++ [last]) (width : Nat) :
    Text.Closable (LineEnding.ofText text) (front.map (Row.text width)) := by
  apply closable_rows
  intro row hrow
  left
  rwa [h, List.dropLast_concat]

/-- A layout is a document of rows with the line ending of its text. -/
theorem exists_document_format (width : Nat) (text : Text) :
    ∃ closed rest, format width text = Text.document (LineEnding.ofText text) closed rest ∧
      Text.Closable (LineEnding.ofText text) closed ∧ '\n' ∉ rest := by
  by_cases hne : text = []
  · exact ⟨[], [], by rw [hne, format_nil, Text.document_nil], ⟨by simp, by simp⟩, by simp⟩
  by_cases hend : text.getLast? = some '\n'
  · exact ⟨_, [], format_of_ended hend width, closable_of_ended hend width, by simp⟩
  obtain ⟨front, last, hrows⟩ := (List.eq_nil_or_concat _).resolve_left (rows_ne_nil hne)
  rw [List.concat_eq_append] at hrows
  have hmem : last ∈ rows text := by simp [hrows]
  exact ⟨_, _, format_of_open hend hrows width, closable_front hrows width,
    feed_not_mem_rows hmem width⟩

/-- The lines of a layout are its rows, and an empty row at the end is no line of its own. -/
theorem lines_format (width : Nat) (text : Text) :
    (format width text).lines = (rows text).map (Row.text width) ∨
      (format width text).lines ++ [[]] = (rows text).map (Row.text width) := by
  by_cases hne : text = []
  · left
    rw [hne, format_nil, rows_nil]
    rfl
  rcases List.eq_nil_or_concat (rows text) with hnil | ⟨front, last, hrows⟩
  · exact absurd hnil (rows_ne_nil hne)
  rw [List.concat_eq_append] at hrows
  by_cases hend : text.getLast? = some '\n'
  · left
    rw [format_of_ended hend, Text.lines_document (closable_of_ended hend width) (by simp),
      if_pos rfl, List.append_nil]
  · have hmem : last ∈ rows text := by simp [hrows]
    have hlast := feed_not_mem_rows hmem width
    rw [format_of_open hend hrows, Text.lines_document (closable_front hrows width) hlast, hrows,
      List.map_append, List.map_singleton]
    -- the open rest of a document is a line unless it is empty
    by_cases hempty : last.text width = []
    · right
      rw [if_pos hempty, List.append_nil, hempty]
    · left
      rw [if_neg hempty]

/-- What is read from the lines of a layout is read from its rows, if an empty line gives
nothing. -/
theorem flatMap_lines_format {α : Type} (read : Text → List α) (h : read [] = []) (width : Nat)
    (text : Text) :
    (format width text).lines.flatMap read =
      (rows text).flatMap (fun row => read (row.text width)) := by
  have hrows : (rows text).flatMap (fun row => read (row.text width)) =
      ((rows text).map (Row.text width)).flatMap read := by
    rw [List.flatMap_map]
  rcases lines_format width text with hlines | hlines
  · rw [hrows, hlines]
  · rw [hrows, ← hlines, List.flatMap_append, List.flatMap_singleton, h, List.append_nil]

/-- What is read from the rows of a list of lines is read from the lines, if it is so for each. -/
theorem flatMap_rowsFrom {α : Type} {read : Row → List α} {readLine : Text → List α}
    {lines : List Text}
    (h : ∀ line ∈ lines, ∀ level, (lineRows level line).1.flatMap read = readLine line)
    (level : Nat) : (rowsFrom level lines).flatMap read = lines.flatMap readLine := by
  induction lines generalizing level with
  | nil => rfl
  | cons line lines ih =>
    rw [rowsFrom, List.flatMap_append, List.flatMap_cons, h line List.mem_cons_self,
      ih fun l hl => h l (List.mem_cons_of_mem _ hl)]

end YapAssist.Layout
