import YapAssist.Layout.Edit
import YapAssist.Proofs.Edit
import YapAssist.Proofs.Layout.Endings
import YapAssist.Proofs.Layout.Idempotence

/-!
# The formatting edit and what it leaves to do

The formatting edit stands for the whole text, but its end is a position, and no column lies behind
the carriage returns of a line. Those a text ends with stay behind its layout (`edit?_whole`).

Where a line of code ends the layout they are in the way: the layout has no blanks behind code, so
the edit is offered again and again (`StrayReturn`). Everywhere else one edit is enough, if headers
can be told from literals and no keyword stands behind a closing brace (`Legible`):
`edit?_afterEdit`.
-/

namespace YapAssist.Layout

open Line

/-! ## The edit as a whole -/

theorem edit?_eq_none_iff {width : Nat} {text : Text} :
    edit? width text = none ↔ format width text = text := by
  unfold edit?
  by_cases hsame : format width text = text <;> simp [hsame]

theorem edit?_of_ne {width : Nat} {text : Text} (h : format width text ≠ text) :
    edit? width text =
      some ⟨⟨Position.start, Position.ofOffset text text.byteSize⟩, format width text⟩ :=
  if_neg h

/-- There is an edit exactly for the texts that are not laid out. It begins where the text does, and
what it leaves of the text are the carriage returns at its end. -/
theorem edit?_whole (width : Nat) (text : Text) :
    (edit? width text = none ↔ format width text = text) ∧
      ∀ e, edit? width text = some e → e.span.first = Position.start ∧
        Edit.applyAll? text [e] = some (format width text ++ text.returns) ∧
        (text.getLast? ≠ some '\r' → Edit.applyAll? text [e] = some (format width text)) ∧
        (text.byteSize < UInt32.size → e.span.last.words = e.span.last) := by
  refine ⟨edit?_eq_none_iff, ?_⟩
  intro e he
  have hne : format width text ≠ text := by
    intro hsame
    rw [edit?_eq_none_iff.2 hsame] at he
    exact absurd he (by simp)
  rw [edit?_of_ne hne, Option.some.injEq] at he
  subst he
  have happly := Edit.applyAll?_whole text (format width text)
  refine ⟨rfl, happly, ?_, ?_⟩
  · intro hend
    rw [happly, Text.returns_eq_nil_iff.2 hend, List.append_nil]
  · intro hsize
    exact Position.words_ofOffset hsize _

/-- Two carriage returns behind an indented statement stay behind it. -/
theorem edit?_whole_returns :
    (edit? 4 "  x\r\r".toList).isSome = true ∧
      ∀ e, edit? 4 "  x\r\r".toList = some e →
        Edit.applyAll? "  x\r\r".toList [e] = some "x\r\r".toList := by
  refine ⟨by decide +kernel, ?_⟩
  intro e he
  have hformat : format 4 "  x\r\r".toList ++ Text.returns "  x\r\r".toList = "x\r\r".toList := by
    decide +kernel
  rw [← hformat]
  exact ((edit?_whole 4 _).2 e he).2.1

/-- A text after its formatting edit; the text itself when there is none. -/
def afterEdit (width : Nat) (text : Text) : Text := Edit.applyAll text (edit? width text).toList

theorem afterEdit_of_same {width : Nat} {text : Text} (h : format width text = text) :
    afterEdit width text = text := by
  rw [afterEdit, edit?_eq_none_iff.2 h]
  rfl

theorem afterEdit_of_ne {width : Nat} {text : Text} (h : format width text ≠ text) :
    afterEdit width text = format width text ++ text.returns := by
  rw [afterEdit, edit?_of_ne h, Option.toList_some, Edit.applyAll, Edit.applyAll?_whole,
    Option.getD_some]

/-! ## Legible texts -/

/-- The texts on whose lines of code, detached braces joined, every header ends outside string
literals and no `while`, `fn` or `export` stands behind a closing brace. -/
def Legible (text : Text) : Prop :=
  ∀ line ∈ joinDetached text.lines, isVerbatim line = false →
    Block.HeadersOutside (split line.trim).code ∧ keywordBehindBrace (split line.trim).code = false

/-- A condition that can be checked: no brace of a line of code lies inside a literal. -/
theorem legible_of_bracesOutside {text : Text}
    (h : ∀ line ∈ joinDetached text.lines, isVerbatim line = false →
      bracesOutside (split line.trim).code = true ∧
        keywordBehindBrace (split line.trim).code = false) : Legible text :=
  fun line hline hcode =>
    ⟨headersOutside_of_bracesOutside (h line hline hcode).1, (h line hline hcode).2⟩

theorem Legible.stable_rows {text : Text} (h : Legible text) : ∀ row ∈ rows text, row.Stable := by
  apply stable_rows_of_code
  intro line hline hcode level
  have hclean : Clean (split line.trim) :=
    ⟨separable_split (Text.tight_trim line), code_ne_nil hcode, (h line hline hcode).1,
      (h line hline hcode).2⟩
  exact hclean.stable

/-! ## Carriage returns behind a layout -/

/-- Whether a text ends with a carriage return that its layout has no place for: behind a line of
code, detached braces joined. -/
def StrayReturn (text : Text) : Prop :=
  text.getLast? = some '\r' ∧ ∃ line ∈ (joinDetached text.lines).getLast?, isVerbatim line = false

theorem strayReturn_iff {text line : Text} {front : List Text} (hend : text.getLast? = some '\r')
    (hjoined : joinDetached text.lines = front ++ [line]) :
    StrayReturn text ↔ isVerbatim line = false := by
  simp [StrayReturn, hend, hjoined]

theorem isVerbatim_append_gap {gap : Text} (h : gap.Gap) (line : Text) :
    isVerbatim (line ++ gap) = isVerbatim line := by
  rw [isVerbatim, isVerbatim, isBlankLine, isBlankLine, isComment, isComment,
    Text.trim_append_gap h]

/-- Blanks behind the last line do not set a brace free. -/
theorem settled_concat_gap {lines : List Text} {line gap : Text} {waits : Bool} (hgap : gap.Gap)
    (h : Settled waits (lines ++ [line])) : Settled waits (lines ++ [line ++ gap]) := by
  rw [settled_append] at h ⊢
  refine ⟨h.1, ?_, trivial⟩
  rw [Text.trim_append_gap hgap]
  exact h.2.1

/-- A stable row is kept as it is exactly when its line is. -/
theorem isVerbatim_text {line : Text} {level : Nat} {row : Row} (h : row ∈ (lineRows level line).1)
    (hstable : row.Stable) (width : Nat) : isVerbatim (row.text width) = isVerbatim line := by
  by_cases hline : isVerbatim line = true
  · rw [lineRows_of_isVerbatim hline, List.mem_singleton] at h
    rw [h, Row.text]
  · have hcode : isVerbatim line = false := by simpa using hline
    obtain ⟨here, part, behind, rfl, -⟩ := mem_lineRows_of_code hcode h
    rw [hcode, isVerbatim_row hstable]

/-- A layout that ends with a line of code does not end with a carriage return. -/
theorem format_ne_of_strayReturn {text : Text} (h : StrayReturn text) (width : Nat) :
    format width text ≠ text := by
  obtain ⟨hend, line, hline, hcode⟩ := h
  obtain ⟨front, hjoined⟩ := List.getLast?_eq_some_iff.1 hline
  obtain ⟨before, last, here, hrows, hlast, -⟩ := exists_last_row hjoined
  have hopen : text.getLast? ≠ some '\n' := by simp [hend]
  have hne : last.text width ≠ [] := by
    rw [ne_eq, text_eq_nil_iff hlast]
    rintro rfl
    rw [isVerbatim_nil] at hcode
    exact absurd hcode (by simp)
  have hrow := getLast?_row_ne hlast (fun hverbatim => by simp [hcode] at hverbatim) width
  intro hsame
  rw [← hsame, format_of_open hopen hrows, Text.document, Text.getLast?_append_right hne] at hend
  exact hrow hend

section
variable {text : Text} (hend : text.getLast? = some '\r') {front : List Row} {last : Row}
  (hrows : rows text = front ++ [last]) (width : Nat)

include hend in
theorem getLast?_append_returns (t : Text) : (t ++ text.returns).getLast? = some '\r' := by
  have hreturns : text.returns ≠ [] := fun hnil => Text.returns_eq_nil_iff.1 hnil hend
  rw [Text.getLast?_append_right hreturns, Text.getLast?_returns hreturns]

include hrows in
theorem feed_not_mem_append_returns : '\n' ∉ last.text width ++ text.returns := by
  have hmem : last ∈ rows text := by simp [hrows]
  rw [List.mem_append]
  rintro (hfeed | hfeed)
  · exact feed_not_mem_rows hmem width hfeed
  · exact absurd (Text.eq_return_of_mem_returns hfeed) (by decide)

include hend hrows

/-- With the carriage returns of its text behind it, a layout is still a document of its rows. -/
theorem format_append_returns : format width text ++ text.returns =
    Text.document (LineEnding.ofText text) (front.map (Row.text width))
      (last.text width ++ text.returns) := by
  have hopen : text.getLast? ≠ some '\n' := by simp [hend]
  rw [format_of_open hopen hrows, Text.document, Text.document, List.append_assoc]

variable (hstable : ∀ row ∈ rows text, row.Stable)
include hstable

/-- Carriage returns behind a layout set none of its braces free. -/
theorem joinDetached_append_returns : joinDetached (format width text ++ text.returns).lines =
    front.map (Row.text width) ++ [last.text width ++ text.returns] := by
  have hne : last.text width ++ text.returns ≠ [] := by
    intro hnil
    have hlast := getLast?_append_returns hend (last.text width)
    rw [hnil] at hlast
    simp at hlast
  have hsettled : Settled false ((rows text).map (Row.text width)) :=
    settled_rowsFrom width hstable (settled_joinDetached text.lines)
  rw [hrows, List.map_append, List.map_singleton] at hsettled
  rw [format_append_returns hend hrows, Text.lines_document (closable_front hrows width)
    (feed_not_mem_append_returns hrows width), if_neg hne]
  exact joinDetached_of_settled (settled_concat_gap (Text.gap_returns text) hsettled)

/-- The rows of such a text are those of the layout, if the last of them is kept as it is. -/
theorem rows_append_returns {line : Text} (hlast : last = .verbatim line) :
    rows (format width text ++ text.returns) = front ++ [.verbatim (line ++ text.returns)] := by
  have hline : isVerbatim line = true := by
    have hrow := hstable last (by simp [hrows])
    rwa [hlast] at hrow
  have hone : ∀ more level, more.Gap →
      rowsFrom level [line ++ more] = [.verbatim (line ++ more)] := by
    intro more level hmore
    rw [rowsFrom, lineRows_of_isVerbatim (by rwa [isVerbatim_append_gap hmore])]
    rfl
  have hfront : rowsFrom 0 (front.map (Row.text width)) = front := by
    have hsame : rowsFrom 0 ((rows text).map (Row.text width)) = rows text :=
      rowsFrom_rowsFrom width hstable
    rw [hrows, hlast, List.map_append, List.map_singleton, rowsFrom_append, Row.text,
      ← List.append_nil line, hone [] _ Text.gap_nil] at hsame
    exact List.append_inj_left' hsame rfl
  rw [rows, joinDetached_append_returns hend hrows width hstable, rowsFrom_append, hfront, hlast,
    Row.text, hone _ _ (Text.gap_returns text)]

/-- Behind a line that is kept as it is the carriage returns are kept. -/
theorem format_append_returns_of_verbatim {line : Text} (hlast : last = .verbatim line) :
    format width (format width text ++ text.returns) = format width text ++ text.returns := by
  have hagain := rows_append_returns hend hrows width hstable hlast
  have hopen : (format width text ++ text.returns).getLast? ≠ some '\n' := by
    simp [getLast?_append_returns hend]
  rw [format_of_open hopen hagain, format_append_returns hend hrows,
    Text.ofText_document (closable_front hrows width) (feed_not_mem_append_returns hrows width),
    hlast]
  -- a single row has no line ending from which to tell
  by_cases hnil : front = []
  · rw [hnil]
    rfl
  · rw [if_neg (by simpa using hnil)]
    rfl

end

/-! ## One edit is enough -/

/-- A layout with the carriage returns of its text behind it is laid out unless they are stray. -/
theorem format_append_returns_eq_iff {text : Text} (hstable : ∀ row ∈ rows text, row.Stable)
    (hend : text.getLast? = some '\r') (width : Nat) :
    format width (format width text ++ text.returns) = format width text ++ text.returns ↔
      ¬ StrayReturn text := by
  have hne : text ≠ [] := by
    rintro rfl
    simp at hend
  obtain ⟨front, line, hjoined⟩ := (List.eq_nil_or_concat _).resolve_left
    (joinDetached_ne_nil (Text.lines_ne_nil hne))
  rw [List.concat_eq_append] at hjoined
  obtain ⟨before, last, here, hrows, hlast, -⟩ := exists_last_row hjoined
  rw [strayReturn_iff hend hjoined, Bool.not_eq_false]
  -- the last row decides, which is kept as it is if its line is
  constructor
  · intro hagain
    have hcode : isVerbatim (last.text width ++ text.returns) = isVerbatim line := by
      rw [isVerbatim_append_gap (Text.gap_returns text),
        isVerbatim_text hlast (hstable last (by simp [hrows]))]
    have hstray := strayReturn_iff (getLast?_append_returns hend (format width text))
      (joinDetached_append_returns hend hrows width hstable)
    rw [hcode] at hstray
    rw [← Bool.not_eq_false]
    intro hline
    exact format_ne_of_strayReturn (hstray.2 hline) width hagain
  · intro hline
    rw [lineRows_of_isVerbatim hline, List.mem_singleton] at hlast
    exact format_append_returns_of_verbatim hend hrows width hstable hlast

/-- After its formatting edit a legible text is laid out, unless a carriage return is left behind
its last line of code. -/
theorem edit?_afterEdit {text : Text} (h : Legible text) (width : Nat) :
    edit? width (afterEdit width text) = none ↔ ¬ StrayReturn text := by
  have hstable := h.stable_rows
  rw [edit?_eq_none_iff]
  by_cases hsame : format width text = text
  · rw [afterEdit_of_same hsame]
    exact ⟨fun _ hstray => format_ne_of_strayReturn hstray width hsame, fun _ => hsame⟩
  rw [afterEdit_of_ne hsame]
  by_cases hend : text.getLast? = some '\r'
  · exact format_append_returns_eq_iff hstable hend width
  · rw [Text.returns_eq_nil_iff.2 hend, List.append_nil, format_format_of_stable hstable]
    exact ⟨fun _ hstray => hend hstray.1, fun _ => rfl⟩

end YapAssist.Layout
