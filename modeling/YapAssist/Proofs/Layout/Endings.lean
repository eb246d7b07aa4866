import YapAssist.Proofs.Layout.Rows

/-!
# Line endings of a layout

A layout has the line ending of its text at every line feed, whatever lines it cuts, joins or keeps
(`suffix_of_feed`). It ends with a line feed when its text does. The other way round there is one
exception: a brace on the last line that moves up to its header leaves the line above it behind as
the last one, and when that line is empty, the line feed before it ends the layout
(`LeavesEmptyLine`).

Main statement: `format_endings`.
-/

namespace YapAssist

namespace Text

/-- Every line feed of a document belongs to a terminator. -/
theorem suffix_of_feed {ending : LineEnding} {closed : List Text} {rest : Text}
    (h : Closable ending closed) (hrest : '\n' ∉ rest) {before after : Text}
    (he : document ending closed rest = before ++ '\n' :: after) :
    ending.text <:+ before ++ ['\n'] := by
  cases ending with
  | feed => exact List.suffix_append before ['\n']
  | returnFeed =>
    -- the induction is on the closed lines, the first of which may hold the line feed in question
    induction closed generalizing before with
    | nil =>
      rw [document_nil] at he
      exact absurd (by simp [he]) hrest
    | cons line closed ih =>
      have hline : '\n' ∉ line := h.no_feed line List.mem_cons_self
      have hcut : (line ++ ['\r']) ++ '\n' :: document .returnFeed closed rest =
          before ++ '\n' :: after := by
        rw [← he, document_cons]
        simp [LineEnding.text]
      obtain ⟨mid, hbefore, hmid⟩ | ⟨mid, hbefore, hmid⟩ := List.append_eq_append_iff.1 hcut
      · -- the line feed lies at the end of the first line or behind it
        cases mid with
        | nil =>
          rw [hbefore, List.append_nil, List.append_assoc]
          exact List.suffix_append line ['\r', '\n']
        | cons c mid =>
          rw [List.cons_append, List.cons.injEq] at hmid
          obtain ⟨front, hfront⟩ := ih h.tail hmid.2
          refine ⟨line ++ ['\r', c] ++ front, ?_⟩
          rw [hbefore, List.append_assoc, hfront]
          simp
      · cases mid with
        | nil =>
          rw [List.append_nil] at hbefore
          rw [← hbefore, List.append_assoc]
          exact List.suffix_append line ['\r', '\n']
        | cons c mid =>
          -- before its end the first line holds no line feed
          rw [List.cons_append, List.cons.injEq] at hmid
          have hmem : '\n' ∈ line ++ ['\r'] := by simp [hbefore, ← hmid.1]
          simp [hline] at hmem

end Text

namespace Layout

open Line

/-! ## A brace on the last line -/

/-- Whether behind the given lines, braces among them joined, a header still waits for its
brace. -/
def headerWaits (lines : List Text) : Bool := (joinDetached lines).foldl waitsBelow false

/-- The texts whose last line is a brace that moves up to its header, and whose last line but one is
empty. -/
def LeavesEmptyLine (text : Text) : Prop :=
  ∃ (front : List Text) (brace : Text), text.lines = front ++ [[], brace] ∧
    brace.trim = ['{'] ∧ headerWaits front = true

theorem isVerbatim_nil : isVerbatim [] = true := by decide

theorem joinBrace_ne_nil {line : Text} (h : isVerbatim line = false) : joinBrace line ≠ [] := by
  intro hnil
  have hcode := isVerbatim_joinBrace h
  rw [hnil, isVerbatim_nil] at hcode
  exact absurd hcode (by simp)

/-- Lines that end in an empty one, of which a brace was joined, had the empty line before. -/
theorem exists_of_near_nil {lines near far : List Text} {target : Text}
    (hjoined : (joinDetached lines).reverse = [] :: (near ++ target :: far))
    (hnear : ∀ l ∈ near, isVerbatim l = true) (hcode : isVerbatim target = false)
    (hwaits : awaitsBrace target = true) :
    ∃ front, lines = front ++ [[]] ∧ headerWaits front = true := by
  obtain ⟨front, line, rfl⟩ : ∃ front line, lines = front ++ [line] := by
    rcases List.eq_nil_or_concat lines with rfl | ⟨front, line, hline⟩
    · simp [joinDetached] at hjoined
    · exact ⟨front, line, by rw [hline, List.concat_eq_append]⟩
  rw [joinDetached_concat, List.reverse_reverse] at hjoined
  have hall : ([] :: (near ++ target :: far)).reverse.foldl waitsBelow false = true := by
    have hverbatim : ∀ l ∈ [] :: near, isVerbatim l = true := by
      simpa [isVerbatim_nil] using hnear
    rw [← List.cons_append, foldl_waitsBelow_of_near hverbatim hcode, hwaits]
  rcases addLine_cases (joinDetached front).reverse line with
    ⟨hadd, -⟩ | ⟨-, near', target', far', habove, hadd, hnear', hcode', hwaits'⟩
  · rw [hadd, List.cons.injEq] at hjoined
    refine ⟨front, by rw [hjoined.1], ?_⟩
    rw [List.reverse_cons, List.foldl_append, List.foldl_cons, List.foldl_nil, waitsBelow,
      isVerbatim_nil, if_pos rfl, ← hjoined.2, List.reverse_reverse] at hall
    exact hall
  · -- a header that has just got its brace waits for no other
    rw [← hjoined, hadd, foldl_waitsBelow_of_near hnear' (isVerbatim_joinBrace hcode'),
      awaitsBrace_joinBrace hcode' hwaits'] at hall
    exact absurd hall (by simp)

/-- If joining leaves an empty line at the end, the last line was a brace below it. -/
theorem exists_of_getLast?_joinDetached {closed : List Text} {rest : Text} (hrest : rest ≠ [])
    (h : (joinDetached (closed ++ [rest])).getLast? = some []) :
    ∃ front, closed = front ++ [[]] ∧ rest.trim = ['{'] ∧ headerWaits front = true := by
  rw [joinDetached_concat, List.getLast?_reverse] at h
  rcases addLine_cases (joinDetached closed).reverse rest with
    ⟨hadd, -⟩ | ⟨hbrace, near, target, far, habove, hadd, hnear, hcode, hwaits⟩
  · rw [hadd, List.head?_cons, Option.some.injEq] at h
    exact absurd h hrest
  · cases near with
    | nil =>
      rw [hadd, List.nil_append, List.head?_cons, Option.some.injEq] at h
      exact absurd h (joinBrace_ne_nil hcode)
    | cons line near =>
      rw [hadd, List.cons_append, List.head?_cons, Option.some.injEq] at h
      rw [h, List.cons_append] at habove
      obtain ⟨front, hfront, hheader⟩ := exists_of_near_nil habove
        (fun l hl => hnear l (List.mem_cons_of_mem _ hl)) hcode hwaits
      exact ⟨front, hfront, hbrace, hheader⟩

/-- A brace that moves up past an empty line leaves that line at the end, behind its header. -/
theorem exists_joinDetached_of_brace {front : List Text} {brace : Text}
    (hbrace : brace.trim = ['{']) (hwaits : headerWaits front = true) :
    ∃ before, before ≠ [] ∧ joinDetached (front ++ [[], brace]) = before ++ [[]] := by
  have hempty : (joinDetached (front ++ [[]])).reverse = [] :: (joinDetached front).reverse := by
    rw [joinDetached_concat, List.reverse_reverse]
    rfl
  have hsome : (attachBrace? ([] :: (joinDetached front).reverse)).isSome = true := by
    rw [attachBrace?, isVerbatim_nil, if_pos rfl, Option.isSome_map, isSome_attachBrace?,
      List.reverse_reverse]
    exact hwaits
  obtain ⟨out, hout⟩ := Option.isSome_iff_exists.1 hsome
  have hadd : addLine ([] :: (joinDetached front).reverse) brace = out := by
    rw [addLine, if_pos hbrace, hout, Option.getD_some]
  have hcut : front ++ [[], brace] = (front ++ [[]]) ++ [brace] := by simp
  rw [hcut, joinDetached_concat, hempty, hadd]
  obtain ⟨near, target, far, habove, rfl, -, hcode, -⟩ := exists_of_attachBrace? hout
  cases near with
  | nil =>
    rw [List.nil_append, List.cons.injEq] at habove
    rw [← habove.1, isVerbatim_nil] at hcode
    exact absurd hcode (by simp)
  | cons line near =>
    rw [List.cons_append, List.cons.injEq] at habove
    refine ⟨(near ++ joinBrace target :: far).reverse, by simp, ?_⟩
    rw [← habove.1, List.cons_append, List.reverse_cons]

/-! ## The end of a layout -/

/-- Only the row of an empty line is empty. -/
theorem text_eq_nil_iff {line : Text} {level : Nat} {row : Row}
    (h : row ∈ (lineRows level line).1) (width : Nat) : row.text width = [] ↔ line = [] := by
  by_cases hline : isVerbatim line = true
  · rw [lineRows_of_isVerbatim hline, List.mem_singleton] at h
    rw [h]
    exact Iff.rfl
  · have hcode : isVerbatim line = false := by simpa using hline
    obtain ⟨here, part, behind, rfl, -, -, hne, -, -⟩ := mem_lineRows_of_code hcode h
    constructor
    · intro hnil
      rw [Row.text, List.append_eq_nil_iff, attach] at hnil
      split at hnil
      · exact absurd hnil.2 hne
      · simp at hnil
    · rintro rfl
      exact absurd isVerbatim_nil hline

/-- A layout ends with a line feed when its text does, or when a brace that moves up leaves an empty
line at the end. -/
theorem getLast?_format (width : Nat) (text : Text) :
    (format width text).getLast? = some '\n' ↔
      text.getLast? = some '\n' ∨ LeavesEmptyLine text := by
  by_cases hne : text = []
  · have hnone : ¬ LeavesEmptyLine [] := by
      rintro ⟨front, brace, hlines, -⟩
      simp [Text.lines, Text.blocks] at hlines
    simp [hne, format_nil, hnone]
  by_cases hend : text.getLast? = some '\n'
  · have hrows : (rows text).map (Row.text width) ≠ [] := by simpa using rows_ne_nil hne
    rw [format_of_ended hend, Text.getLast?_document (by simp)]
    simp [hend, hrows]
  -- the last line of an open text is not empty
  obtain ⟨closed, rest, hlines, -, -, hiff⟩ := Text.exists_closed_lines text
  have hrest : rest ≠ [] := by
    rintro rfl
    have hclosed : closed = [] := by
      by_cases hclosed : closed = []
      · exact hclosed
      · exact absurd (hiff.2 ⟨hclosed, rfl⟩) hend
    exact Text.lines_ne_nil hne (by simp [hlines, hclosed])
  rw [if_neg hrest] at hlines
  -- the layout ends as its last row, that is, as the last line once braces are joined
  obtain ⟨front, line, hjoined⟩ := (List.eq_nil_or_concat _).resolve_left
    (joinDetached_ne_nil (Text.lines_ne_nil hne))
  rw [List.concat_eq_append] at hjoined
  obtain ⟨before, last, here, hrows, hlast, hbefore⟩ := exists_last_row hjoined
  have hmem : last ∈ rows text := by simp [hrows]
  rw [format_of_open hend hrows, Text.getLast?_document (feed_not_mem_rows hmem width),
    text_eq_nil_iff hlast]
  constructor
  · rintro ⟨-, rfl⟩
    rw [hlines] at hjoined
    obtain ⟨front', rfl, hbrace, hwaits⟩ := exists_of_getLast?_joinDetached hrest
      (by rw [hjoined, List.getLast?_concat])
    exact .inr ⟨front', rest, by rw [hlines]; simp, hbrace, hwaits⟩
  · rintro (hfeed | ⟨front', brace, hbrace⟩)
    · exact absurd hfeed hend
    · obtain ⟨before', hne', hjoined'⟩ := exists_joinDetached_of_brace hbrace.2.1 hbrace.2.2
      rw [hbrace.1, hjoined'] at hjoined
      obtain ⟨rfl, hline⟩ := List.append_inj' hjoined rfl
      exact ⟨by simpa using hbefore hne', by simpa using hline.symm⟩

/-- Every line feed of a layout belongs to an occurrence of the line ending of the text, and lone
line feeds stay lone. The layout ends with a line feed exactly when the text does, but for a text
whose last line is a brace that moves up and leaves an empty line behind. -/
theorem format_endings (width : Nat) (text : Text) :
    ((format width text).getLast? = some '\n' ↔
        text.getLast? = some '\n' ∨ LeavesEmptyLine text) ∧
      (∀ before after, format width text = before ++ '\n' :: after →
        (LineEnding.ofText text).text <:+ before ++ ['\n']) ∧
      (LineEnding.ofText text = .feed → (format width text).hasReturnFeed = false) := by
  obtain ⟨closed, rest, hformat, hclosed, hrest⟩ := exists_document_format width text
  refine ⟨getLast?_format width text, ?_, ?_⟩
  · intro before after he
    rw [hformat] at he
    exact Text.suffix_of_feed hclosed hrest he
  · intro hfeed
    have hending := Text.ofText_document hclosed hrest
    rw [← hformat, hfeed, ite_self] at hending
    rw [← Bool.not_eq_true]
    intro hreturn
    simp [LineEnding.ofText, hreturn] at hending

/-- The brace moves up past the empty line, which then ends the layout with a line feed. -/
theorem format_endings_empty_line :
    "if (x)\n\n\x7b".toList.getLast? ≠ some '\n' ∧
      (format 4 "if (x)\n\n\x7b".toList).getLast? = some '\n' := by
  decide +kernel

end Layout

end YapAssist
