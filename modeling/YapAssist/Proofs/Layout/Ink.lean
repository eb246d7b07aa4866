import YapAssist.Proofs.Layout.Rows

/-!
# The layout keeps every visible character

Spacing, cutting and indenting change blanks only, so the rows of a line show what the line shows
(`flatMap_ink_lineRows`). Joining a detached brace takes the brace past lines that stay, so the only
visible characters that change their place are opening braces.

Main statement: `ink_format`.
-/

namespace YapAssist.Layout

open Line

/-! ## Rows -/

theorem ink_row (width level : Nat) (part comment : Text) :
    ((Row.code level part comment).text width).ink = part.ink ++ comment.ink := by
  rw [Row.text, Text.ink_append, ink_attach, (Text.gap_replicate_space _).ink_eq_nil,
    List.nil_append]

theorem flatMap_ink_partRows (width : Nat) (comment : Text) (level : Nat) {parts : List Text}
    (h : parts ≠ []) :
    (partRows comment level parts).1.flatMap (fun row => (row.text width).ink) =
      parts.flatMap Text.ink ++ comment.ink := by
  fun_induction partRows comment level parts with
  | case1 => exact absurd rfl h
  | case2 level part here => simp [ink_row]
  | case3 level part parts hne here later ih =>
    have hrest : parts ≠ [] := fun hnil => hne hnil
    rw [List.flatMap_cons, List.flatMap_cons, ih hrest, ink_row, Text.ink_nil, List.append_nil,
      List.append_assoc]

/-- The rows of a line show what the line shows. -/
theorem flatMap_ink_lineRows (width level : Nat) (line : Text) :
    (lineRows level line).1.flatMap (fun row => (row.text width).ink) = line.ink := by
  by_cases h : isVerbatim line = true
  · rw [lineRows_of_isVerbatim h, List.flatMap_singleton, Row.text]
  · rw [lineRows_of_code (by simpa using h),
      flatMap_ink_partRows width _ level (Block.parts_ne_nil _), Block.flatMap_ink_parts, ink_split,
      Text.ink_trim]

/-- A layout shows what the lines show after joining. -/
theorem ink_format_eq (width : Nat) (text : Text) :
    (format width text).ink = (joinDetached text.lines).flatMap Text.ink := by
  rw [← Text.flatMap_ink_lines, flatMap_lines_format Text.ink rfl]
  exact flatMap_rowsFrom (fun line _ level => flatMap_ink_lineRows width level line) 0

/-! ## Detached braces -/

/-- The visible characters of a text without the opening braces. -/
def inkPastBraces (t : Text) : Text := t.ink.filter (· != '{')

theorem ink_of_trim_brace {line : Text} (h : line.trim = ['{']) : line.ink = ['{'] := by
  rw [← Text.ink_trim, h]
  decide

theorem inkPastBraces_joinBrace (line : Text) :
    inkPastBraces (joinBrace line) = inkPastBraces line := by
  have hline : line.ink = (split line.trim).code.ink ++ (split line.trim).comment.ink := by
    rw [ink_split, Text.ink_trim]
  simp [inkPastBraces, ink_joinBrace, hline]

theorem count_ink_joinBrace (line : Text) :
    (joinBrace line).ink.count '{' = line.ink.count '{' + 1 := by
  have hline : line.ink = (split line.trim).code.ink ++ (split line.trim).comment.ink := by
    rw [ink_split, Text.ink_trim]
  rw [ink_joinBrace, hline, List.count_append, List.count_append, List.count_cons_self]
  omega

/-- One more line adds its opening braces to the others. -/
theorem count_flatMap_ink_addLine (above : List Text) (line : Text) :
    ((addLine above line).reverse.flatMap Text.ink).count '{' =
      (above.reverse.flatMap Text.ink).count '{' + line.ink.count '{' := by
  rcases addLine_cases above line with ⟨hadd, -⟩ | ⟨hbrace, near, target, far, rfl, hadd, -⟩
  · rw [hadd, List.reverse_cons, List.flatMap_append, List.flatMap_singleton, List.count_append]
  · have hone : line.ink.count '{' = 1 := by
      rw [ink_of_trim_brace hbrace]
      rfl
    simp only [hadd, List.reverse_append, List.reverse_cons, List.flatMap_append,
      List.flatMap_singleton, List.count_append, count_ink_joinBrace, hone]
    omega

/-- Joining keeps the visible characters other than opening braces, in their order. -/
theorem flatMap_inkPastBraces_joinDetached (lines : List Text) :
    (joinDetached lines).flatMap inkPastBraces = lines.flatMap inkPastBraces := by
  apply flatMap_joinDetached
  · intro line hbrace
    rw [inkPastBraces, ink_of_trim_brace hbrace]
    rfl
  · intro target _
    exact inkPastBraces_joinBrace target

/-- Joining keeps the number of opening braces. -/
theorem count_flatMap_ink_joinDetached (lines : List Text) :
    ((joinDetached lines).flatMap Text.ink).count '{' = (lines.flatMap Text.ink).count '{' := by
  have h := joinDetached_induction (motive := fun before above =>
    (above.reverse.flatMap Text.ink).count '{' = (before.flatMap Text.ink).count '{') lines rfl (by
      intro before above line ih
      rw [count_flatMap_ink_addLine, ih, List.flatMap_append, List.flatMap_singleton,
        List.count_append])
  rwa [List.reverse_reverse] at h

theorem settled_of_no_brace {lines : List Text} (h : ∀ line ∈ lines, line.trim ≠ ['{'])
    (waits : Bool) : Settled waits lines := by
  induction lines generalizing waits with
  | nil => trivial
  | cons line lines ih =>
    refine ⟨?_, ih (fun l hl => h l (List.mem_cons_of_mem _ hl)) _⟩
    intro hbrace
    exact absurd hbrace (h line List.mem_cons_self)

/-! ## The whole layout -/

theorem filter_flatMap_ink (lines : List Text) :
    (lines.flatMap Text.ink).filter (· != '{') = lines.flatMap inkPastBraces := by
  rw [List.filter_flatMap]
  rfl

theorem count_ink (t : Text) : t.ink.count '{' = t.count '{' := by
  rw [Text.ink, List.count_filter]
  decide

/-- The layout of a text has the visible characters of the text: the same ones in the same order
apart from opening braces, and as many opening braces. Only a line that holds nothing but a brace
lets one change its place. -/
theorem ink_format (width : Nat) (text : Text) :
    (format width text).ink.filter (· != '{') = text.ink.filter (· != '{') ∧
      (format width text).count '{' = text.count '{' ∧
      ((∀ line ∈ text.lines, line.trim ≠ ['{']) → (format width text).ink = text.ink) := by
  refine ⟨?_, ?_, ?_⟩
  · rw [ink_format_eq, ← Text.flatMap_ink_lines text, filter_flatMap_ink, filter_flatMap_ink,
      flatMap_inkPastBraces_joinDetached]
  · rw [← count_ink (format width text), ← count_ink text, ink_format_eq,
      count_flatMap_ink_joinDetached, Text.flatMap_ink_lines]
  · -- without a line that is only a brace joining changes nothing
    intro h
    rw [ink_format_eq, joinDetached_of_settled (settled_of_no_brace h false),
      Text.flatMap_ink_lines]

theorem ink_format_inline_body :
    (∀ line ∈ Text.lines "if(x)\x7by\x7d else\x7bz\x7d".toList, line.trim ≠ ['{']) ∧
      (format 4 "if(x)\x7by\x7d else\x7bz\x7d".toList).ink =
        Text.ink "if(x)\x7by\x7d else\x7bz\x7d".toList :=
  ⟨by decide +kernel, (ink_format 4 _).2.2 (by decide +kernel)⟩

end YapAssist.Layout
