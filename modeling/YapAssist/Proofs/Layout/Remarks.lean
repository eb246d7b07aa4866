import Mathlib.Data.List.Forall2
import YapAssist.Proofs.Layout.Rows

/-!
# Comments and blank lines in a layout

What a line says beside its code, its remark, is the whole line when it is blank or a comment line,
and its trailing comment otherwise. A layout has the remarks of its text, in their order, each on a
line of its own:

* `Layout.flatMap_remark_joinDetached`, a brace that moves up to its header passes the remarks on
  the way, and the comment of the header stays behind the brace;
* `Layout.remarks_rowsFrom`, of the rows of a line the last one carries its remark;
* `Layout.rows_sublist_cut`, the rows are pieces of the layout, cut at its line ending.

Main statement: `Layout.remarks_format`.
-/

namespace YapAssist

/-! ## Cutting at a line ending -/

namespace LineEnding

/-- The pieces of a text between a carriage return with its line feed and the next. -/
def cutReturnFeeds : Text → List Text
  | [] => [[]]
  | '\r' :: '\n' :: rest => [] :: cutReturnFeeds rest
  | c :: rest =>
    match cutReturnFeeds rest with
    | [] => [[c]]
    | piece :: pieces => (c :: piece) :: pieces

/-- The pieces of a text between the occurrences of a line ending; at least one. -/
def cut : LineEnding → Text → List Text
  | feed, text => Text.cutAtEach '\n' text
  | returnFeed, text => cutReturnFeeds text

theorem cutReturnFeeds_cons {c : Char} {rest piece : Text} {pieces : List Text}
    (h : rest.head? ≠ some '\n') (hrest : cutReturnFeeds rest = piece :: pieces) :
    cutReturnFeeds (c :: rest) = (c :: piece) :: pieces := by
  rw [cutReturnFeeds, hrest]
  rintro more - rfl
  exact h rfl

theorem cutReturnFeeds_append {line : Text} (h : '\n' ∉ line) (t : Text) :
    cutReturnFeeds (line ++ '\r' :: '\n' :: t) = line :: cutReturnFeeds t := by
  induction line with
  | nil => rw [List.nil_append, cutReturnFeeds]
  | cons c line ih =>
    have hline : '\n' ∉ line := fun hn => h (List.mem_cons_of_mem c hn)
    have hhead : (line ++ '\r' :: '\n' :: t).head? ≠ some '\n' := by
      cases line with
      | nil => simp
      | cons d line =>
        intro he
        exact hline (List.mem_of_head? he)
    rw [List.cons_append, cutReturnFeeds_cons hhead (ih hline)]

theorem cutReturnFeeds_of_not_mem {line : Text} (h : '\n' ∉ line) :
    cutReturnFeeds line = [line] := by
  induction line with
  | nil => rfl
  | cons c line ih =>
    have hline : '\n' ∉ line := fun hn => h (List.mem_cons_of_mem c hn)
    have hhead : line.head? ≠ some '\n' := fun hn => hline (List.mem_of_head? hn)
    rw [cutReturnFeeds_cons hhead (ih hline)]

theorem cut_append {line : Text} (h : '\n' ∉ line) (ending : LineEnding) (t : Text) :
    ending.cut (line ++ (ending.text ++ t)) = line :: ending.cut t := by
  cases ending with
  | feed =>
    show Text.cutAtEach '\n' (line ++ '\n' :: t) = _
    rw [Text.cutAtEach_append_mark, Text.cutAtEach_of_not_mem h]
    rfl
  | returnFeed => exact cutReturnFeeds_append h t

theorem cut_of_not_mem {line : Text} (h : '\n' ∉ line) (ending : LineEnding) :
    ending.cut line = [line] := by
  cases ending with
  | feed => exact Text.cutAtEach_of_not_mem h
  | returnFeed => exact cutReturnFeeds_of_not_mem h

/-- A document comes apart into its closed lines and its rest. -/
theorem cut_document {ending : LineEnding} {closed : List Text} {rest : Text}
    (h : ∀ line ∈ closed, '\n' ∉ line) (hrest : '\n' ∉ rest) :
    ending.cut (Text.document ending closed rest) = closed ++ [rest] := by
  induction closed with
  | nil => exact cut_of_not_mem hrest ending
  | cons line closed ih =>
    rw [Text.document_cons, cut_append (h line List.mem_cons_self),
      ih fun l hl => h l (List.mem_cons_of_mem _ hl), List.cons_append]

end LineEnding

namespace Layout

open Line

/-! ## Remarks -/

/-- What a line says beside its code. -/
inductive Remark where
  /-- A blank line or a comment line as a whole. -/
  | whole (line : Text)
  /-- The comment behind a line of code. -/
  | trailing (comment : Text)
  deriving DecidableEq, Repr

/-- Whether a piece of a text keeps a remark: it is the same line, or it ends with a space and the
same comment. -/
def Remark.KeptBy : Remark → (piece : Text) → Prop
  | whole line, piece => piece = line
  | trailing comment, piece => ' ' :: comment <:+ piece

/-- The remark of a line; none for a line of code without a comment. -/
def remark (line : Text) : List Remark :=
  if isVerbatim line then [.whole line]
  else if (split line.trim).comment.isEmpty then []
  else [.trailing (split line.trim).comment]

theorem remark_of_code {line : Text} (h : isVerbatim line = false) :
    remark line = if (split line.trim).comment.isEmpty then []
      else [.trailing (split line.trim).comment] := by
  rw [remark, if_neg (by simp [h])]

theorem remark_joinBrace {line : Text} (h : isVerbatim line = false) :
    remark (joinBrace line) = remark line := by
  rw [remark_of_code (isVerbatim_joinBrace h), remark_of_code h, split_joinBrace h]

/-- A line that is only a brace has no remark. -/
theorem remark_of_trim_brace {line : Text} (h : line.trim = ['{']) : remark line = [] := by
  rw [remark_of_code (isVerbatim_of_trim_brace h), h]
  rfl

/-- Joining detached braces keeps the remarks of all lines: a header keeps its comment, and the
brace had none. -/
theorem flatMap_remark_joinDetached (lines : List Text) :
    (joinDetached lines).flatMap remark = lines.flatMap remark :=
  flatMap_joinDetached (fun _ => remark_of_trim_brace) (fun _ => remark_joinBrace) lines

/-! ## Rows -/

theorem sublistForall₂_append {α β : Type} {R : α → β → Prop} {s s' : List α} {t t' : List β}
    (h : List.SublistForall₂ R s t) (h' : List.SublistForall₂ R s' t') :
    List.SublistForall₂ R (s ++ s') (t ++ t') := by
  obtain ⟨l, hl, hsub⟩ := List.sublistForall₂_iff.1 h
  obtain ⟨l', hl', hsub'⟩ := List.sublistForall₂_iff.1 h'
  exact List.sublistForall₂_iff.2 ⟨l ++ l', List.rel_append hl hl', hsub.append hsub'⟩

/-- A comment stands behind a space at the end of its row. -/
theorem keptBy_row {comment : Text} (h : comment ≠ []) (level width : Nat) (part : Text) :
    (Remark.trailing comment).KeptBy ((Row.code level part comment).text width) := by
  rw [Row.text, attach, if_neg (by simpa using h), Remark.KeptBy, ← List.append_assoc]
  exact List.suffix_append _ _

/-- The last row of the parts of a line carries the comment of the line. -/
theorem remarks_partRows {comment : Text} (h : comment ≠ []) {level : Nat} {parts : List Text}
    (hparts : parts ≠ []) (width : Nat) :
    List.SublistForall₂ Remark.KeptBy [.trailing comment]
      ((partRows comment level parts).1.map (Row.text width)) := by
  fun_induction partRows comment level parts with
  | case1 => exact absurd rfl hparts
  | case2 level part here => exact .cons (keptBy_row h here width part) .nil
  | case3 level part parts hmore here later ih =>
    refine .cons_right (ih ?_)
    rintro rfl
    exact hmore rfl

theorem remarks_lineRows (level width : Nat) (line : Text) :
    List.SublistForall₂ Remark.KeptBy (remark line)
      ((lineRows level line).1.map (Row.text width)) := by
  by_cases hline : isVerbatim line = true
  · rw [lineRows_of_isVerbatim hline, remark, if_pos hline]
    exact .cons rfl .nil
  · have hcode : isVerbatim line = false := by simpa using hline
    rw [lineRows_of_code hcode, remark_of_code hcode]
    by_cases hcomment : (split line.trim).comment = []
    · rw [if_pos (by simpa using hcomment)]
      exact .nil
    · rw [if_neg (by simpa using hcomment)]
      exact remarks_partRows hcomment (Block.parts_ne_nil _) width

/-- The rows of a list of lines carry the remarks of the lines. -/
theorem remarks_rowsFrom (level width : Nat) (lines : List Text) :
    List.SublistForall₂ Remark.KeptBy (lines.flatMap remark)
      ((rowsFrom level lines).map (Row.text width)) := by
  induction lines generalizing level with
  | nil => exact .nil
  | cons line lines ih =>
    rw [rowsFrom, List.map_append, List.flatMap_cons]
    exact sublistForall₂_append (remarks_lineRows level width line) (ih _)

/-! ## Pieces of a layout -/

/-- Cut at its line ending, a layout falls into its rows; behind a line feed at its end is one more
piece. -/
theorem rows_sublist_cut (width : Nat) (text : Text) :
    ((rows text).map (Row.text width)).Sublist
      ((LineEnding.ofText text).cut (format width text)) := by
  have hfeed : ∀ line ∈ (rows text).map (Row.text width), '\n' ∉ line := by
    intro line hline
    obtain ⟨row, hrow, rfl⟩ := List.mem_map.1 hline
    exact feed_not_mem_rows hrow width
  obtain hnil | ⟨front, last, hrows⟩ := List.eq_nil_or_concat (rows text)
  · simp [hnil]
  rw [List.concat_eq_append] at hrows
  by_cases hend : text.getLast? = some '\n'
  · rw [format_of_ended hend, LineEnding.cut_document hfeed (by simp)]
    exact List.sublist_append_left _ _
  · rw [hrows, List.map_append, List.map_singleton] at hfeed ⊢
    rw [format_of_open hend hrows, LineEnding.cut_document
      (fun line hline => hfeed line (List.mem_append_left _ hline)) (hfeed _ (by simp))]

/-- Blank lines, comment lines and trailing comments of a text are found again in its layout, in
their order and each on a line of its own. -/
theorem remarks_format (width : Nat) (text : Text) :
    List.SublistForall₂ Remark.KeptBy (text.lines.flatMap remark)
      ((LineEnding.ofText text).cut (format width text)) := by
  have hrows : List.SublistForall₂ Remark.KeptBy (text.lines.flatMap remark)
      ((rows text).map (Row.text width)) := by
    rw [← flatMap_remark_joinDetached]
    exact remarks_rowsFrom 0 width (joinDetached text.lines)
  obtain ⟨pieces, hkept, hsub⟩ := List.sublistForall₂_iff.1 hrows
  exact List.sublistForall₂_iff.2 ⟨pieces, hkept, hsub.trans (rows_sublist_cut width text)⟩

end Layout

end YapAssist
