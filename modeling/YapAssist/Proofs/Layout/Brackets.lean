import YapAssist.Proofs.Layout.Edit

/-!
# Closing lines stand below their opening lines

The layout keeps a number, the level, where a reader keeps a stack: the indentations of the lines
whose brackets are still open. Coming from level `n`, the stack holds the indentations of the levels
below `n`, the highest first (`Layout.openIndents`). Brackets that an import statement opens at the
margin may lie below them, since the level does not drop below zero (`Layout.Follows`).

* `Layout.follows_walk`, one line keeps the stack in step with the level, and a line that closes
  stands where the top of the stack says;
* `Layout.linedUp_rowsFrom`, so does a whole layout;
* `Layout.linedUp_format`, the same for the lines of the laid out text, where headers can be told
  from literals.

An import statement opens no level. One that stands inside a block and breaks its line behind its
brace is closed by a line that is one level too far out (`Layout.linedUp_format_nested_import`).
-/

namespace YapAssist.Layout

open Line

/-! ## Walking along the lines of code -/

/-- A line of code of a layout. -/
structure CodeLine where
  /-- The line as it stands in the layout. -/
  line : Text
  /-- What it holds before its comment, without the indentation. -/
  code : Text
  deriving DecidableEq, Repr

namespace CodeLine

/-- The number of spaces a line begins with. -/
def indent (l : CodeLine) : Nat := (l.line.takeWhile (· == ' ')).length

/-- Whether the first character that is not a space is a closing bracket. -/
def closes (l : CodeLine) : Bool :=
  (l.line.dropWhile (· == ' ')).head?.any fun c => c == '}' || c == ']' || c == ')'

/-- Whether the code ends with an opening bracket. -/
def opens (l : CodeLine) : Bool :=
  l.code.getLast?.any fun c => c == '{' || c == '[' || c == '('

/-- Whether the code ends with an opening bracket and is not an indented import statement. -/
def opensLevel (l : CodeLine) : Bool := l.opens && !(isImport l.code && l.indent != 0)

end CodeLine

/-- The indentations of the open lines, the latest first, after one more line: it closes the latest
of them, if it closes any, and is then open itself, if it opens. -/
def walk (opens : CodeLine → Bool) (stack : List Nat) (l : CodeLine) : List Nat :=
  let rest := if l.closes then stack.tail else stack
  if opens l then l.indent :: rest else rest

/-- Every line that closes another one has its indentation. -/
def LinedUp (opens : CodeLine → Bool) : (stack : List Nat) → List CodeLine → Prop
  | _, [] => True
  | stack, l :: lines =>
    (l.closes = true → ∀ top ∈ stack.head?, l.indent = top) ∧
      LinedUp opens (walk opens stack l) lines

instance decidableLinedUp (opens : CodeLine → Bool) :
    ∀ stack lines, Decidable (LinedUp opens stack lines)
  | _, [] => inferInstanceAs (Decidable True)
  | stack, l :: lines =>
    have := decidableLinedUp opens (walk opens stack l) lines
    inferInstanceAs (Decidable ((l.closes = true → ∀ top ∈ stack.head?, l.indent = top) ∧ _))

theorem linedUp_append {opens : CodeLine → Bool} {stack : List Nat} {s t : List CodeLine} :
    LinedUp opens stack (s ++ t) ↔
      LinedUp opens stack s ∧ LinedUp opens (s.foldl (walk opens) stack) t := by
  induction s generalizing stack with
  | nil => simp [LinedUp]
  | cons l s ih => rw [List.cons_append, LinedUp, LinedUp, ih, List.foldl_cons, and_assoc]

/-- A row as a line of code; none for a line that is kept as it is. -/
def Row.codeLine (width : Nat) : Row → List CodeLine
  | verbatim _ => []
  | code level part comment => [⟨(code level part comment).text width, part⟩]

/-- The lines of code that the layout of a text is put together from. -/
def codeRows (width : Nat) (text : Text) : List CodeLine :=
  (rows text).flatMap (Row.codeLine width)

/-- A line as a line of code; none for a blank line and for a comment line. -/
def readLine (line : Text) : List CodeLine :=
  if isVerbatim line then [] else [⟨line, (split line.trim).code⟩]

/-- The lines of code of a text. -/
def codeLines (text : Text) : List CodeLine := text.lines.flatMap readLine

/-! ## One line -/

section
variable {part : Text} (htight : part.Tight) (hne : part ≠ [])
include htight hne

/-- A row of code has its indentation before the first character of its code. -/
theorem exists_cons_row (level width : Nat) (comment : Text) :
    ∃ c rest, (Row.code level part comment).text width =
      List.replicate (level * width) ' ' ++ c :: rest ∧ part.head? = some c ∧ c ≠ ' ' := by
  obtain ⟨c, rest, rfl⟩ := List.exists_cons_of_ne_nil hne
  have hc : isBlank c = false := htight.first c rfl
  have hspace : c ≠ ' ' := by
    rintro rfl
    rw [isBlank_space] at hc
    exact absurd hc (by simp)
  rw [Row.text, attach]
  split
  · exact ⟨c, rest, rfl, rfl, hspace⟩
  · exact ⟨c, rest ++ ' ' :: comment, rfl, rfl, hspace⟩

theorem indent_row (level width : Nat) (comment : Text) :
    CodeLine.indent ⟨(Row.code level part comment).text width, part⟩ = level * width := by
  obtain ⟨c, rest, hrow, -, hspace⟩ := exists_cons_row htight hne level width comment
  rw [CodeLine.indent, hrow, List.takeWhile_append_of_pos (by simp),
    List.takeWhile_cons_of_neg (by simpa using hspace), List.append_nil, List.length_replicate]

theorem closes_row (level width : Nat) (comment : Text) :
    CodeLine.closes ⟨(Row.code level part comment).text width, part⟩ = startsClosing part := by
  obtain ⟨c, rest, hrow, hhead, hspace⟩ := exists_cons_row htight hne level width comment
  rw [CodeLine.closes, hrow, List.dropWhile_append_of_pos (by simp),
    List.dropWhile_cons_of_neg (by simpa using hspace), startsClosing, htight.trim, hhead]
  rfl

omit hne in
theorem endsOpening_eq (line : Text) :
    endsOpening part = (!isImport part && CodeLine.opens ⟨line, part⟩) := by
  rw [endsOpening, htight.trim]
  rfl

end

/-! ## The stack and the level -/

/-- The indentations of the levels below a level, the highest first. -/
def openIndents (width : Nat) : (level : Nat) → List Nat
  | 0 => []
  | level + 1 => level * width :: openIndents width level

/-- A stack that is in step with a level: the levels below it, and maybe lines at the margin. -/
def Follows (width level : Nat) (stack : List Nat) : Prop :=
  ∃ margin, stack = openIndents width level ++ List.replicate margin 0

theorem openIndents_of_margin {width level : Nat} (h : level * width = 0) :
    openIndents width level = List.replicate level 0 := by
  induction level with
  | zero => rfl
  | succ level ih =>
    have hlevel : level * width = 0 := by
      rw [Nat.succ_mul] at h
      omega
    rw [openIndents, hlevel, ih hlevel, List.replicate_succ]

section
variable {width level : Nat} {stack : List Nat} (h : Follows width level stack)
include h

/-- A line that closes goes back to the level of the top of the stack. -/
theorem Follows.close :
    (∀ top ∈ stack.head?, (level - 1) * width = top) ∧ Follows width (level - 1) stack.tail := by
  obtain ⟨margin, rfl⟩ := h
  cases level with
  | zero =>
    -- at the margin only lines that stand there are open
    rw [openIndents, List.nil_append, Nat.zero_sub, Nat.zero_mul]
    refine ⟨?_, margin - 1, ?_⟩
    · intro top htop
      exact (List.eq_of_mem_replicate (List.mem_of_head? htop)).symm
    · rw [List.tail_replicate]
      rfl
  | succ level =>
    refine ⟨?_, margin, rfl⟩
    intro top htop
    simpa [openIndents] using htop

/-- An open line starts a level. -/
theorem Follows.push : Follows width (level + 1) (level * width :: stack) := by
  obtain ⟨margin, rfl⟩ := h
  exact ⟨margin, rfl⟩

/-- At the margin an open line may also start none. -/
theorem Follows.push_margin (hmargin : level * width = 0) :
    Follows width level (level * width :: stack) := by
  obtain ⟨margin, rfl⟩ := h
  refine ⟨margin + 1, ?_⟩
  rw [openIndents_of_margin hmargin, hmargin, List.replicate_append_replicate,
    List.replicate_append_replicate, ← List.replicate_succ, Nat.add_assoc]

end

/-- One row of code: where it closes, it stands as the line it closes, and the stack stays in step
with the level. -/
theorem follows_walk {width level : Nat} {stack : List Nat} {part : Text}
    (h : Follows width level stack) (htight : part.Tight) (hne : part ≠ []) (comment : Text)
    {l : CodeLine} (hl : l = ⟨(Row.code (levelAt level part) part comment).text width, part⟩) :
    (l.closes = true → ∀ top ∈ stack.head?, l.indent = top) ∧
      Follows width (levelAfter (levelAt level part) part) (walk CodeLine.opensLevel stack l) := by
  have hindent : l.indent = levelAt level part * width := by
    rw [hl, indent_row htight hne]
  have hcloses : l.closes = startsClosing part := by
    rw [hl, closes_row htight hne]
  have hopens : endsOpening part = (!isImport part && l.opens) := by
    rw [endsOpening_eq htight l.line, hl]
  have hcode : l.code = part := by rw [hl]
  -- first the line closes, which settles where it stands
  have hclosed : (l.closes = true → ∀ top ∈ stack.head?, l.indent = top) ∧
      Follows width (levelAt level part) (if l.closes then stack.tail else stack) := by
    rw [hindent, hcloses, levelAt]
    cases startsClosing part with
    | true => exact ⟨fun _ => h.close.1, h.close.2⟩
    | false => exact ⟨by simp, h⟩
  refine ⟨hclosed.1, ?_⟩
  generalize hrest : (if l.closes then stack.tail else stack) = rest at hclosed
  have hwalk : walk CodeLine.opensLevel stack l =
      if l.opensLevel then l.indent :: rest else rest := by rw [walk, hrest]
  rw [hwalk, CodeLine.opensLevel, hindent, hcode, levelAfter, hopens]
  -- then it opens, a level of its own unless it is an import
  cases l.opens with
  | false => simpa using hclosed.2
  | true =>
    cases isImport part with
    | false => simpa using hclosed.2.push
    | true =>
      by_cases hmargin : levelAt level part * width = 0
      · simpa [hmargin] using hclosed.2.push_margin hmargin
      · simpa [hmargin] using hclosed.2

/-! ## All lines -/

theorem linedUp_partRows {width : Nat} {comment : Text} {level : Nat} {parts : List Text}
    (hparts : ∀ part ∈ parts, part.Tight ∧ part ≠ []) :
    ∀ stack, Follows width level stack →
      LinedUp CodeLine.opensLevel stack
          ((partRows comment level parts).1.flatMap (Row.codeLine width)) ∧
        Follows width (partRows comment level parts).2
          (((partRows comment level parts).1.flatMap (Row.codeLine width)).foldl
            (walk CodeLine.opensLevel) stack) := by
  fun_induction partRows comment level parts with
  | case1 level => exact fun _ h => ⟨trivial, h⟩
  | case2 level part here =>
    intro stack h
    obtain ⟨htight, hne⟩ := hparts part List.mem_cons_self
    have hrow := follows_walk h htight hne comment rfl
    exact ⟨⟨hrow.1, trivial⟩, hrow.2⟩
  | case3 level part parts hmore here later ih =>
    intro stack h
    obtain ⟨htight, hne⟩ := hparts part List.mem_cons_self
    have hrow := follows_walk h htight hne [] rfl
    have hlater := ih (fun p hp => hparts p (List.mem_cons_of_mem _ hp)) _ hrow.2
    exact ⟨⟨hrow.1, hlater.1⟩, hlater.2⟩

theorem linedUp_lineRows {width level : Nat} {stack : List Nat} (h : Follows width level stack)
    (line : Text) :
    LinedUp CodeLine.opensLevel stack
        ((lineRows level line).1.flatMap (Row.codeLine width)) ∧
      Follows width (lineRows level line).2
        (((lineRows level line).1.flatMap (Row.codeLine width)).foldl
          (walk CodeLine.opensLevel) stack) := by
  by_cases hline : isVerbatim line = true
  · rw [lineRows_of_isVerbatim hline]
    exact ⟨trivial, h⟩
  · have hcode : isVerbatim line = false := by simpa using hline
    rw [lineRows_of_code hcode]
    exact linedUp_partRows (Block.tight_of_mem_parts
      (separable_split (Text.tight_trim line)).tight (code_ne_nil hcode)) stack h

/-- The rows of a list of lines are lined up, whatever lines are open before them. -/
theorem linedUp_rowsFrom {width level : Nat} {stack : List Nat} (h : Follows width level stack)
    (lines : List Text) :
    LinedUp CodeLine.opensLevel stack
      ((rowsFrom level lines).flatMap (Row.codeLine width)) := by
  induction lines generalizing level stack with
  | nil => exact trivial
  | cons line lines ih =>
    have hline := linedUp_lineRows h line
    rw [rowsFrom, List.flatMap_append, linedUp_append]
    exact ⟨hline.1, ih hline.2⟩

/-! ## The lines of the laid out text -/

/-- The texts on whose lines of code, detached braces joined, every header ends outside string
literals. -/
def HeadersApart (text : Text) : Prop :=
  ∀ line ∈ joinDetached text.lines, isVerbatim line = false →
    Block.HeadersOutside (split line.trim).code

/-- A condition that can be checked: no brace of a line of code lies inside a literal. -/
theorem headersApart_of_bracesOutside {text : Text}
    (h : ∀ line ∈ joinDetached text.lines, isVerbatim line = false →
      bracesOutside (split line.trim).code = true) : HeadersApart text :=
  fun line hline hcode => headersOutside_of_bracesOutside (h line hline hcode)

/-- A row is read as the line of code that it is, if headers end outside literals. -/
theorem readLine_row {line : Text}
    (h : isVerbatim line = false → Block.HeadersOutside (split line.trim).code) {level : Nat}
    {row : Row} (hrow : row ∈ (lineRows level line).1) (width : Nat) :
    readLine (row.text width) = row.codeLine width := by
  by_cases hline : isVerbatim line = true
  · rw [lineRows_of_isVerbatim hline, List.mem_singleton] at hrow
    rw [hrow, Row.text, readLine, if_pos hline, Row.codeLine]
  · have hcode : isVerbatim line = false := by simpa using hline
    rw [lineRows_of_code hcode] at hrow
    obtain ⟨here, part, behind, rfl, -, hne, hseparable⟩ :=
      separable_of_mem_partRows (separable_split (Text.tight_trim line)) (code_ne_nil hcode)
        (h hcode) row hrow
    have hverbatim : isVerbatim ((Row.code here part behind).text width) = false :=
      isVerbatim_attach hseparable hne (Text.gap_replicate_space _)
    have htrim := trim_row hseparable.tight hseparable.comment_tight hne here width
    rw [readLine, if_neg (by simp [hverbatim]), htrim, split_attach hseparable, Row.codeLine]

/-- The lines of code of a laid out text are those that it was put together from. -/
theorem codeLines_format {text : Text} (h : HeadersApart text) (width : Nat) :
    codeLines (format width text) = codeRows width text := by
  rw [codeLines, flatMap_lines_format readLine (by decide), codeRows, List.flatMap_def,
    List.flatMap_def]
  refine congrArg List.flatten (List.map_congr_left ?_)
  intro row hrow
  obtain ⟨line, hline, level, hrow⟩ := mem_rowsFrom hrow
  exact readLine_row (h line hline) hrow width

/-- A line of a layout that closes has the indentation of the line that it closes. Indented import
statements open nothing. -/
theorem linedUp_format (width : Nat) (text : Text) :
    LinedUp CodeLine.opensLevel [] (codeRows width text) ∧
      (HeadersApart text →
        LinedUp CodeLine.opensLevel [] (codeLines (format width text))) := by
  have hstart : Follows width 0 [] := ⟨0, rfl⟩
  have hrows : LinedUp CodeLine.opensLevel [] (codeRows width text) :=
    linedUp_rowsFrom hstart (joinDetached text.lines)
  refine ⟨hrows, ?_⟩
  intro h
  rw [codeLines_format h]
  exact hrows

/-- An import at the margin, a brace on a line of its own and a body behind its header. -/
theorem linedUp_format_blocks :
    LinedUp CodeLine.opensLevel [] (codeLines (format 2
      ("import \x7b\na\n\x7d from \"m\";\nfn f()\n\x7b\n".toList ++
        "if (x) \x7b g(\ny\n);\n\x7d\n\x7d".toList))) := by
  refine (linedUp_format 2 _).2 (headersApart_of_bracesOutside ?_)
  decide +kernel

/-- An import that stands inside a block and has its names on lines of their own: the line that
closes it goes back to the line that opened the block. -/
theorem linedUp_format_nested_import :
    ¬ LinedUp CodeLine.opens []
      (codeLines (format 4 "fn f() \x7b\nimport \x7b\na\n\x7d from \"m\";\n\x7d".toList)) := by
  decide +kernel

end YapAssist.Layout
