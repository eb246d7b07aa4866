import YapAssist.Proofs.Block.Declarations
import YapAssist.Proofs.Layout.Idempotence

/-!
# The layout and declarations

A name is looked for line by line, and the layout spaces, cuts and joins lines. What a text declares
is what its lines declare, and each step of the layout keeps that:

* `Line.isSome_inLine?`, blanks around a line do not matter to what it declares;
* `Layout.any_declares_joinDetached`, a brace that moves up to its header declares nothing;
* `Layout.any_declares_partRows`, the rows of a line declare what the line declares;
* `Layout.find?_format`, laying out a text keeps what it declares.
-/

namespace YapAssist

open Line Declaration

/-! ## Lines -/

/-- A gap before a text stays a gap when its end is trimmed. -/
theorem Text.exists_gap_trimEnd_append {gap : Text} (h : gap.Gap) (t : Text) :
    ∃ gap' : Text, gap'.Gap ∧ Text.trimEnd (gap ++ t) = gap' ++ t.trimEnd := by
  rcases Text.exists_gap_trimEnd t with ⟨back, hback, ht⟩
  have hcut : gap ++ t = gap ++ t.trimEnd ++ back := by rw [List.append_assoc, ← ht]
  rw [hcut, hback.trimEnd_append]
  by_cases hnil : t.trimEnd = []
  · refine ⟨[], Text.gap_nil, ?_⟩
    rw [hnil, List.append_nil, List.nil_append, ← List.nil_append gap, h.trimEnd_append]
    rfl
  · refine ⟨gap, h, Text.trimEnd_eq_self ?_⟩
    rw [Text.getLast?_append_right hnil]
    exact Text.getLast?_trimEnd_not_blank t

namespace Line

/-- The code of a line is that of the trimmed line with a gap before it. -/
theorem exists_gap_code (line : Text) :
    ∃ gap : Text, gap.Gap ∧ (split line).code = gap ++ (split line.trim).code := by
  rcases Text.exists_gaps_trim line with ⟨front, back, hfront, hback, hline⟩
  have hplain := Mode.plain_of_gap hfront
  have hbackPlain := Mode.plain_of_gap hback
  rcases split_cases line.trim with ⟨hfree, he⟩ | ⟨s, t, htrim, hfree, hq, he⟩
  · have hwhole : commentFree .start line = true := by
      rw [hline, List.append_assoc, commentFree_plain_append hplain]
      exact commentFree_append hfree (hbackPlain.commentFree _) (.inr hbackPlain.head?_ne)
    rcases Text.exists_gap_trimEnd_append hfront line.trim with ⟨gap, hgap, hcut⟩
    refine ⟨gap, hgap, ?_⟩
    rw [split_of_commentFree hwhole, he, ← hcut]
    show line.trimEnd = _
    conv => lhs; rw [hline]
    rw [hback.trimEnd_append]
  · rcases Text.exists_gap_trimEnd_append hfront s with ⟨gap, hgap, hcut⟩
    refine ⟨gap, hgap, ?_⟩
    have hwhole : line = (front ++ s) ++ '/' :: '/' :: (t ++ back) := by
      rw [hline, htrim]
      simp
    have hfree' : commentFree .start (front ++ s ++ ['/']) = true := by
      rwa [List.append_assoc, commentFree_plain_append hplain]
    have hq' : (Mode.start.after (front ++ s)).quoted = false := by
      rwa [Mode.after_append, hplain.after_start]
    rw [he, ← hcut]
    conv => lhs; rw [hwhole]
    rw [split_comment _ hfree' hq']

/-- The code of a comment line is empty. -/
theorem code_of_isComment {line : Text} (h : isComment line = true) :
    (split line.trim).code = [] := by
  rcases startsWith_iff.1 h with ⟨rest, hrest⟩
  have hcut : line.trim = [] ++ '/' :: '/' :: rest := hrest
  rw [hcut, split_comment rest (by decide) rfl]
  rfl

/-- Whether a line declares `name`. -/
def declares (name line : Text) : Bool := Declaration.declares name (split line.trim).code

section
variable {name : Text} (hname : isIdentifier name = true)
include hname

/-- A declaration is found in a line exactly when the line declares the name. -/
theorem isSome_inLine? (line : Text) : (inLine? name line).isSome = declares name line := by
  unfold inLine? declares
  split
  · next hcomment =>
    rw [code_of_isComment hcomment]
    rfl
  · rcases exists_gap_code line with ⟨gap, hgap, hcode⟩
    rw [isSome_inCode? hname, hcode, declares_gap_append hgap]

theorem isSome_inLines? (index : Nat) (lines : List Text) :
    (inLines? name index lines).isSome = lines.any (declares name) := by
  induction lines generalizing index with
  | nil => rfl
  | cons line lines ih =>
    have hline := isSome_inLine? hname line
    rw [inLines?, List.any_cons, ← hline]
    cases inLine? name line with
    | none => rw [ih]; rfl
    | some column => rfl

theorem isSome_find? (text : Text) :
    (find? text name).isSome = text.lines.any (declares name) := by
  rw [find?, if_pos hname, isSome_inLines? hname]

end

end Line

namespace Layout

section
variable {name : Text} (hname : isIdentifier name = true)
include hname

/-! ## Detached braces -/

omit hname in
theorem declares_of_trim_brace {line : Text} (h : line.trim = ['{']) :
    Line.declares name line = false := by
  have hcode : (split line.trim).code = ['{'] := by
    rw [h]
    decide
  unfold Line.declares
  rw [hcode]
  exact declaresFrom_cons (by decide) name .start []

theorem declares_codeBrace (line : Text) :
    Declaration.declares name (codeBrace line) = Line.declares name line := by
  have hstops : Stops [' ', '{'] :=
    (stops_cons (by decide) (by decide) []).gap_append Text.gap_space
  unfold codeBrace Declaration.declares
  rw [declaresFrom_append hname hstops, declaresFrom_cons (by decide),
    declaresFrom_cons (by decide)]
  exact Bool.or_false _

theorem declares_joinBrace {line : Text} (h : isVerbatim line = false) :
    Line.declares name (joinBrace line) = Line.declares name line := by
  rw [Line.declares, code_joinBrace h, declares_respace hname, declares_codeBrace hname]

/-- A brace that moves up to its header declares nothing. -/
theorem any_declares_joinDetached (lines : List Text) :
    (joinDetached lines).any (Line.declares name) = lines.any (Line.declares name) := by
  have hall := joinDetached_induction (motive := fun before above =>
    above.reverse.any (Line.declares name) = before.any (Line.declares name)) lines rfl (by
    intro before above line ih
    rw [List.any_append, ← ih]
    rcases addLine_cases above line with
      ⟨hadd, -⟩ | ⟨hbrace, near, target, far, rfl, hadd, -, hcode, -⟩
    · rw [hadd, List.reverse_cons, List.any_append]
    · rw [hadd]
      simp [declares_joinBrace hname hcode, declares_of_trim_brace hbrace])
  rwa [List.reverse_reverse] at hall

/-! ## Rows -/

omit hname in
/-- A row declares what its part declares. -/
theorem declares_row {part behind : Text} (hne : part ≠ []) (h : Separable ⟨part, behind⟩)
    (level width : Nat) :
    Line.declares name ((Row.code level part behind).text width) =
      Declaration.declares name part := by
  rw [Line.declares, trim_row h.tight h.comment_tight hne, split_attach h]

omit hname in
theorem any_declares_of_rows {comment : Text} {level : Nat} {parts : List Text} {width : Nat}
    (h : ∀ row ∈ (partRows comment level parts).1, ∃ here part behind,
      row = .code here part behind ∧
        Line.declares name (row.text width) = Declaration.declares name part) :
    (partRows comment level parts).1.any (fun row => Line.declares name (row.text width)) =
      parts.any (Declaration.declares name) := by
  fun_induction partRows comment level parts with
  | case1 => rfl
  | case2 level part here =>
    rcases h _ List.mem_cons_self with ⟨_, _, _, hrow, hpart⟩
    cases hrow
    simp [hpart]
  | case3 level part parts hne here later ih =>
    rcases h _ List.mem_cons_self with ⟨_, _, _, hrow, hpart⟩
    cases hrow
    rw [List.any_cons, List.any_cons, hpart, ih fun row hr => h row (List.mem_cons_of_mem _ hr)]

/-- The rows of a line of code declare what its code declares. -/
theorem any_declares_partRows {cut : Line} (hcut : Separable cut) (hcode : cut.code ≠ [])
    (hout : Block.HeadersOutside cut.code) (level width : Nat) :
    (partRows cut.comment level (Block.parts cut.code)).1.any
        (fun row => Line.declares name (row.text width)) =
      Declaration.declares name cut.code := by
  have hrows : ∀ row ∈ (partRows cut.comment level (Block.parts cut.code)).1,
      ∃ here part behind, row = .code here part behind ∧
        Line.declares name (row.text width) = Declaration.declares name part := by
    intro row hrow
    rcases separable_of_mem_partRows hcut hcode hout row hrow with
      ⟨here, part, behind, rfl, -, hne, hseparable⟩
    exact ⟨here, part, behind, rfl, declares_row hne hseparable here width⟩
  rw [any_declares_of_rows hrows, Block.any_declares_parts hname hout]

end

/-! ## The whole layout -/

/-- The offsets of braces are those of the places where a brace stands. -/
theorem exists_of_mem_braceOffsetsFrom {offset n : Nat} {code : Text}
    (h : n ∈ braceOffsetsFrom offset code) :
    ∃ s c t, code = s ++ c :: t ∧ (c = '{' ∨ c = '}') ∧ n = offset + Text.byteSize s := by
  induction code generalizing offset with
  | nil => simp [braceOffsetsFrom] at h
  | cons c code ih =>
    have hlater : n ∈ braceOffsetsFrom (offset + c.utf8Size) code →
        ∃ s d t, c :: code = s ++ d :: t ∧ (d = '{' ∨ d = '}') ∧ n = offset + Text.byteSize s := by
      intro hn
      rcases ih hn with ⟨s, d, t, rfl, hd, hoffset⟩
      refine ⟨c :: s, d, t, rfl, hd, ?_⟩
      rw [Text.byteSize_cons]
      omega
    unfold braceOffsetsFrom at h
    split at h
    · next hc =>
      rcases List.mem_cons.1 h with rfl | h
      · exact ⟨[], c, code, rfl, by simpa using hc, rfl⟩
      · exact hlater h
    · exact hlater h

/-- Blanks before a code text do not put a brace into a literal. -/
theorem bracesOutside_of_gap_append {gap code : Text} (hgap : gap.Gap)
    (h : bracesOutside (gap ++ code) = true) : bracesOutside code = true := by
  unfold bracesOutside
  rw [List.all_eq_true]
  intro n hn
  rcases exists_of_mem_braceOffsetsFrom hn with ⟨s, c, t, rfl, hc, hoffset⟩
  rw [Nat.zero_add] at hoffset
  rw [← List.append_assoc] at h
  have hq := quoted_of_bracesOutside h hc
  rw [Mode.after_append, (Mode.plain_of_gap hgap).after_start] at hq
  rw [hoffset, Mode.insideString_eq, hq]
  rfl

/-- What is read from the lines of a layout is read from its rows, if an empty line gives
nothing. -/
theorem any_lines_format {read : Text → Bool} (h : read [] = false) (width : Nat) (text : Text) :
    (format width text).lines.any read = (rows text).any (fun row => read (row.text width)) := by
  have hrows : (rows text).any (fun row => read (row.text width)) =
      ((rows text).map (Row.text width)).any read := by
    rw [List.any_map]
    rfl
  rcases lines_format width text with hlines | hlines
  · rw [hrows, hlines]
  · rw [hrows, ← hlines, List.any_append, List.any_cons, h, List.any_nil, Bool.or_false,
      Bool.or_false]

theorem any_rowsFrom {read : Row → Bool} {readLine : Text → Bool} {lines : List Text}
    (h : ∀ line ∈ lines, ∀ level, (lineRows level line).1.any read = readLine line)
    (level : Nat) : (rowsFrom level lines).any read = lines.any readLine := by
  induction lines generalizing level with
  | nil => rfl
  | cons line lines ih =>
    rw [rowsFrom, List.any_append, List.any_cons, h line List.mem_cons_self,
      ih fun l hl => h l (List.mem_cons_of_mem _ hl)]

/-- The rows of a line with its detached brace declare what the line declares. -/
theorem any_declares_lineRows {name text line : Text} (hname : isIdentifier name = true)
    (h : ∀ l ∈ text.lines, bracesOutside (split l.trim).code = true)
    (hline : line ∈ joinDetached text.lines) (level width : Nat) :
    (lineRows level line).1.any (fun row => Line.declares name (row.text width)) =
      Line.declares name line := by
  cases hverbatim : isVerbatim line with
  | true =>
    rw [lineRows_of_isVerbatim hverbatim, List.any_cons, List.any_nil, Bool.or_false, Row.text]
  | false =>
    rw [lineRows_of_code hverbatim]
    rcases (mem_joinDetached text.lines).1 line hline with hmem | ⟨k, hk, hcode, hwaits, rfl⟩
    · exact any_declares_partRows hname (separable_split (Text.tight_trim line))
        (code_ne_nil hverbatim) (headersOutside_of_bracesOutside (h line hmem)) level width
    · rw [parts_joinBrace hcode hwaits, split_joinBrace hcode, declares_joinBrace hname hcode,
        ← declares_codeBrace hname]
      exact any_declares_partRows hname (separable_codeBrace hcode) (codeBrace_ne_nil k)
        (headersOutside_codeBrace (h k hk)) level width

/-- **Laying out a text keeps what it declares.** If no brace of a line's code lies inside a string
literal, a name is declared in the layout exactly when it is declared in the text. -/
theorem find?_format {text : Text}
    (h : ∀ line ∈ text.lines, bracesOutside (split line).code = true) (width : Nat) (name : Text) :
    (find? (format width text) name).isSome = (find? text name).isSome := by
  cases hname : isIdentifier name with
  | false => simp [find?, hname]
  | true =>
    have htrim : ∀ line ∈ text.lines, bracesOutside (split line.trim).code = true := by
      intro line hline
      rcases exists_gap_code line with ⟨gap, hgap, hcode⟩
      have hout := h line hline
      rw [hcode] at hout
      exact bracesOutside_of_gap_append hgap hout
    have hempty : Line.declares name [] = false := rfl
    rw [isSome_find? hname, isSome_find? hname, any_lines_format hempty, rows,
      any_rowsFrom fun line hline level => any_declares_lineRows hname htrim hline level width,
      any_declares_joinDetached hname]

/-- A declaration with odd gaps inside an inline body is found before and after. -/
theorem find?_format_inline_body :
    (∀ line ∈ Text.lines "if(x)\x7bexport  fn g (a)\n\x7b y \x7d\x7d // fn h".toList,
      bracesOutside (split line).code = true) ∧
    (find? "if(x)\x7bexport  fn g (a)\n\x7b y \x7d\x7d // fn h".toList ['g']).isSome = true ∧
    (find? (format 4 "if(x)\x7bexport  fn g (a)\n\x7b y \x7d\x7d // fn h".toList) ['g']).isSome =
      (find? "if(x)\x7bexport  fn g (a)\n\x7b y \x7d\x7d // fn h".toList ['g']).isSome :=
  ⟨by decide +kernel, by decide +kernel, find?_format (by decide +kernel) 4 ['g']⟩

end Layout

end YapAssist
