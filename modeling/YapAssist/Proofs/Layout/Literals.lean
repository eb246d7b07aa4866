import YapAssist.Proofs.Layout.Rows
import YapAssist.Proofs.Line.Literals

/-!
# The layout and string literals

Headers are found without a look at string literals. A closing parenthesis with a brace behind it
ends a header also inside a literal, and the layout then cuts the line there, through the literal.
Such a cut is the only way in which the layout changes a closed literal:

* `Block.flatMap_codeLiterals_parts`, parts that are separate have the literals of their line;
* `literals_format_of_uncut`, a text none of whose literals is cut keeps its literals;
* `cutsLiteral_eq_false`, a literal is cut only if it holds what a header ends with.
-/

namespace YapAssist

open Line

namespace Block

/-! ## Spacing -/

theorem codeLiterals_spelled {header : Header} {raw : Text} (h : header.Spelled raw) :
    codeLiterals raw = codeLiterals header.inner := by
  rcases h with ⟨lead, gap, hlead, hgap, rfl⟩
  rw [codeLiterals_plain_append hlead, codeLiterals_append_plain _ (header.plain_tail hgap)]

/-- Behind a header a text without delimiting quotes adds no literal. -/
theorem codeLiterals_spelled_append {header : Header} {lead raw t : Text} (hlead : Mode.Plain lead)
    (hraw : header.Spelled raw) (ht : Mode.silent .start t = true) :
    codeLiterals (lead ++ (raw ++ t)) = codeLiterals header.inner := by
  have hsilent := silent_behind hlead hraw t
  rw [ht] at hsilent
  rw [← List.append_assoc, codeLiterals_append_of_silent hsilent, codeLiterals_plain_append hlead,
    codeLiterals_spelled hraw]

/-- A header without an inline body has blanks behind its brace. -/
theorem gap_of_of?_eq_none {t body : Text} {header : Header}
    (hread : Header.read? t = some (header, body)) (h : InlineBody.of? t = none) : body.Gap := by
  apply Text.gap_of_trim_eq_nil
  by_cases hempty : body.trim = []
  · exact hempty
  · rw [InlineBody.of?, hread] at h
    simp only [List.isEmpty_iff, hempty, if_false] at h
    split at h <;> simp at h

/-- Spacing keeps the literals of a line that is not cut. -/
theorem codeLiterals_respace_of_leaf {line : Text}
    (h : isImport line = true ∨ inline? (respace line) = none) :
    codeLiterals (respace line) = codeLiterals line := by
  rcases h with h | h
  · rw [respace_of_isImport h]
  · have hspaced := respaced_respace line
    generalize respace line = out at h hspaced
    cases hspaced with
    | same => rfl
    | @header header raw body hraw hwrite hread =>
      -- without an inline body only blanks stand behind the brace
      rw [inline?, after?_closing_write, Option.map_eq_none_iff] at h
      have hbody := gap_of_of?_eq_none (Header.read?_write_append hread body) h
      have hsilent := (Mode.plain_of_gap hbody).silent .start
      have hnone : Mode.Plain [] := by decide
      exact (codeLiterals_spelled_append hnone hwrite hsilent).trans
        (codeLiterals_spelled_append hnone hraw hsilent).symm
    | @behind header gap raw body hgap hraw hwrite hread =>
      rw [inline?, after?_closing, Option.map_eq_none_iff, trimStart_space_write] at h
      have hbody := gap_of_of?_eq_none (Header.read?_write_append hread body) h
      have hsilent := (Mode.plain_of_gap hbody).silent .start
      exact (codeLiterals_spelled_append plain_closing_space hwrite hsilent).trans
        (codeLiterals_spelled_append (plain_closing_gap hgap) hraw hsilent).symm
    | @loneElse gap after hgap =>
      exact (codeLiterals_plain_append plain_closing_space (['e', 'l', 's', 'e'] ++ after)).trans
        (codeLiterals_plain_append (plain_closing_gap hgap) (['e', 'l', 's', 'e'] ++ after)).symm

/-! ## Cutting -/

theorem flatMap_codeLiterals_of_silent {parts : List Text}
    (h : ∀ part ∈ parts, Mode.silent .start part = true) : parts.flatMap codeLiterals = [] := by
  rw [List.flatMap_eq_nil_iff]
  intro part hp
  exact codeLiterals_of_silent (h part hp)

/-- Separate parts have the literals of their line. -/
theorem flatMap_codeLiterals_parts {line : Text} (h : separate (parts line) = true) :
    (parts line).flatMap codeLiterals = codeLiterals line := by
  induction line using parts_induction with
  | leaf line hleaf => rw [List.flatMap_singleton, codeLiterals_respace_of_leaf hleaf]
  | block line front b hi hb ih =>
    have hin := inlined_of_inline? hi hb
    rw [separate_inlined hin] at h
    rcases hin.exists_stretches with
      ⟨header, lead, raw, gap, back, rfl, hlead, hraw, hheader, hgap, hback, -, -⟩
    have hfront : front.flatMap codeLiterals = [] := by
      apply flatMap_codeLiterals_of_silent
      intro part hp
      rw [hin.eq_of_mem_front hp, silent_closing]
    have hclosing : (closingOf b).flatMap codeLiterals = [] :=
      flatMap_codeLiterals_of_silent silent_of_mem_closingOf
    rw [List.flatMap_append, List.flatMap_cons, List.flatMap_append, hfront, hclosing,
      List.nil_append, List.append_nil, codeLiterals_spelled hheader]
    rw [hheader.after_start, ← hraw.after_start] at h
    by_cases hq : (Mode.start.after raw).quoted = true
    · -- the literal stays open, so neither the body nor its parts close one
      have hbody := h.1 hq
      have hafter : Mode.silent .start (gap ++ (b.body ++ back)) = true := by
        rw [silent_plain_append (Mode.plain_of_gap hgap), Mode.silent_append, hbody, hback.silent]
        rfl
      have hnone : (bodyOf b).flatMap codeLiterals = [] := by
        apply flatMap_codeLiterals_of_silent
        intro part hp
        exact (silent_iff_parts b.body).1 hbody part (mem_bodyOf hp).2
      rw [codeLiterals_spelled_append hlead hraw hafter, hnone, List.append_nil]
    · -- the body is read as a line of its own
      have hfresh := after_eq_start hlead hraw hgap (by simpa using hq)
      have hcut : lead ++ (raw ++ (gap ++ (b.body ++ back))) =
          (lead ++ raw ++ gap) ++ (b.body ++ back) := by simp
      have hlead' : codeLiterals (lead ++ raw ++ gap) = codeLiterals header.inner := by
        rw [codeLiterals_append_plain _ (Mode.plain_of_gap hgap), codeLiterals_plain_append hlead,
          codeLiterals_spelled hraw]
      have hbody : (bodyOf b).flatMap codeLiterals = codeLiterals b.body := by
        by_cases hne : b.body = []
        · simp [bodyOf, hne, codeLiterals, literalsFrom]
        · rw [bodyOf_of_ne_nil hne] at h ⊢
          exact ih hne h.2
      rw [hcut, codeLiterals_append_of_start hfresh, hlead', codeLiterals_append_plain _ hback,
        hbody]

end Block

namespace Layout

/-! ## Rows -/

/-- Code in which no quote delimits gives no literal, with whatever comment it is cut before. -/
theorem codeLiterals_split_attach {part : Text} (hfree : commentFree .start part = false)
    (hsilent : Mode.silent .start part = true) (behind : Text) :
    codeLiterals (split (attach part behind)).code = [] := by
  rcases exists_comment_of_not_commentFree hfree with ⟨s, rest, rfl, hs, hq⟩
  have hattach : ∃ more, attach (s ++ '/' :: '/' :: rest) behind = s ++ '/' :: '/' :: more := by
    unfold attach
    split
    · exact ⟨rest, rfl⟩
    · exact ⟨rest ++ ' ' :: behind, by simp⟩
  rcases hattach with ⟨more, hmore⟩
  rw [hmore, split_comment more hs hq]
  apply codeLiterals_of_silent
  rw [Mode.silent_append, Bool.and_eq_true] at hsilent
  have hall := hsilent.1
  rcases Text.exists_gap_trimEnd s with ⟨gap, -, he⟩
  rw [he, Mode.silent_append, Bool.and_eq_true] at hall
  exact hall.1

/-- Each row of a line of code has the literals of its part. -/
theorem literals_row {line : Text} (hcode : isVerbatim line = false)
    (hsep : Block.separate (Block.parts (split line.trim).code) = true) {level : Nat} {row : Row}
    (hrow : row ∈ (lineRows level line).1) (width : Nat) :
    ∃ here part behind, row = .code here part behind ∧
      Line.literals (row.text width) = codeLiterals part := by
  have hcut := separable_split (Text.tight_trim line)
  rw [lineRows_of_code hcode] at hrow
  rcases mem_partRows row hrow with ⟨here, part, behind, rfl, hpart, hbehind⟩
  rcases Block.tight_of_mem_parts hcut.tight (code_ne_nil hcode) part hpart with ⟨htight, hne⟩
  refine ⟨here, part, behind, rfl, ?_⟩
  have hbehindTight : behind.Tight := by
    rcases hbehind with rfl | ⟨rfl, -⟩
    · exact Text.tight_nil
    · exact hcut.comment_tight
  rw [Line.literals, trim_row htight hbehindTight hne]
  cases hfree : commentFree .start part with
  | false =>
    -- a comment shows in the part, but then no quote of it delimits and there is nothing to lose
    rcases Block.commentFree_or_silent_of_mem_parts hsep hcut.free part hpart with hf | ⟨hs, -⟩
    · rw [hfree] at hf
      exact absurd hf (by simp)
    · rw [codeLiterals_split_attach hfree hs, codeLiterals_of_silent hs]
  | true =>
    rw [split_attach (Block.separable_part hcut hsep htight hfree hbehind)]

theorem flatMap_literals_partRows {comment : Text} {level : Nat} {parts : List Text} {width : Nat}
    (h : ∀ row ∈ (partRows comment level parts).1, ∃ here part behind,
      row = .code here part behind ∧ Line.literals (row.text width) = codeLiterals part) :
    (partRows comment level parts).1.flatMap (fun row => Line.literals (row.text width)) =
      parts.flatMap codeLiterals := by
  fun_induction partRows comment level parts with
  | case1 => rfl
  | case2 level part here =>
    rcases h _ List.mem_cons_self with ⟨_, _, _, hrow, hlit⟩
    cases hrow
    simp [hlit]
  | case3 level part parts hne here later ih =>
    rcases h _ List.mem_cons_self with ⟨_, _, _, hrow, hlit⟩
    cases hrow
    rw [List.flatMap_cons, List.flatMap_cons, hlit,
      ih fun row hr => h row (List.mem_cons_of_mem _ hr)]

/-- Whether the layout cuts a closed literal of a code text: a part leaves a literal open, and a
quote of a later part would have closed it. -/
def cutsLiteral (code : Text) : Bool := !Block.separate (Block.parts code)

/-- The rows of a line have the literals of the line. -/
theorem flatMap_literals_lineRows {line : Text}
    (h : isVerbatim line = false → cutsLiteral (split line.trim).code = false)
    (level width : Nat) :
    (lineRows level line).1.flatMap (fun row => Line.literals (row.text width)) =
      Line.literals line := by
  by_cases hline : isVerbatim line = true
  · rw [lineRows_of_isVerbatim hline, List.flatMap_singleton, Row.text]
  · have hcode : isVerbatim line = false := by simpa using hline
    have hsep : Block.separate (Block.parts (split line.trim).code) = true := by
      simpa [cutsLiteral] using h hcode
    have hrows : ∀ row ∈ (lineRows level line).1, ∃ here part behind,
        row = .code here part behind ∧ Line.literals (row.text width) = codeLiterals part :=
      fun row hr => literals_row hcode hsep hr width
    rw [lineRows_of_code hcode] at hrows ⊢
    rw [flatMap_literals_partRows hrows, Block.flatMap_codeLiterals_parts hsep, Line.literals]

/-! ## Detached braces -/

/-- A joined brace closes no literal. -/
theorem literals_joinBrace {line : Text} (hcode : isVerbatim line = false)
    (hwaits : awaitsBrace line = true)
    (h : cutsLiteral (split (joinBrace line).trim).code = false) :
    Line.literals (joinBrace line) = Line.literals line := by
  have hsep : Block.separate (Block.parts (split (joinBrace line).trim).code) = true := by
    simpa [cutsLiteral] using h
  rw [Line.literals, ← Block.flatMap_codeLiterals_parts hsep, parts_joinBrace hcode hwaits]
  rw [parts_joinBrace hcode hwaits] at hsep
  rw [Block.flatMap_codeLiterals_parts hsep, codeBrace,
    codeLiterals_append_plain _ plain_space_brace, Line.literals]

/-- Joining keeps the literals of a text, if the layout cuts none. -/
theorem flatMap_literals_joinDetached {lines : List Text}
    (h : ∀ line ∈ joinDetached lines, isVerbatim line = false →
      cutsLiteral (split line.trim).code = false) :
    (joinDetached lines).flatMap Line.literals = lines.flatMap Line.literals := by
  -- what waits for a brace may get one later, so only the other lines are known to be laid out
  have hall := joinDetached_induction (motive := fun before above =>
    (∀ l ∈ above, isVerbatim l = false → awaitsBrace l = false →
      cutsLiteral (split l.trim).code = false) →
      above.reverse.flatMap Line.literals = before.flatMap Line.literals) lines (fun _ => rfl) (by
    intro before above line ih hnew
    rw [List.flatMap_append, List.flatMap_singleton]
    rcases addLine_cases above line with
      ⟨hadd, -⟩ | ⟨hbrace, near, target, far, rfl, hadd, -, hcode, hwaits⟩
    · rw [hadd] at hnew ⊢
      rw [List.reverse_cons, List.flatMap_append, List.flatMap_singleton,
        ih fun l hl => hnew l (List.mem_cons_of_mem _ hl)]
    · rw [hadd] at hnew ⊢
      have hjoined : Line.literals (joinBrace target) = Line.literals target :=
        literals_joinBrace hcode hwaits
          (hnew _ (by simp) (isVerbatim_joinBrace hcode) (awaitsBrace_joinBrace hcode hwaits))
      have hold := ih (by
        intro l hl hline hnot
        rcases List.mem_append.1 hl with hl | hl
        · exact hnew l (List.mem_append_left _ hl) hline hnot
        · rcases List.mem_cons.1 hl with rfl | hl
          · rw [hwaits] at hnot
            exact absurd hnot (by simp)
          · exact hnew l (by simp [hl]) hline hnot)
      rw [← hold, literals_of_trim_brace hbrace, List.append_nil]
      simp [hjoined])
  rw [List.reverse_reverse] at hall
  exact hall fun l hl hline _ => h l (List.mem_reverse.1 hl) hline

/-! ## Literals that hold a header end -/

/-- Whether a text holds what a header ends with: a closing parenthesis and, blanks aside, a brace
behind it. -/
def holdsHeaderEnd : Text → Bool
  | [] => false
  | c :: rest => (c == ')' && (Header.afterBrace? rest).isSome) || holdsHeaderEnd rest

theorem holdsHeaderEnd_append (s : Text) {gap : Text} (hgap : gap.Gap) (t : Text) :
    holdsHeaderEnd (s ++ ')' :: (gap ++ '{' :: t)) = true := by
  induction s with
  | nil => simp [holdsHeaderEnd, Header.afterBrace?_gap_append hgap]
  | cons c s ih => rw [List.cons_append, holdsHeaderEnd, ih, Bool.or_true]

/-- A header end inside a closed literal is a header end that the literal holds. -/
theorem headersClear_of_literals {code : Text}
    (h : ∀ literal ∈ codeLiterals code, holdsHeaderEnd literal = false) :
    Block.HeadersClear code := by
  intro s gap t he hgap _ hq
  rw [← Bool.not_eq_false]
  intro hsilent
  have hplain : Mode.Plain (')' :: (gap ++ ['{'])) :=
    Mode.Plain.append (s := [')']) (by decide) ((Mode.plain_of_gap hgap).append (by decide))
  have hcut : code = s ++ (')' :: (gap ++ ['{']) ++ t) := by simp [he]
  have hinside := Mode.gather_of_silent hq (hplain.silent _) (Mode.start.gather [] s)
  have hquoted : ((Mode.start.after s).after (')' :: (gap ++ ['{']))).quoted = true := by
    rw [hplain.quoted_after, hq]
  -- no backslash is pending behind the brace: the next delimiting quote of `t` closes the literal
  have hloud : Mode.silent ((Mode.start.after s).after (')' :: (gap ++ ['{']))) t = false := by
    rw [← hsilent]
    apply Mode.silent_eq_of_escaped
    rw [Mode.after_cons, Mode.after_append, Mode.after_cons, Mode.after_nil,
      Mode.next_of_ne (by decide) (by decide)]
    rfl
  rcases Mode.exists_mem_literals hquoted hloud
    ((')' :: (gap ++ ['{'])).reverse ++ Mode.start.gather [] s) with ⟨more, hmore⟩
  have hmem : (Mode.start.gather [] s).reverse ++ ')' :: (gap ++ '{' :: more) ∈
      codeLiterals code := by
    rw [codeLiterals_eq, hcut, Mode.literals_append, Mode.literals_append, hinside]
    apply List.mem_append_right
    apply List.mem_append_right
    simpa using hmore
  have hholds := h _ hmem
  rw [holdsHeaderEnd_append _ hgap] at hholds
  exact absurd hholds (by simp)

/-- A literal is cut only if it holds what a header ends with. -/
theorem cutsLiteral_eq_false {code : Text}
    (h : ∀ literal ∈ codeLiterals code, holdsHeaderEnd literal = false) :
    cutsLiteral code = false := by
  rw [cutsLiteral, Block.separate_of_headersClear (headersClear_of_literals h)]
  rfl

/-- The texts none of whose literals is cut. -/
def Uncut (text : Text) : Prop :=
  ∀ line ∈ joinDetached text.lines, isVerbatim line = false →
    cutsLiteral (split line.trim).code = false

instance (text : Text) : Decidable (Uncut text) := List.decidableBAll _ (joinDetached text.lines)

/-- A text none of whose literals holds a header end has none that is cut. -/
theorem uncut_of_literals {text : Text}
    (h : ∀ literal ∈ text.literals, holdsHeaderEnd literal = false) : Uncut text := by
  have hcode : ∀ l ∈ text.lines, ∀ literal ∈ codeLiterals (split l.trim).code,
      holdsHeaderEnd literal = false := by
    intro l hl literal hmem
    exact h literal (List.mem_flatMap.2 ⟨l, hl, hmem⟩)
  intro line hline _
  rcases (mem_joinDetached text.lines).1 line hline with hmem | ⟨k, hk, hkcode, hkwaits, rfl⟩
  · exact cutsLiteral_eq_false (hcode line hmem)
  · rw [cutsLiteral, parts_joinBrace hkcode hkwaits]
    apply cutsLiteral_eq_false
    rw [codeBrace, codeLiterals_append_plain _ plain_space_brace]
    exact hcode k hk

/-! ## The whole layout -/

/-- A text none of whose literals is cut keeps its closed string literals. -/
theorem literals_format_of_uncut {text : Text} (h : Uncut text) (width : Nat) :
    (format width text).literals = text.literals := by
  have hrows : (rows text).flatMap (fun row => Line.literals (row.text width)) =
      (joinDetached text.lines).flatMap Line.literals :=
    flatMap_rowsFrom
      (fun line hline level => flatMap_literals_lineRows (h line hline) level width) 0
  rw [Text.literals, flatMap_lines_format Line.literals literals_nil, hrows,
    flatMap_literals_joinDetached h, Text.literals]

end Layout

end YapAssist
