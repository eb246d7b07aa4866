import YapAssist.Proofs.Layout.Stable
import YapAssist.Proofs.Line.Automaton

/-!
# Laying out a text twice

The layout of a text does not depend on a layout of it that came before, whatever widths the two
use (`format_format`). Headers are found without a look at string literals, and a `while` or a
function behind a closing brace is not spaced, so this asks for regular texts: no brace inside a
literal, and no such keyword behind a brace (`Regular`).

All rows of a regular text are stable (`stable_rows`), so reading them again gives the same rows
(`rows_of_lines`), and the layout puts them together as before.
-/

namespace YapAssist.Layout

open Line

/-! ## Regular texts -/

/-- The byte offsets of the braces of `rest`, which starts at byte `offset`. -/
def braceOffsetsFrom (offset : Nat) : (rest : Text) → List Nat
  | [] => []
  | c :: rest =>
    let later := braceOffsetsFrom (offset + c.utf8Size) rest
    if c == '{' || c == '}' then offset :: later else later

/-- Whether no brace of a code text lies inside a string literal. -/
def bracesOutside (code : Text) : Bool :=
  (braceOffsetsFrom 0 code).all fun offset => !insideString code offset

/-- The texts whose lines of code have no brace inside a string literal and no `while`, `fn` or
`export` behind a closing brace. -/
def Regular (text : Text) : Prop :=
  ∀ line ∈ text.lines, isVerbatim line = false →
    bracesOutside (split line.trim).code = true ∧
      keywordBehindBrace (split line.trim).code = false

instance (text : Text) : Decidable (Regular text) :=
  inferInstanceAs (Decidable (∀ line ∈ text.lines, isVerbatim line = false →
    bracesOutside (split line.trim).code = true ∧
      keywordBehindBrace (split line.trim).code = false))

theorem mem_braceOffsetsFrom {c : Char} (h : c = '{' ∨ c = '}') (offset : Nat) (s t : Text) :
    offset + s.byteSize ∈ braceOffsetsFrom offset (s ++ c :: t) := by
  induction s generalizing offset with
  | nil => rcases h with rfl | rfl <;> simp [braceOffsetsFrom]
  | cons d s ih =>
    have hlater := ih (offset + d.utf8Size)
    rw [Nat.add_assoc] at hlater
    rw [List.cons_append, braceOffsetsFrom, Text.byteSize_cons]
    by_cases hd : (d == '{' || d == '}') = true
    · rw [if_pos hd]
      exact List.mem_cons_of_mem _ hlater
    · rw [if_neg hd]
      exact hlater

theorem quoted_of_bracesOutside {s t : Text} {c : Char} (h : bracesOutside (s ++ c :: t) = true)
    (hc : c = '{' ∨ c = '}') : (Mode.start.after s).quoted = false := by
  have hmem := mem_braceOffsetsFrom hc 0 s t
  rw [Nat.zero_add] at hmem
  have hout := List.all_eq_true.1 h _ hmem
  rw [Mode.insideString_eq] at hout
  simpa using hout

/-- A header end whose brace lies outside literals lies outside them. -/
theorem quoted_of_header_end {s gap t : Text} (hgap : gap.Gap)
    (h : bracesOutside (s ++ ')' :: (gap ++ '{' :: t)) = true) :
    (Mode.start.after s).quoted = false := by
  have hcut : s ++ ')' :: (gap ++ '{' :: t) = (s ++ ([')'] ++ gap)) ++ '{' :: t := by simp
  have hplain : Mode.Plain ([')'] ++ gap) :=
    Mode.Plain.append (by decide) (Mode.plain_of_gap hgap)
  rw [hcut] at h
  have hq := quoted_of_bracesOutside h (.inl rfl)
  rwa [Mode.after_append, hplain.quoted_after] at hq

theorem headersOutside_of_bracesOutside {code : Text} (h : bracesOutside code = true) :
    Block.HeadersOutside code := by
  intro s gap t he hgap _
  rw [he] at h
  exact quoted_of_header_end hgap h

/-- The brace that is joined to a line has nothing behind it, so all other header ends are those of
the line itself. -/
theorem headersOutside_codeBrace {line : Text} (h : bracesOutside (split line.trim).code = true) :
    Block.HeadersOutside (codeBrace line) := by
  intro s gap t he hgap ht
  unfold codeBrace at he
  generalize (split line.trim).code = code at h he
  -- take the joined brace and the blank before it off the text behind the header
  rcases List.eq_nil_or_concat t with rfl | ⟨front, c, rfl⟩
  · exact absurd Text.gap_nil ht
  have hbrace : (code ++ [' ']) ++ ['{'] = (s ++ ')' :: (gap ++ '{' :: front)) ++ [c] := by
    simpa using he
  have hfront := List.append_inj_left' hbrace rfl
  rcases List.eq_nil_or_concat front with rfl | ⟨inside, d, rfl⟩
  · have hblank : code ++ [' '] = (s ++ ')' :: gap) ++ ['{'] := by simpa using hfront
    exact absurd (List.append_inj_right' hblank rfl) (by simp)
  · have hblank : code ++ [' '] = (s ++ ')' :: (gap ++ '{' :: inside)) ++ [d] := by
      simpa using hfront
    rw [List.append_inj_left' hblank rfl] at h
    exact quoted_of_header_end hgap h

/-- A keyword found behind a brace stands there before a brace is joined. -/
theorem startsWith_of_startsWith_append {word t : Text} (hword : ' ' ∉ word)
    (h : (t ++ [' ', '{']).startsWith word = true) : t.startsWith word = true := by
  rcases startsWith_iff.1 h with ⟨rest, hrest⟩
  rw [List.append_eq_append_iff] at hrest
  rcases hrest with ⟨mid, hmid, htail⟩ | ⟨mid, hmid, htail⟩
  · -- the word would reach into what was added, which begins with a blank
    cases mid with
    | nil => exact startsWith_iff.2 ⟨[], by simpa using hmid.symm⟩
    | cons d mid =>
      rw [List.cons_append, List.cons.injEq] at htail
      rw [hmid, ← htail.1] at hword
      exact absurd (by simp) hword
  · exact startsWith_iff.2 ⟨mid, hmid⟩

theorem keywordBehindBrace_append_brace {t : Text} (h : keywordBehindBrace t = false) :
    keywordBehindBrace (t ++ [' ', '{']) = false := by
  induction t with
  | nil => decide
  | cons c t ih =>
    rw [keywordBehindBrace, Bool.or_eq_false_iff] at h
    rw [List.cons_append, keywordBehindBrace, ih h.2, Bool.or_false]
    have hnone := h.1
    rw [Bool.and_eq_false_iff] at hnone ⊢
    refine hnone.imp id ?_
    intro hnone
    rw [List.any_eq_false] at hnone ⊢
    intro word hword hstart
    have hblank : ' ' ∉ word := by
      simp only [looseKeywords, List.mem_cons, List.not_mem_nil, or_false] at hword
      rcases hword with rfl | rfl | rfl <;> decide
    apply hnone word hword
    rcases Text.exists_gap_trimStart t with ⟨gap, hgap, ht⟩
    by_cases htrim : Text.trimStart t = []
    · -- behind the brace only the joined one is left
      rw [ht, htrim, List.append_nil, hgap.trimStart_append] at hstart
      simp only [looseKeywords, List.mem_cons, List.not_mem_nil, or_false] at hword
      rcases hword with rfl | rfl | rfl <;> exact absurd hstart (by decide)
    · apply startsWith_of_startsWith_append hblank
      rcases List.exists_cons_of_ne_nil htrim with ⟨d, rest, hd⟩
      have hvisible : isBlank d = false :=
        Text.head?_trimStart_not_blank t d (by rw [hd]; rfl)
      rw [ht, List.append_assoc, hgap.trimStart_append, hd, List.cons_append,
        Text.trimStart_cons_of_not_blank hvisible] at hstart
      rwa [hd]

/-! ## The rows of a regular text -/

/-- The lines of code whose rows are stable. -/
structure Clean (cut : Line) : Prop where
  separable : Separable cut
  visible : cut.code ≠ []
  outside : Block.HeadersOutside cut.code
  keywords : keywordBehindBrace cut.code = false

/-- Every part of a clean line comes apart from what is put behind it and is its own only part. -/
theorem Clean.stable {cut : Line} (h : Clean cut) {level : Nat} :
    ∀ row ∈ (partRows cut.comment level (Block.parts cut.code)).1, row.Stable := by
  intro row hrow
  rcases separable_of_mem_partRows h.separable h.visible h.outside row hrow with
    ⟨here, part, behind, rfl, hpart, hne, hseparable⟩
  exact ⟨hseparable, hne, Block.parts_of_mem_parts h.keywords part hpart⟩

theorem Regular.clean {text line : Text} (h : Regular text) (hline : line ∈ text.lines)
    (hcode : isVerbatim line = false) : Clean (split line.trim) where
  separable := separable_split (Text.tight_trim line)
  visible := code_ne_nil hcode
  outside := headersOutside_of_bracesOutside (h line hline hcode).1
  keywords := (h line hline hcode).2

theorem Regular.clean_codeBrace {text line : Text} (h : Regular text) (hline : line ∈ text.lines)
    (hcode : isVerbatim line = false) : Clean ⟨codeBrace line, (split line.trim).comment⟩ where
  separable := separable_codeBrace hcode
  visible := codeBrace_ne_nil line
  outside := headersOutside_codeBrace (h line hline hcode).1
  keywords := keywordBehindBrace_append_brace (h line hline hcode).2

/-- All rows of a text are stable if those of its lines of code are. -/
theorem stable_rows_of_code {text : Text}
    (h : ∀ line ∈ joinDetached text.lines, isVerbatim line = false → ∀ level,
      ∀ row ∈ (partRows (split line.trim).comment level (Block.parts (split line.trim).code)).1,
        row.Stable) : ∀ row ∈ rows text, row.Stable := by
  intro row hrow
  rcases mem_rowsFrom hrow with ⟨line, hline, level, hrow⟩
  by_cases hverbatim : isVerbatim line = true
  · rw [lineRows_of_isVerbatim hverbatim, List.mem_singleton] at hrow
    rw [hrow]
    exact hverbatim
  · have hcode : isVerbatim line = false := by simpa using hverbatim
    rw [lineRows_of_code hcode] at hrow
    exact h line hline hcode level row hrow

/-- Every row of a regular text is read as that row again. -/
theorem stable_rows {text : Text} (h : Regular text) : ∀ row ∈ rows text, row.Stable := by
  apply stable_rows_of_code
  intro line hline hcode level
  rcases (mem_joinDetached text.lines).1 line hline with hmem | ⟨k, hk, hkcode, hkwaits, rfl⟩
  · exact (h.clean hmem hcode).stable
  · rw [parts_joinBrace hkcode hkwaits, split_joinBrace hkcode]
    exact (h.clean_codeBrace hk hkcode).stable

/-! ## The second layout -/

/-- Stable rows, laid out as lines, are read as these rows; so are the rows before an empty last
one. -/
theorem rows_of_lines {text out : Text} (h : ∀ row ∈ rows text, row.Stable) {front : List Row}
    {width : Nat} (hrows : rows text = front ∨ rows text = front ++ [.verbatim []])
    (hlines : out.lines = front.map (Row.text width)) : rows out = front := by
  have hsettled : Settled false ((rows text).map (Row.text width)) :=
    settled_rowsFrom width h (settled_joinDetached text.lines)
  have hsame : rowsFrom 0 ((rows text).map (Row.text width)) = rows text :=
    rowsFrom_rowsFrom width h
  rw [rows, hlines]
  rcases hrows with hrows | hrows
  · rw [hrows] at hsettled hsame
    rw [joinDetached_of_settled hsettled, hsame]
  · rw [hrows, List.map_append] at hsettled hsame
    rw [joinDetached_of_settled (settled_append.1 hsettled).1]
    rw [rowsFrom_append] at hsame
    exact List.append_inj_left' hsame rfl

/-- Only an empty line that is kept as it is has an empty text. -/
theorem eq_verbatim_nil {row : Row} (h : row.Stable) {width : Nat} (hempty : row.text width = []) :
    row = .verbatim [] := by
  cases row with
  | verbatim line =>
    have hline : line = [] := hempty
    rw [hline]
  | code level part comment =>
    have htrim := h.trim width
    rw [hempty] at htrim
    have hink := ink_attach part comment
    rw [← htrim] at hink
    have hpart := h.1.tight.eq_nil_of_ink (List.append_eq_nil_iff.1 hink.symm).1
    exact absurd hpart h.2.1

section
variable {text : Text} (h : ∀ row ∈ rows text, row.Stable) (v w : Nat)
include h

/-- A layout of closed rows is laid out as these rows again, an empty row behind them aside. -/
theorem format_format_of_closed {front : List Row} (hne : front ≠ [])
    (hrows : rows text = front ∨ rows text = front ++ [.verbatim []])
    (hclosed : Text.Closable (LineEnding.ofText text) (front.map (Row.text v)))
    (hout : format v text =
      Text.document (LineEnding.ofText text) (front.map (Row.text v)) []) :
    format w (format v text) =
      Text.document (LineEnding.ofText text) (front.map (Row.text w)) [] := by
  have hmap : front.map (Row.text v) ≠ [] := by simpa using hne
  have hlines : (format v text).lines = front.map (Row.text v) := by
    rw [hout, Text.lines_document hclosed (by simp), if_pos rfl, List.append_nil]
  have hended : (format v text).getLast? = some '\n' := by
    rw [hout, Text.getLast?_document (by simp)]
    exact ⟨hmap, rfl⟩
  have hending : LineEnding.ofText (format v text) = LineEnding.ofText text := by
    rw [hout, Text.ofText_document hclosed (by simp), if_neg hmap]
  rw [format_of_ended hended w, rows_of_lines h hrows hlines, hending]

/-- When the text ends with a line feed, all rows are closed before and after. -/
theorem format_format_of_ended (hend : text.getLast? = some '\n') :
    format w (format v text) = format w text := by
  have hne : rows text ≠ [] := by
    apply rows_ne_nil
    rintro rfl
    simp at hend
  rw [format_of_ended hend w]
  exact format_format_of_closed h v w hne (.inl rfl) (closable_of_ended hend v)
    (format_of_ended hend v)

/-- An empty row at the end becomes the end of the row before it. -/
theorem format_format_of_empty_row {front : List Row} (hend : text.getLast? ≠ some '\n')
    (hrows : rows text = front ++ [.verbatim []]) :
    format w (format v text) = format w text := by
  have hout : ∀ width, format width text =
      Text.document (LineEnding.ofText text) (front.map (Row.text width)) [] :=
    format_of_open hend hrows
  by_cases hfront : front = []
  · -- the only row is empty, and so is the layout
    rw [hout v, hout w, hfront]
    rfl
  · rw [hout w]
    exact format_format_of_closed h v w hfront (.inr hrows) (closable_front hrows v) (hout v)

/-- Any other last row is open before and after. -/
theorem format_format_of_open_row {front : List Row} {last : Row}
    (hend : text.getLast? ≠ some '\n') (hrows : rows text = front ++ [last])
    (hlast : last.text v ≠ []) : format w (format v text) = format w text := by
  have hmem : last ∈ rows text := by simp [hrows]
  have hfeed := feed_not_mem_rows hmem v
  have hclosed := closable_front hrows v
  have hout := format_of_open hend hrows v
  have hlines : (format v text).lines = (rows text).map (Row.text v) := by
    rw [hout, Text.lines_document hclosed hfeed, if_neg hlast, hrows, List.map_append,
      List.map_singleton]
  have hopen : (format v text).getLast? ≠ some '\n' := by
    rw [hout, ne_eq, Text.getLast?_document hfeed]
    exact fun hboth => hlast hboth.2
  have hagain : rows (format v text) = front ++ [last] := by
    rw [rows_of_lines h (.inl rfl) hlines, hrows]
  rw [format_of_open hopen hagain w, format_of_open hend hrows w]
  -- a single row has no line ending from which to tell
  by_cases hfront : front = []
  · rw [hfront]
    rfl
  · rw [hout, Text.ofText_document hclosed hfeed, if_neg (by simpa using hfront)]

/-- A text whose rows are all stable is laid out the same whether or not it was laid out before. -/
theorem format_format_of_stable : format w (format v text) = format w text := by
  by_cases hne : text = []
  · rw [hne, format_nil, format_nil]
  by_cases hend : text.getLast? = some '\n'
  · exact format_format_of_ended h v w hend
  rcases List.eq_nil_or_concat (rows text) with hnil | ⟨front, last, hrows⟩
  · exact absurd hnil (rows_ne_nil hne)
  rw [List.concat_eq_append] at hrows
  by_cases hempty : last.text v = []
  · have hmem : last ∈ rows text := by simp [hrows]
    rw [eq_verbatim_nil (h last hmem) hempty] at hrows
    exact format_format_of_empty_row h v w hend hrows
  · exact format_format_of_open_row h v w hend hrows hempty

end

/-- Laying out a text gives the same result whether or not it was laid out before, and with
whatever width: the layout is idempotent. -/
theorem format_format {text : Text} (h : Regular text) (v w : Nat) :
    format w (format v text) = format w text :=
  format_format_of_stable (stable_rows h) v w

/-- A detached brace is joined and an inline body is put below it, once and for all. -/
theorem format_format_detached_brace :
    Regular "if(x)\n\x7b\nwhile(y)\x7bz\x7d // w\n\x7d".toList ∧
      format 2 (format 4 "if(x)\n\x7b\nwhile(y)\x7bz\x7d // w\n\x7d".toList) =
        format 2 "if(x)\n\x7b\nwhile(y)\x7bz\x7d // w\n\x7d".toList :=
  ⟨by decide +kernel, format_format (by decide +kernel) 4 2⟩

end YapAssist.Layout
