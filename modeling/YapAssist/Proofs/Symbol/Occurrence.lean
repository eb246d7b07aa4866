import YapAssist.Proofs.Position.Order
import YapAssist.Proofs.Symbol.Declaration

/-!
# The first declaration of a name

A declaration is looked for line by line, comments left out, and in the code of a line by matching
from left to right. What is found is the first place of all at which the name is declared
(`Declaration.OccursAt`), lines before columns:

* `Declaration.startsAt_iff`, what there is to see at a column where a declaration starts;
* `Declaration.inLine?_eq_some_iff`, the first declaration of a line;
* `Declaration.Reads.exists_place`, where the place of a declaration is in the text;
* `Declaration.find?_first`, the first declaration of a text.
-/

namespace YapAssist

open Line

/-- Whether a word begins or ends between two texts: on one side only stands a character of a
word. -/
def wordBoundary (before after : Text) : Bool :=
  before.getLast?.any isWord != after.head?.any isWord

theorem wordBoundary_of_head {after : Text} (h : after.head?.any isWord = true) (before : Text) :
    wordBoundary before after = !before.getLast?.any isWord := by
  rw [wordBoundary, h, Bool.bne_true]

theorem wordBoundary_of_getLast {before : Text} (h : before.getLast?.any isWord = true)
    (after : Text) : wordBoundary before after = endsWord after := by
  rw [wordBoundary, h, Bool.true_bne, endsWord]

theorem Line.code_isPrefix (line : Text) : (split line).code <+: line := by
  have htrim : ∀ t : Text, t.trimEnd <+: t := Text.dropWhile_isPrefix isBlank
  obtain ⟨-, he⟩ | ⟨s, t, rfl, -, -, he⟩ := split_cases line
  · rw [he]
    exact htrim line
  · rw [he]
    exact (htrim s).trans (List.prefix_append _ _)

/-- A comment line has nothing but blanks before its comment. -/
theorem Line.gap_code_of_isComment {line : Text} (h : isComment line = true) :
    (split line).code.Gap := by
  obtain ⟨front, back, hfront, -, hline⟩ := Text.exists_gaps_trim line
  unfold isComment Text.startsWith at h
  obtain ⟨rest, hrest⟩ := Option.isSome_iff_exists.1 h
  rw [Text.after?_eq_some_iff] at hrest
  have hcut : line = front ++ '/' :: '/' :: (rest ++ back) := by
    rw [hline, hrest]
    simp
  have hplain := Mode.plain_of_gap hfront
  have hfree : commentFree .start (front ++ ['/']) = true :=
    commentFree_append (hplain.commentFree _) (by simp [commentFree]) (.inl hplain.getLast?_ne)
  have hclosed : (Mode.start.after front).quoted = false := by
    rw [hplain.after_start]
    rfl
  rw [hcut, split_comment _ hfree hclosed]
  intro c hc
  exact hfront c ((Text.dropWhile_isPrefix isBlank front).subset hc)

namespace Declaration

/-! ## Occurrences -/

/-- What may stand before the word `fn`: the word `export` and a gap, or nothing. -/
def IsLead (lead : Text) : Prop :=
  lead = [] ∨ ∃ gap : Text, gap ≠ [] ∧ gap.Gap ∧ lead = ['e', 'x', 'p', 'o', 'r', 't'] ++ gap

/-- A declaration as it is written. -/
def spelling (lead gap name : Text) : Text := lead ++ (['f', 'n'] ++ (gap ++ name))

/-- A line of code declares a name behind `before`, outside string literals. -/
structure Reads (name code before lead gap after : Text) : Prop where
  code_eq : code = before ++ (spelling lead gap name ++ after)
  isLead : IsLead lead
  gap_ne : gap ≠ []
  isGap : gap.Gap
  starts : wordBoundary before (spelling lead gap name) = true
  starts_fn : wordBoundary (before ++ lead) ['f', 'n'] = true
  ends : wordBoundary (spelling lead gap name) after = true
  outside : insideString code before.byteSize = false

/-- A line of code declares a name at a column. -/
def OccursIn (name code : Text) (column : Nat) : Prop :=
  ∃ before lead gap after : Text, Reads name code before lead gap after ∧ before.length = column

/-- A text declares a name at a place, in the code of a line. -/
def OccursAt (text name : Text) (p : Position) : Prop :=
  ∃ line, text.lines[p.line]? = some line ∧ OccursIn name (split line).code p.character

/-- Nothing is declared in a gap. -/
theorem not_occursIn_gap {code : Text} (h : code.Gap) (name : Text) (column : Nat) :
    ¬ OccursIn name code column := by
  rintro ⟨before, lead, gap, after, hread, -⟩
  have hmem : 'f' ∈ code := by
    rw [hread.code_eq, spelling]
    simp
  exact h.not_mem (by decide) hmem

theorem OccursIn.lt_length {name code : Text} {column : Nat} (h : OccursIn name code column) :
    column < code.length := by
  obtain ⟨before, lead, gap, after, h, rfl⟩ := h
  rw [h.code_eq, spelling]
  simp only [List.length_append, List.length_cons]
  omega

theorem head?_spelling {lead : Text} (h : IsLead lead) (gap name : Text) :
    (spelling lead gap name).head?.any isWord = true := by
  obtain rfl | ⟨first, -, -, rfl⟩ := h
  · show isWord 'f' = true
    decide
  · show isWord 'e' = true
    decide

/-- The word `fn` begins where a declaration does, or behind a gap. -/
theorem wordBoundary_fn {before lead gap name : Text} (hlead : IsLead lead)
    (h : wordBoundary before (spelling lead gap name) = true) :
    wordBoundary (before ++ lead) ['f', 'n'] = true := by
  have hfn : (['f', 'n'] : Text).head?.any isWord = true := by decide
  rw [wordBoundary_of_head (head?_spelling hlead gap name)] at h
  rw [wordBoundary_of_head hfn]
  obtain rfl | ⟨first, hne, hgap, rfl⟩ := hlead
  · rw [List.append_nil, h]
  · rw [← List.append_assoc, Text.getLast?_append_right hne, List.getLast?_eq_some_getLast hne,
      Option.any_some, isWord_eq_false_of_isBlank (hgap _ (List.getLast_mem hne))]
    rfl

section
variable {name : Text} (hname : isIdentifier name = true)
include hname

theorem getLast?_spelling (lead gap : Text) :
    (spelling lead gap name).getLast? = name.getLast? := by
  have hne := (isIdentifier_chars hname).1
  rw [spelling, ← List.append_assoc, ← List.append_assoc, Text.getLast?_append_right hne]

theorem wordBoundary_spelling (lead gap after : Text) :
    wordBoundary (spelling lead gap name) after = endsWord after := by
  have hne := (isIdentifier_chars hname).1
  apply wordBoundary_of_getLast
  rw [getLast?_spelling hname, List.getLast?_eq_some_getLast hne]
  exact isWord_of_mem_name hname _ (List.getLast_mem hne)

/-! ## The declarations of a line -/

theorem isSome_after?_iff {t : Text} : (after? name t).isSome = true ↔
    ∃ lead gap after : Text, IsLead lead ∧ gap ≠ [] ∧ gap.Gap ∧
      t = spelling lead gap name ++ after ∧ endsWord after = true := by
  rw [after?, Option.isSome_or, Bool.or_eq_true, Option.isSome_iff_exists, Option.isSome_iff_exists]
  simp only [Option.bind_eq_some_iff, afterFn?_eq_some_iff hname]
  constructor
  · rintro (⟨after, u, hu, gap, hne, hgap, rfl, hend⟩ | ⟨after, gap, hne, hgap, rfl, hend⟩)
    · obtain ⟨first, hfirst, hfirstGap, rfl⟩ := exists_gap_of_afterWordGap? hu
      exact ⟨_, gap, after, .inr ⟨first, hfirst, hfirstGap, rfl⟩, hne, hgap, by simp [spelling],
        hend⟩
    · exact ⟨[], gap, after, .inl rfl, hne, hgap, by simp [spelling], hend⟩
  · rintro ⟨_, gap, after, rfl | ⟨first, hfirst, hfirstGap, rfl⟩, hne, hgap, rfl, hend⟩
    · exact .inr ⟨after, gap, hne, hgap, by simp [spelling], hend⟩
    · have hvisible : ∀ c ∈ (['f', 'n'] ++ (gap ++ (name ++ after))).head?, isBlank c = false := by
        rintro c ⟨⟩
        decide
      have hread := afterWordGap?_eq hfirst hfirstGap hvisible ['e', 'x', 'p', 'o', 'r', 't']
      exact .inl ⟨after, _, by simpa [spelling] using hread, gap, hne, hgap, rfl, hend⟩

/-- A declaration starts at exactly the columns at which one can be read. -/
theorem startsAt_iff {code : Text} {column : Nat} :
    startsAt name code column = true ↔ OccursIn name code column := by
  constructor
  · intro h
    rw [startsAt, isSome_size?, Bool.and_eq_true, Bool.and_eq_true, Bool.not_eq_true',
      isSome_after?_iff hname] at h
    obtain ⟨houtside, hstart, lead, gap, after, hlead, hne, hgap, hcut, hend⟩ := h
    have hstarts : wordBoundary (code.take column) (spelling lead gap name) = true := by
      rwa [wordBoundary_of_head (head?_spelling hlead gap name)]
    refine ⟨code.take column, lead, gap, after,
      ⟨by rw [← hcut, List.take_append_drop], hlead, hne, hgap, hstarts,
        wordBoundary_fn hlead hstarts, by rwa [wordBoundary_spelling hname], houtside⟩, ?_⟩
    -- something is left behind the column, so the code is long enough
    have hlength := congrArg List.length hcut
    rw [List.length_drop, List.length_append, spelling, List.length_append, List.length_append,
      List.length_cons] at hlength
    exact List.length_take_of_le (by omega)
  · rintro ⟨before, lead, gap, after, h, rfl⟩
    have hstarts := h.starts
    rw [wordBoundary_of_head (head?_spelling h.isLead gap name)] at hstarts
    have hends := h.ends
    rw [wordBoundary_spelling hname] at hends
    have houtside := h.outside
    rw [h.code_eq, Mode.insideString_eq] at houtside
    rw [h.code_eq, startsAt_length, houtside, isSome_size?, hstarts, Bool.true_and, Bool.not_false,
      Bool.true_and, isSome_after?_iff hname]
    exact ⟨lead, gap, after, h.isLead, h.gap_ne, h.isGap, rfl, hends⟩

theorem inCode?_eq_some_iff {code : Text} {column : Nat} : inCode? name code = some column ↔
    OccursIn name code column ∧ ∀ k < column, ¬ OccursIn name code k := by
  simp only [inCode?_eq hname, List.find?_range_eq_some, Bool.not_eq_true', ← Bool.not_eq_true,
    startsAt_iff hname, List.mem_range]
  constructor
  · rintro ⟨hhere, -, hleast⟩
    exact ⟨hhere, hleast⟩
  · rintro ⟨hhere, hleast⟩
    exact ⟨hhere, hhere.lt_length, hleast⟩

theorem inCode?_eq_none_iff {code : Text} :
    inCode? name code = none ↔ ∀ column, ¬ OccursIn name code column := by
  rw [inCode?_eq hname, List.find?_eq_none]
  simp only [startsAt_iff hname, List.mem_range]
  exact ⟨fun h column hhere => h column (hhere.lt_length) hhere, fun h column _ => h column⟩

theorem inLine?_eq_some_iff {line : Text} {column : Nat} : inLine? name line = some column ↔
    OccursIn name (split line).code column ∧ ∀ k < column, ¬ OccursIn name (split line).code k := by
  unfold inLine?
  split
  · next hcomment =>
    have hnone := not_occursIn_gap (gap_code_of_isComment hcomment) name
    exact ⟨fun h => by simp at h, fun h => absurd h.1 (hnone column)⟩
  · exact inCode?_eq_some_iff hname

theorem inLine?_eq_none_iff {line : Text} : inLine? name line = none ↔
    ∀ column, ¬ OccursIn name (split line).code column := by
  unfold inLine?
  split
  · next hcomment =>
    exact ⟨fun _ => not_occursIn_gap (gap_code_of_isComment hcomment) name, fun _ => rfl⟩
  · exact inCode?_eq_none_iff hname

/-! ## The first declaration of a text -/

/-- What is found is an occurrence with none before it on its line or on an earlier line. -/
theorem exists_of_inLines?_eq_some {lines : List Text} {index : Nat} {p : Position}
    (h : inLines? name index lines = some p) :
    ∃ i line, lines[i]? = some line ∧ p.line = index + i ∧
      OccursIn name (split line).code p.character ∧
      (∀ k < p.character, ¬ OccursIn name (split line).code k) ∧
      ∀ j < i, ∀ above, lines[j]? = some above → ∀ k, ¬ OccursIn name (split above).code k := by
  induction lines generalizing index with
  | nil => simp [inLines?] at h
  | cons line lines ih =>
    unfold inLines? at h
    split at h
    · next column hcolumn =>
      obtain rfl : ⟨index, column⟩ = p := by simpa using h
      obtain ⟨hhere, hleast⟩ := (inLine?_eq_some_iff hname).1 hcolumn
      exact ⟨0, line, rfl, rfl, hhere, hleast, by simp⟩
    · next hnone =>
      obtain ⟨i, found, hfound, hline, hhere, hleast, habove⟩ := ih h
      refine ⟨i + 1, found, hfound, by omega, hhere, hleast, ?_⟩
      intro j hj above hj'
      cases j with
      | zero =>
        obtain rfl : line = above := by simpa using hj'
        exact (inLine?_eq_none_iff hname).1 hnone
      | succ j => exact habove j (by omega) above (by simpa using hj')

theorem inLines?_eq_none_iff {lines : List Text} (index : Nat) :
    inLines? name index lines = none ↔
      ∀ line ∈ lines, ∀ column, ¬ OccursIn name (split line).code column := by
  induction lines generalizing index with
  | nil => simp [inLines?]
  | cons line lines ih =>
    rw [List.forall_mem_cons, ← inLine?_eq_none_iff hname, ← ih (index + 1), inLines?]
    cases inLine? name line <;> simp

/-- The place found is an occurrence, and no occurrence comes before it. -/
theorem least_of_find?_eq_some {text : Text} {p : Position} (h : find? text name = some p) :
    OccursAt text name p ∧ ∀ q, OccursAt text name q → p.NotAfter q := by
  rw [find?, if_pos hname] at h
  obtain ⟨i, line, hline, hindex, hhere, hleast, habove⟩ := exists_of_inLines?_eq_some hname h
  rw [Nat.zero_add] at hindex
  refine ⟨⟨line, by rw [hindex, hline], hhere⟩, ?_⟩
  rintro q ⟨other, hother, hq⟩
  obtain hlt | heq | hgt := Nat.lt_trichotomy p.line q.line
  · exact .inl hlt
  · -- on the same line the columns decide
    rw [← heq, hindex, hline, Option.some.injEq] at hother
    subst hother
    exact .inr ⟨heq, Nat.le_of_not_lt fun hlt => hleast _ hlt hq⟩
  · exact absurd hq (habove q.line (by omega) other hother q.character)

theorem find?_eq_none_iff {text : Text} :
    find? text name = none ↔ ∀ q, ¬ OccursAt text name q := by
  rw [find?, if_pos hname, inLines?_eq_none_iff hname 0]
  constructor
  · rintro h q ⟨line, hline, hq⟩
    exact h line (List.mem_of_getElem? hline) q.character hq
  · intro h line hmem column hcolumn
    obtain ⟨i, hline⟩ := List.mem_iff_getElem?.1 hmem
    exact h ⟨i, column⟩ ⟨line, hline, hcolumn⟩

theorem find?_eq_some_iff {text : Text} {p : Position} : find? text name = some p ↔
    OccursAt text name p ∧ ∀ q, OccursAt text name q → p.NotAfter q := by
  refine ⟨least_of_find?_eq_some hname, ?_⟩
  rintro ⟨hp, hleast⟩
  cases hfind : find? text name with
  | none => exact absurd hp ((find?_eq_none_iff hname).1 hfind p)
  | some q =>
    obtain ⟨hq, hleast'⟩ := least_of_find?_eq_some hname hfind
    rw [(hleast q hq).antisymm (hleast' p hp)]

/-- The place of a declaration is the place of its first word in the text. -/
theorem Reads.exists_place {text line before lead gap after : Text} {p : Position}
    (hline : text.lines[p.line]? = some line)
    (h : Reads name (split line).code before lead gap after)
    (hcolumn : before.length = p.character) :
    ∃ closed rest : Text, closed.Closed ∧ closed.count '\n' = p.line ∧
      text = closed ++ (before ++ (spelling lead gap name ++ rest)) ∧
      p.toOffset text = (closed ++ before).byteSize := by
  obtain ⟨closed, whole, rest, rfl, hwhole, hcount, hread, -⟩ := Text.exists_isLine hline
  obtain ⟨more, hmore⟩ := (code_isPrefix line).trans hread
  rw [h.code_eq, List.append_assoc, List.append_assoc] at hmore
  -- the name ends in no carriage return, so the column lies on the line
  have hlast : ∀ c ∈ (before ++ spelling lead gap name).getLast?, (c == '\r') = false := by
    intro c hc
    rw [Text.getLast?_append_right (by simp [spelling]), getLast?_spelling hname] at hc
    have hword := isWord_of_mem_name hname c (List.mem_of_getLast? hc)
    rw [beq_eq_false_iff_ne]
    rintro rfl
    exact absurd hword (by decide)
  obtain ⟨end_, hend⟩ := Text.exists_append_dropWhile hlast (after ++ more)
  rw [List.append_assoc, hmore] at hend
  have hplace := Position.toOffset_isLine hwhole before.length
  rw [hcount, hcolumn] at hplace
  refine ⟨closed, after ++ (more ++ rest), hwhole.closed, hcount, ?_, ?_⟩
  · rw [← hmore]
    simp
  · rw [hplace, Text.dropReturns, hend, ← hcolumn, List.append_assoc, List.take_left]

end

theorem OccursAt.words {text name : Text} {p : Position} (h : OccursAt text name p)
    (hsize : text.byteSize < UInt32.size) : p.words = p := by
  obtain ⟨line, hline, hoccurs⟩ := h
  apply Position.words_of_lines hsize hline
  exact Nat.le_trans (Nat.le_of_lt hoccurs.lt_length) (code_isPrefix line).length_le

/-- The first declaration of a text. What is no name is never found. A name is found at the place
that comes first among those where it is declared, and not found only where there is none. The place
leads to the word `export` or `fn` with which the declaration begins, and fits in words. -/
theorem find?_first (text name : Text) :
    (isIdentifier name = false → find? text name = none) ∧
    (isIdentifier name = true →
      (∀ p, find? text name = some p ↔
        OccursAt text name p ∧ ∀ q, OccursAt text name q → p.NotAfter q) ∧
      (find? text name = none ↔ ∀ q, ¬ OccursAt text name q) ∧
      ∀ p, find? text name = some p →
        (∃ line before lead gap after closed rest : Text, text.lines[p.line]? = some line ∧
          Reads name (split line).code before lead gap after ∧ before.length = p.character ∧
          closed.Closed ∧ closed.count '\n' = p.line ∧
          text = closed ++ (before ++ (spelling lead gap name ++ rest)) ∧
          p.toOffset text = (closed ++ before).byteSize) ∧
        (text.byteSize < UInt32.size → p.words = p)) := by
  refine ⟨fun hname => by rw [find?, hname]; rfl, fun hname => ?_⟩
  refine ⟨fun p => find?_eq_some_iff hname, find?_eq_none_iff hname, fun p hp => ?_⟩
  obtain ⟨hoccurs, -⟩ := least_of_find?_eq_some hname hp
  refine ⟨?_, hoccurs.words⟩
  obtain ⟨line, hline, before, lead, gap, after, hread, hcolumn⟩ := hoccurs
  obtain ⟨closed, rest, hplace⟩ := hread.exists_place hname hline hcolumn
  exact ⟨line, before, lead, gap, after, closed, rest, hline, hread, hcolumn, hplace⟩

/-- What stands in a literal or in a comment is passed over. -/
theorem find?_first_outside :
    ∃ text name : Text, text = "s = \"fn f\" // fn f\né export fn f()".toList ∧ name = ['f'] ∧
      isIdentifier name = true ∧ find? text name = some ⟨1, 2⟩ ∧
      OccursAt text name ⟨1, 2⟩ ∧ (∀ q, OccursAt text name q → Position.NotAfter ⟨1, 2⟩ q) ∧
      Position.toOffset text ⟨1, 2⟩ = 22 ∧ text.byteSize < UInt32.size ∧
      Position.words ⟨1, 2⟩ = ⟨1, 2⟩ ∧ isIdentifier ['1'] = false ∧ find? text ['1'] = none := by
  let text : Text := "s = \"fn f\" // fn f\né export fn f()".toList
  have hname : isIdentifier ['f'] = true := by decide
  have hnumber : isIdentifier ['1'] = false := by decide
  have hfind : find? text ['f'] = some ⟨1, 2⟩ := by decide
  have hsize : text.byteSize < UInt32.size := by decide
  obtain ⟨hfirst, -, hplace⟩ := (find?_first text ['f']).2 hname
  obtain ⟨hoccurs, hleast⟩ := (hfirst ⟨1, 2⟩).1 hfind
  exact ⟨text, ['f'], rfl, rfl, hname, hfind, hoccurs, hleast, by decide, hsize,
    (hplace ⟨1, 2⟩ hfind).2 hsize, hnumber, (find?_first text ['1']).1 hnumber⟩

end Declaration

end YapAssist
