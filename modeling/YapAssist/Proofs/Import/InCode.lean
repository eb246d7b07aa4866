import YapAssist.Proofs.Import.Frame
import YapAssist.Proofs.Line.Mode

/-!
# Imported names and comments

An added clause starts a line, so the name it imports is code. A list is extended at the end of what
it holds, and that may be a comment: behind a last line `sign // of x` the name goes into the
comment. This happens exactly when a comment starts before the end of the list, on the line where
the list ends (`Import.commentBefore`):

* `Line.isPrefixOf_code_iff`, a name lies in the code of its line when no comment starts before it;
* `Import.inCode_insert`, what that means for a name put into a line;
* `Import.inCode_ensure`, the edit that imports a name.
-/

namespace YapAssist

/-! ## The line around a place -/

namespace Text

/-- What ends visibly is a number of whole lines and the beginning of one more. -/
theorem EndsVisible.exists_line {s : Text} (h : EndsVisible s) :
    ∃ closed before, s = closed ++ before ∧ Closed closed ∧ '\n' ∉ before ∧
      EndsVisible before := by
  induction s using lines_induction with
  | open_ s hs => exact ⟨[], s, rfl, .inl rfl, hs, h⟩
  | line u v hu ih =>
    obtain ⟨closed, before, rfl, hclosed, hbefore, hvisible⟩ := ih h.behind_feed
    exact ⟨u ++ '\n' :: closed, before, by simp, hclosed.append_feed u, hbefore, hvisible⟩

/-- The beginning of a line is a beginning of what is read of that line, if it ends visibly. -/
theorem exists_getElem?_lines {closed before : Text} (hclosed : Closed closed)
    (hbefore : '\n' ∉ before) (hvisible : before.EndsVisible) (t : Text) :
    ∃ more, (closed ++ (before ++ t)).lines[closed.count '\n']? = some (before ++ more) := by
  obtain ⟨more, rest, hblocks⟩ := exists_cons_blocks hbefore hvisible.ne_nil t
  obtain ⟨s, hs, hblock⟩ := exists_of_blocks_cons hblocks
  have hcolumns := columns_eq hs (hblock.imp id And.left)
  -- what is read of a line has at least the columns of its block
  have hprefix : before <+: withoutTerminator (before ++ more) := by
    have htake : before <+: columns (before ++ more) := by
      have h := List.take_prefix before.length (columns (before ++ more))
      rwa [take_columns hvisible.column] at h
    rw [hcolumns.1, ← hcolumns.2] at htake
    exact htake.trans (dropWhile_isPrefix _ _)
  obtain ⟨read, hread⟩ := hprefix
  refine ⟨read, ?_⟩
  rw [lines, blocks_append hclosed, hblocks, List.map_append, List.map_cons, ← hread,
    List.getElem?_append_right (by simp [length_blocks hclosed]), List.length_map,
    length_blocks hclosed, Nat.sub_self, List.getElem?_cons_zero]

end Text

/-! ## Names and comments on a line -/

namespace Line

theorem commentFree_comment {s : Text} (t : Text) (hq : (Mode.start.after s).quoted = false) :
    commentFree .start (s ++ '/' :: '/' :: t) = false := by
  rw [← Bool.not_eq_true]
  intro hfree
  have hright := commentFree_append_right hfree
  simp [commentFree, hq] at hright

/-- A text has a comment unless none starts in it. -/
theorem isEmpty_comment (line : Text) : (split line).comment.isEmpty = commentFree .start line := by
  obtain ⟨hfree, hsplit⟩ | ⟨s, t, rfl, -, hq, hsplit⟩ := split_cases line
  · rw [hsplit, hfree]
    rfl
  · obtain ⟨rest, hrest⟩ := exists_comment_trimEnd t
    rw [hsplit, commentFree_comment t hq, hrest]
    rfl

/-- Where no comment starts, the code goes on at least to the last visible character. -/
theorem isPrefix_code {s : Text} (hfree : commentFree .start s = true)
    (hvisible : s.EndsVisible) (hslash : s.getLast? ≠ some '/') (t : Text) :
    s <+: (split (s ++ t)).code := by
  have htrim : ∀ more, s <+: Text.trimEnd (s ++ more) := by
    intro more
    obtain ⟨kept, hkept⟩ := Text.exists_append_dropWhile hvisible.last more
    rw [Text.trimEnd, hkept]
    exact List.prefix_append _ _
  obtain ⟨-, hsplit⟩ | ⟨u, v, hline, -, hq, hsplit⟩ := split_cases (s ++ t)
  · rw [hsplit]
    exact htrim t
  · rw [hsplit]
    obtain ⟨mid, rfl, -⟩ | ⟨mid, rfl, hmid⟩ := List.append_eq_append_iff.1 hline
    · exact htrim mid
    · -- a comment that starts further left starts in `s`, or with its last character
      cases mid with
      | nil => simpa using htrim []
      | cons c mid =>
        obtain ⟨rfl, hrest⟩ := List.cons.inj hmid
        cases mid with
        | nil => exact absurd List.getLast?_concat hslash
        | cons d mid =>
          obtain ⟨rfl, -⟩ := List.cons.inj hrest
          rw [commentFree_comment mid hq] at hfree
          exact absurd hfree (by simp)

/-- A name lies in the code of its line exactly when no comment starts before it. -/
theorem isPrefixOf_code_iff {before name : Text} (hname : isIdentifier name = true) (more : Text) :
    name.isPrefixOf ((split (before ++ (name ++ more))).code.drop before.length) = true ↔
      commentFree .start before = true := by
  have hplain : Mode.Plain name := by
    intro c hc
    refine ⟨?_, ?_, ?_⟩ <;> rintro rfl <;> exact not_mem_of_isIdentifier hname (by decide) hc
  have hvisible := Text.endsVisible_of_isIdentifier hname
  rw [List.isPrefixOf_iff_prefix]
  constructor
  · intro hprefix
    rw [← Bool.not_eq_false]
    intro hcomment
    -- the code ends where the comment starts, before the name
    obtain ⟨s, rest, rfl, hfree, hq⟩ := exists_comment_of_not_commentFree hcomment
    have hcut : s ++ '/' :: '/' :: rest ++ (name ++ more) =
        s ++ '/' :: '/' :: (rest ++ (name ++ more)) := by simp
    have hshort : s.trimEnd.length ≤ s.length := (Text.dropWhile_isPrefix _ s).length_le
    rw [hcut, split_comment _ hfree hq, List.drop_of_length_le (by simp; omega),
      List.prefix_nil] at hprefix
    exact (isIdentifier_chars hname).1 hprefix
  · intro hfree
    have hfreeName : commentFree .start (before ++ name) = true :=
      commentFree_append hfree (hplain.commentFree _) (.inr hplain.head?_ne)
    have hslash : (before ++ name).getLast? ≠ some '/' := by
      rw [Text.getLast?_append_right hvisible.ne_nil]
      exact hplain.getLast?_ne
    obtain ⟨kept, hkept⟩ := isPrefix_code hfreeName (hvisible.behind before) hslash more
    rw [← List.append_assoc, ← hkept, List.append_assoc, List.drop_left]
    exact List.prefix_append _ _

end Line

namespace Import

open Line

/-! ## Names and comments in a text -/

/-- Whether a name stands at a place of a text, in the code of the line. -/
def inCode (text : Text) (p : Position) (name : Text) : Bool :=
  (text.lines[p.line]?).any fun line => name.isPrefixOf ((split line).code.drop p.character)

/-- Whether a comment starts before a place of a text, on the same line. -/
def commentBefore (text : Text) (p : Position) : Bool :=
  (text.lines[p.line]?).any fun line => !(split (line.take p.character)).comment.isEmpty

/-- The place where the first list of a module's names in a text ends. -/
def listEnd? (text module : Text) : Option Position :=
  (listed ((clauses text).filter fun c => sameModule c.module module)).head?.map Prod.snd

/-- What stands before the name in a clause of its own. -/
def clauseLead : Text := ['i', 'm', 'p', 'o', 'r', 't', ' ', '{', ' ']

/-- What stands before the name in the text of an edit that imports it: a separator in a list, or
the beginning of a clause that starts a line. -/
def IsLead (lead : Text) : Prop :=
  lead = [' '] ∨ lead = [',', ' '] ∨ lead = clauseLead ∨
    ∃ ending : LineEnding, lead = ending.text ++ clauseLead

theorem inCode_iff {closed before name : Text} (hclosed : closed.Closed) (hbefore : '\n' ∉ before)
    (hname : isIdentifier name = true) (more : Text) :
    inCode (closed ++ (before ++ (name ++ more))) ⟨closed.count '\n', before.length⟩ name = true ↔
      commentFree .start before = true := by
  have hfeed : '\n' ∉ name := not_mem_of_isIdentifier hname (by decide)
  obtain ⟨read, hread⟩ := Text.exists_getElem?_lines hclosed (by simp [hbefore, hfeed])
    ((Text.endsVisible_of_isIdentifier hname).behind before) more
  rw [List.append_assoc, List.append_assoc] at hread
  rw [inCode, hread, Option.any_some, isPrefixOf_code_iff hname]

theorem commentBefore_eq {closed before : Text} (hclosed : closed.Closed) (hbefore : '\n' ∉ before)
    (hvisible : before.EndsVisible) (t : Text) :
    commentBefore (closed ++ (before ++ t)) ⟨closed.count '\n', before.length⟩ =
      !commentFree .start before := by
  obtain ⟨read, hread⟩ := Text.exists_getElem?_lines hclosed hbefore hvisible t
  rw [commentBefore, hread, Option.any_some, List.take_left, isEmpty_comment]

/-- A name that is put into a line lies in a comment exactly when one starts before it. -/
theorem inCode_insert {s lead symbol : Text} (hs : isIdentifier symbol = true)
    (hvisible : s.EndsVisible) (hlead : Mode.Plain lead) (hfeed : '\n' ∉ lead) (t : Text) :
    inCode (s ++ (lead ++ symbol) ++ t)
        (Position.ofOffset (s ++ (lead ++ symbol) ++ t) (s.byteSize + lead.byteSize)) symbol =
          true ↔
      commentBefore (s ++ t) (Position.ofOffset (s ++ t) s.byteSize) = false := by
  obtain ⟨closed, before, rfl, hclosed, hbefore, hline⟩ := hvisible.exists_line
  have hlong : '\n' ∉ before ++ lead := by simp [hbefore, hfeed]
  have htext : closed ++ before ++ (lead ++ symbol) ++ t =
      closed ++ ((before ++ lead) ++ (symbol ++ t)) := by simp
  have hsize : (closed ++ before).byteSize + lead.byteSize =
      (closed ++ (before ++ lead)).byteSize := by simp [Nat.add_assoc]
  rw [htext, hsize, Position.ofOffset_closed hclosed hlong, inCode_iff hclosed hlong hs,
    List.append_assoc, Position.ofOffset_closed hclosed hbefore,
    commentBefore_eq hclosed hbefore hline, Bool.not_eq_false']
  constructor
  · exact commentFree_append_left
  · intro hfree
    exact commentFree_append hfree (hlead.commentFree _) (.inr hlead.head?_ne)

/-! ## The two insertions -/

/-- A name at the end of a list lies in a comment exactly when one starts before the end of the
list. -/
theorem inCode_of_extended {text symbol lead : Text} (hs : isIdentifier symbol = true)
    (hlead : Mode.Plain lead) (hfeed : '\n' ∉ lead) {c : Clause} (hc : c ∈ clauses text)
    {symbols : List Text} {listEnd closeBrace : Position}
    (hnames : c.names = .listed symbols listEnd closeBrace) :
    ∃ after, Edit.applyAll? text [.insert listEnd (lead ++ symbol)] = some after ∧
      (inCode after (Position.ofOffset after (listEnd.toOffset text + lead.byteSize)) symbol =
          true ↔
        commentBefore text listEnd = false) := by
  obtain ⟨front, indent, gap, list, tail, rest, htext, -, -, -, -, -, -, -, hend, -⟩ :=
    exists_of_listed hc hnames
  obtain ⟨back, -, hcut⟩ := Text.exists_gap_trimEnd list
  have hvisible := (endsVisible_list_end indent gap list).behind front
  have hwhole : text = front ++ (listHead indent gap ++ list.trimEnd) ++ (back ++ '}' :: tail) := by
    rw [htext]
    conv => lhs; rw [hcut]
    simp
  generalize front ++ (listHead indent gap ++ list.trimEnd) = s at hvisible hwhole hend
  -- a column can lie behind a visible character, so the name goes where the list ends
  have hplace := Position.toOffset_ofOffset hvisible.ne_nil hvisible.column (back ++ '}' :: tail)
  rw [hend, hwhole, hplace]
  exact ⟨_, Edit.applyAll?_insert hplace _, inCode_insert hs hvisible hlead hfeed _⟩

theorem clauseText_eq_lead (symbol module : Text) : clauseText symbol module =
    clauseLead ++ (symbol ++ ([' ', '}', ' ', 'f', 'r', 'o', 'm', ' ', '"'] ++ module ++
      ['"', ';'])) := by
  rw [clauseText_eq, clauseLead]
  simp

/-- A clause at the beginning of a line has its name in the code. -/
theorem inCode_clause {front symbol : Text} (hs : isIdentifier symbol = true)
    (hfront : front.Closed) (tail : Text) :
    inCode (front ++ (clauseLead ++ (symbol ++ tail)))
      (Position.ofOffset (front ++ (clauseLead ++ (symbol ++ tail)))
        (front ++ clauseLead).byteSize) symbol = true := by
  have hfeed : '\n' ∉ clauseLead := by decide
  rw [Position.ofOffset_closed hfront hfeed, inCode_iff hfront hfeed hs]
  decide

theorem inCode_of_addClause {text symbol : Text} (hs : isIdentifier symbol = true) (module : Text)
    (cs : List Clause) :
    ∃ p lead tail after, addClause text symbol module cs = .insert p (lead ++ symbol ++ tail) ∧
      IsLead lead ∧ Edit.applyAll? text [.insert p (lead ++ symbol ++ tail)] = some after ∧
      inCode after (Position.ofOffset after (p.toOffset text + lead.byteSize)) symbol = true := by
  rw [addClause, clauseText_eq_lead]
  generalize [' ', '}', ' ', 'f', 'r', 'o', 'm', ' ', '"'] ++ module ++ ['"', ';'] = source
  split
  · next p _ =>
    -- the line ending before the clause starts a line
    obtain ⟨s, t, htext, hplace⟩ := Position.exists_toOffset text p
    generalize LineEnding.ofText text = ending
    have hcode := inCode_clause hs (closed_append_ending s ending) (source ++ t)
    subst htext
    refine ⟨p, ending.text ++ clauseLead, source, _, by simp, .inr (.inr (.inr ⟨ending, rfl⟩)),
      Edit.applyAll?_insert hplace _, ?_⟩
    rw [hplace]
    simpa using hcode
  · have hplace : Position.start.toOffset ([] ++ text) = Text.byteSize [] :=
      Position.toOffset_start text
    have hcode := fun t => inCode_clause hs (.inl rfl : Text.Closed []) (source ++ t)
    generalize hending : (if text.isEmpty then [] else (LineEnding.ofText text).text) = ending
    refine ⟨.start, clauseLead, source ++ ending, _, ?_, .inr (.inr (.inl rfl)),
      Edit.applyAll?_insert hplace _, ?_⟩
    · rw [← hending]
      split <;> simp
    · rw [List.nil_append] at hplace
      rw [hplace]
      simpa using hcode (ending ++ text)

/-! ## The edit -/

theorem listEnd?_eq_none {text module : Text}
    (h : ∀ d ∈ clauses text, sameModule d.module module = false) : listEnd? text module = none := by
  rw [listEnd?, List.filter_eq_nil_iff.2 (by simpa using h)]
  rfl

theorem listEnd?_of_first {text module : Text} {before later : List Clause} {c : Clause}
    (hclauses : clauses text = before ++ c :: later)
    (hbefore : ∀ d ∈ before, sameModule d.module module = false)
    (hmodule : sameModule c.module module = true) {symbols : List Text}
    {listEnd closeBrace : Position} (hnames : c.names = .listed symbols listEnd closeBrace) :
    listEnd? text module = some listEnd := by
  rw [listEnd?, hclauses, List.filter_append, List.filter_eq_nil_iff.2 (by simpa using hbefore),
    List.nil_append, List.filter_cons, if_pos hmodule, listed, List.filterMap_cons, hnames]
  rfl

/-- The edit that imports a name inserts it in the code of a line, unless a list of the module's
names is extended and a comment starts before the end of that list, on the same line. -/
theorem inCode_ensure (text symbol module : Text) (h : ensure text symbol module ≠ []) :
    ∃ p lead tail after, ensure text symbol module = [.insert p (lead ++ symbol ++ tail)] ∧
      IsLead lead ∧ Edit.applyAll? text (ensure text symbol module) = some after ∧
      (inCode after (Position.ofOffset after (p.toOffset text + lead.byteSize)) symbol = true ↔
        ∀ place ∈ listEnd? text module, commentBefore text place = false) := by
  have hs := isIdentifier_of_ensure h
  obtain ⟨hnothing, -⟩ | ⟨before, c, later, hclauses, hbefore, hmodule, symbols, listEnd,
    closeBrace, hnames, hensure⟩ | ⟨hnone, hensure⟩ := ensure_split text module hs
  · exact absurd hnothing h
  · have hc : c ∈ clauses text := by simp [hclauses]
    generalize hlead : (if symbols.isEmpty then [' '] else [',', ' ']) = lead at hensure
    have hshape : IsLead lead ∧ Mode.Plain lead ∧ '\n' ∉ lead := by
      rw [← hlead]
      split
      · exact ⟨.inl rfl, by decide, by decide⟩
      · exact ⟨.inr (.inl rfl), by decide, by decide⟩
    obtain ⟨after, happly, hiff⟩ := inCode_of_extended hs hshape.2.1 hshape.2.2 hc hnames
    refine ⟨listEnd, lead, [], after, by rw [hensure, List.append_nil], hshape.1,
      by rw [hensure, happly], ?_⟩
    rw [hiff, listEnd?_of_first hclauses hbefore hmodule hnames]
    simp
  · obtain ⟨p, lead, tail, after, hadd, hlead, happly, hcode⟩ :=
      inCode_of_addClause hs module (clauses text)
    refine ⟨p, lead, tail, after, by rw [hensure, hadd], hlead, by rw [hensure, hadd, happly], ?_⟩
    rw [hcode, listEnd?_eq_none hnone]
    simp

/-- A list that has its comment on another line than its end. -/
theorem inCode_ensure_earlier_comment :
    ∃ text : Text, text = "import \x7b // of x\n  a\n\x7d from \"m\"".toList ∧
      ensure text ['b'] ['m'] ≠ [] ∧
      ∃ p lead tail after, ensure text ['b'] ['m'] = [.insert p (lead ++ ['b'] ++ tail)] ∧
        IsLead lead ∧ Edit.applyAll? text (ensure text ['b'] ['m']) = some after ∧
        inCode after (Position.ofOffset after (p.toOffset text + lead.byteSize)) ['b'] = true := by
  refine ⟨_, rfl, ?_⟩
  have hne : ensure "import \x7b // of x\n  a\n\x7d from \"m\"".toList ['b'] ['m'] ≠ [] := by
    decide +kernel
  obtain ⟨p, lead, tail, after, hensure, hlead, happly, hiff⟩ := inCode_ensure _ _ _ hne
  exact ⟨hne, p, lead, tail, after, hensure, hlead, happly, hiff.2 (by decide +kernel)⟩

/-- A comment behind the last name of a list takes in the name that is added. -/
theorem inCode_ensure_comment_at_end :
    ∃ text after : Text,
      text = "import \x7b\n    sign // of x\n\x7d from \"std/Math\";\n".toList ∧
      ensure text "abs".toList "std/Math".toList =
        [.insert ⟨1, 16⟩ ([',', ' '] ++ "abs".toList)] ∧
      Edit.applyAll? text (ensure text "abs".toList "std/Math".toList) = some after ∧
      inCode after
        (Position.ofOffset after (Position.toOffset text ⟨1, 16⟩ + Text.byteSize [',', ' ']))
        "abs".toList = false :=
  ⟨_, "import \x7b\n    sign // of x, abs\n\x7d from \"std/Math\";\n".toList, rfl,
    by decide +kernel⟩

end Import

end YapAssist
