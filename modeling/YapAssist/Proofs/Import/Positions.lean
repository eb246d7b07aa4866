import YapAssist.Proofs.Import.Frame

/-!
# The places of a clause

A clause carries the lines it covers and, if it has a list, the place where a further name goes and
the place of the closing brace. All of them are read off the text from the beginning of the
statement on, and they lead back to what they stand for:

* `Import.pairwise_line_startingIn`, no two clauses start on the same line;
* `Import.endLine_lt_length_lines`, a clause ends on a line of the text;
* `Import.exists_listAt`, where the list of a clause is opened, ends and is closed;
* `Import.clauses_places`, all the places of the clauses of a text.
-/

namespace YapAssist

namespace Text

/-- What ends visibly ends on a line of the text. -/
theorem EndsVisible.count_lt_length_lines {s : Text} (h : EndsVisible s) (t : Text) :
    s.count '\n' < (lines (s ++ t)).length := by
  obtain ⟨front, line, more, back, -, -, -, hcount, hblocks⟩ := exists_blocks_insert h t
  have hcut := hblocks [] (by simp)
  rw [List.nil_append] at hcut
  rw [lines, List.length_map, hcut, List.length_append, List.length_cons, hcount]
  omega

/-- A block is its line with blanks behind it. -/
theorem exists_gap_withoutTerminator {t block : Text} {rest : List Text}
    (h : blocks t = block :: rest) : ∃ gap, Gap gap ∧ block = withoutTerminator block ++ gap := by
  obtain ⟨s, hs, rfl | ⟨rfl, -⟩⟩ := exists_of_blocks_cons h
  · by_cases hr : s.getLast? = some '\r'
    · obtain ⟨s, rfl⟩ := List.getLast?_eq_some_iff.1 hr
      refine ⟨['\r', '\n'], Import.gap_ending .returnFeed, ?_⟩
      rw [List.append_assoc, List.singleton_append, withoutTerminator_returnFeed]
    · exact ⟨['\n'], Import.gap_ending .feed, by rw [withoutTerminator_feed hr]⟩
  · exact ⟨[], gap_nil, by rw [withoutTerminator_of_not_mem hs, List.append_nil]⟩

end Text

namespace Import

open Line

/-! ## Lines -/

theorem pairwise_line_startingIn (blocks : List Text) (tail : Text) :
    (startingIn blocks tail).Pairwise fun c d => c.line < d.line := by
  induction blocks with
  | nil => exact .nil
  | cons block blocks ih =>
    -- a clause of the first block starts on the first line, all others further down
    have hlater : ((startingIn blocks tail).map (Clause.down 1)).Pairwise
        fun c d => c.line < d.line := by
      rw [List.pairwise_map]
      exact ih.imp fun hlt => Nat.add_lt_add_right hlt 1
    rw [startingIn]
    obtain hnone | ⟨here, -, hhere, hone⟩ :=
      opening_cases block ((block :: blocks).flatten ++ tail)
    · rwa [hnone, List.nil_append]
    · rw [hone, List.singleton_append, List.pairwise_cons]
      refine ⟨?_, hlater⟩
      intro d hd
      obtain ⟨body, rest, -, hbody, -⟩ := exists_spelled hhere
      obtain ⟨d, -, rfl⟩ := List.mem_map.1 hd
      show here.line < d.line + 1
      rw [hbody.line_eq]
      omega

/-- The block and the statement of a clause. -/
theorem exists_of_mem {text : Text} {c : Clause} (h : c ∈ clauses text) :
    ∃ front block rest body more, text.blocks = front ++ block :: rest ∧ isImport block = true ∧
      text = front.flatten ++ (body ++ more) ∧ body.EndsVisible ∧ c.line = front.length ∧
      c.endLine = (front.flatten ++ body).count '\n' := by
  obtain ⟨before, later, hclauses⟩ := List.append_of_mem h
  rw [clauses_eq] at hclauses
  obtain ⟨front, block, rest, here, hblocks, himport, hhere, rfl, -, -⟩ :=
    exists_of_startingIn hclauses
  rw [List.append_nil] at hhere
  obtain ⟨body, more, hbody, hspelled, -⟩ := exists_spelled hhere
  refine ⟨front, block, rest, body, more, hblocks, himport, ?_, hspelled.endsVisible, ?_, ?_⟩
  · rw [← hbody, ← List.flatten_append, ← hblocks, Text.flatten_blocks]
  · show here.line + front.length = front.length
    rw [hspelled.line_eq, Nat.zero_add]
  · show here.endLine + front.length = _
    rw [hspelled.endLine_eq, List.count_append, Text.count_feed_flatten hblocks, Nat.add_comm]

theorem exists_isImport_line {text : Text} {c : Clause} (h : c ∈ clauses text) :
    ∃ line, text.lines[c.line]? = some line ∧ isImport line = true := by
  obtain ⟨front, block, rest, -, -, hblocks, himport, -, -, hline, -⟩ := exists_of_mem h
  obtain ⟨gap, hgap, hblock⟩ :=
    Text.exists_gap_withoutTerminator (Text.blocks_flatten_of_append hblocks).2
  refine ⟨block.withoutTerminator, ?_, ?_⟩
  · rw [hline, Text.lines, hblocks, List.getElem?_map, List.getElem?_append_right (Nat.le_refl _),
      Nat.sub_self]
    rfl
  · rwa [hblock, isImport_append_gap hgap] at himport

theorem endLine_lt_length_lines {text : Text} {c : Clause} (h : c ∈ clauses text) :
    c.endLine < text.lines.length := by
  obtain ⟨front, -, -, body, more, -, -, htext, hvisible, -, hend⟩ := exists_of_mem h
  rw [hend, htext, ← List.append_assoc]
  exact (hvisible.behind _).count_lt_length_lines more

/-! ## Lists -/

/-- A list of names as it stands in a text, in a statement that starts on the line `line`: between
the brace that opens it and the next closing brace it holds `held`, which is empty or ends visibly,
and blanks. -/
structure ListAt (text : Text) (line : Nat) (opened held gap tail : Text) : Prop where
  text_eq : text = opened ++ '{' :: (held ++ (gap ++ '}' :: tail))
  opened_eq : ∃ front lead blanks : Text, front.Closed ∧ front.count '\n' = line ∧ Indent lead ∧
    blanks.Gap ∧ opened = front ++ (lead ++ (['i', 'm', 'p', 'o', 'r', 't'] ++ blanks))
  closes_first : '}' ∉ held ++ gap
  held_ends : held = [] ∨ held.EndsVisible
  isGap : gap.Gap

theorem exists_listAt {text : Text} {c : Clause} {symbols : List Text}
    {listEnd closeBrace : Position} (h : c ∈ clauses text)
    (hnames : c.names = .listed symbols listEnd closeBrace) :
    ∃ opened held gap tail, ListAt text c.line opened held gap tail ∧
      listEnd.toOffset text = (opened ++ '{' :: held).byteSize ∧
      closeBrace.toOffset text = (opened ++ '{' :: (held ++ gap)).byteSize ∧
      symbols = (((held ++ gap).splitOn ',').map Text.trim).filter fun piece => !piece.isEmpty := by
  obtain ⟨front, lead, blanks, list, tail, -, htext, hfront, hline, hlead, hblanks, hlist, -, rfl,
    rfl, rfl⟩ := exists_of_listed h hnames
  obtain ⟨gap, hgap, hcut⟩ := Text.exists_gap_trimEnd list
  have hopened : ∀ t : Text, front ++ (listHead lead blanks ++ t) =
      front ++ (lead ++ (['i', 'm', 'p', 'o', 'r', 't'] ++ blanks)) ++ '{' :: t := by
    intro t
    simp [listHead]
  have hheld : list.trimEnd = [] ∨ list.trimEnd.EndsVisible := by
    by_cases hnil : list.trimEnd = []
    · exact .inl hnil
    · have hlast := List.getLast?_eq_some_getLast hnil
      exact .inr ⟨_, hlast, list.getLast?_trimEnd_not_blank _ hlast⟩
  refine ⟨_, list.trimEnd, gap, tail,
    ⟨?_, ⟨front, lead, blanks, hfront, ?_, hlead, hblanks, rfl⟩, ?_, hheld, hgap⟩, ?_, ?_, ?_⟩
  · rw [htext, hopened, ← List.append_assoc list.trimEnd, ← hcut]
  · rw [hline, Text.length_blocks hfront]
  · rwa [← hcut]
  · -- a column can lie behind the brace or the visible character before the end of the list
    have hvisible := (endsVisible_list_end lead blanks list).behind front
    have hwhole :
        text = front ++ (listHead lead blanks ++ list.trimEnd) ++ (gap ++ '}' :: tail) := by
      rw [htext, List.append_assoc, List.append_assoc, ← List.append_assoc list.trimEnd, ← hcut]
    rw [← hopened]
    conv => lhs; rw [hwhole]
    exact Position.toOffset_ofOffset hvisible.ne_nil hvisible.column _
  · -- and one can lie before a closing brace
    have hwhole : text = front ++ (listHead lead blanks ++ list) ++ '}' :: tail := by
      rw [htext, List.append_assoc, List.append_assoc]
    rw [← hcut, ← hopened]
    conv => lhs; rw [hwhole]
    exact Position.toOffset_ofOffset_cons (by decide) (by decide) _ _
  · rw [← hcut, ← Text.cutAtEach_eq_splitOn, Text.listItems]

theorem words_of_listed {text : Text} (hsize : text.byteSize < UInt32.size) {c : Clause}
    {symbols : List Text} {listEnd closeBrace : Position} (h : c ∈ clauses text)
    (hnames : c.names = .listed symbols listEnd closeBrace) :
    listEnd.words = listEnd ∧ closeBrace.words = closeBrace := by
  obtain ⟨front, lead, blanks, list, tail, rest, -, -, -, -, -, -, -, -, hend, hbrace⟩ :=
    exists_of_listed h hnames
  rw [hend, hbrace]
  exact ⟨Position.words_ofOffset hsize _, Position.words_ofOffset hsize _⟩

/-! ## All places -/

/-- The clauses of a text go down its lines, each from an import line to a line of the text. The
places of a list lead to the end of what it holds and to its closing brace, the names are what
stands between its commas, and all places fit in words. -/
theorem clauses_places (text : Text) :
    (clauses text).Pairwise (fun c d => c.line < d.line) ∧
    ∀ c ∈ clauses text,
      (∃ line, text.lines[c.line]? = some line ∧ isImport line = true) ∧
      c.line ≤ c.endLine ∧ c.endLine < text.lines.length ∧
      (text.byteSize < UInt32.size → c.endLine < UInt32.size) ∧
      ∀ symbols listEnd closeBrace, c.names = .listed symbols listEnd closeBrace →
        (∃ opened held gap tail, ListAt text c.line opened held gap tail ∧
          listEnd.toOffset text = (opened ++ '{' :: held).byteSize ∧
          closeBrace.toOffset text = (opened ++ '{' :: (held ++ gap)).byteSize ∧
          symbols =
            (((held ++ gap).splitOn ',').map Text.trim).filter fun piece => !piece.isEmpty) ∧
        (text.byteSize < UInt32.size →
          listEnd.words = listEnd ∧ closeBrace.words = closeBrace) := by
  refine ⟨by rw [clauses_eq]; exact pairwise_line_startingIn _ _, fun c hc => ?_⟩
  have hend := endLine_lt_length_lines hc
  refine ⟨exists_isImport_line hc, line_le_endLine hc, hend, fun hsize => ?_, ?_⟩
  · have hlines := text.length_lines_le
    have hlength := text.length_le_byteSize
    omega
  · intro symbols listEnd closeBrace hnames
    exact ⟨exists_listAt hc hnames, fun hsize => words_of_listed hsize hc hnames⟩

/-- A list over several lines, with an empty piece and carriage returns before its closing brace. -/
theorem clauses_places_lines :
    ∃ (text : Text) (c d : Clause),
      text = "import \"a\";\n import\n\x7b é,\r\n ,b \r\r\n\x7d from \"m\"".toList ∧
      clauses text = [c, d] ∧ c.line < d.line ∧
      d.names = .listed [['é'], ['b']] ⟨3, 3⟩ ⟨4, 0⟩ ∧
      (∃ line, text.lines[d.line]? = some line ∧ isImport line = true) ∧ d.line ≤ d.endLine ∧
      d.endLine < text.lines.length ∧ text.byteSize < UInt32.size ∧ d.endLine < UInt32.size ∧
      ∃ opened held gap tail, ListAt text d.line opened held gap tail ∧
        Position.toOffset text ⟨3, 3⟩ = (opened ++ '{' :: held).byteSize ∧
        Position.toOffset text ⟨4, 0⟩ = (opened ++ '{' :: (held ++ gap)).byteSize ∧
        [['é'], ['b']] =
          (((held ++ gap).splitOn ',').map Text.trim).filter fun piece => !piece.isEmpty := by
  let text : Text := "import \"a\";\n import\n\x7b é,\r\n ,b \r\r\n\x7d from \"m\"".toList
  let c : Clause := ⟨['a'], .all, 0, 0⟩
  let d : Clause := ⟨['m'], .listed [['é'], ['b']] ⟨3, 3⟩ ⟨4, 0⟩, 1, 4⟩
  have hclauses : clauses text = [c, d] := by decide
  have hsize : text.byteSize < UInt32.size := by decide
  obtain ⟨hlines, hplaces⟩ := clauses_places text
  obtain ⟨himport, hle, hend, hword, hlist⟩ := hplaces d (by rw [hclauses]; simp)
  rw [hclauses, List.pairwise_pair] at hlines
  obtain ⟨⟨opened, held, gap, tail, hat, hlistEnd, hbrace, hsymbols⟩, -⟩ := hlist _ _ _ rfl
  exact ⟨text, c, d, rfl, hclauses, hlines, rfl, himport, hle, hend, hsize,
    hword hsize, opened, held, gap, tail, hat, hlistEnd, hbrace, hsymbols⟩

end Import

end YapAssist
