import YapAssist.Proofs.Import.Ensure
import YapAssist.Proofs.Import.Orderly

/-!
# Importing a name changes one clause

The edits for a name put a text into another one, and the clauses are then read anew from the whole
of it. In an orderly text the result is as one would wish (`Import.ensure_one_change`):

* `Import.Extended`, the first clause for the module has the name at the end of its list, and all
  others are the same;
* `Import.Added`, there is one clause more, and the old ones are the same, those below it one line
  further down.
-/

namespace YapAssist.Import

open Line

/-! ## Extending a list -/

/-- The clauses of a text before and after a name was added to the list of its first clause for a
module. The ends of the list move on their lines only. -/
def Extended (symbol module : Text) (old new : List Clause) : Prop :=
  ∃ before c later symbols listEnd closeBrace listEnd' closeBrace',
    old = before ++ c :: later ∧ (∀ d ∈ before, sameModule d.module module = false) ∧
    sameModule c.module module = true ∧ c.names = .listed symbols listEnd closeBrace ∧
    listEnd'.line = listEnd.line ∧ closeBrace'.line = closeBrace.line ∧
    new = before ++ { c with names := .listed (symbols ++ [symbol]) listEnd' closeBrace' } :: later

theorem endsVisible_list_end (lead gap list : Text) :
    Text.EndsVisible (listHead lead gap ++ list.trimEnd) := by
  have hne : listHead lead gap ++ list.trimEnd ≠ [] := by simp [listHead]
  have hlast := List.getLast?_eq_some_getLast hne
  exact ⟨_, hlast, @isBlank_of_list_end [] lead gap list _ hlast⟩

/-- What is put into a list stays on its line, ends visibly and ends the word before it. -/
theorem addition_shape {symbol : Text} (hs : isIdentifier symbol = true) (symbols : List Text) :
    '\n' ∉ (if symbols.isEmpty then [' '] else [',', ' ']) ++ symbol ∧
      Text.EndsVisible ((if symbols.isEmpty then [' '] else [',', ' ']) ++ symbol) ∧
      ∀ rest, endsWord ((if symbols.isEmpty then [' '] else [',', ' ']) ++ symbol ++ rest) =
        true := by
  have hfeed : '\n' ∉ symbol := not_mem_of_isIdentifier hs (by decide)
  refine ⟨?_, (Text.endsVisible_of_isIdentifier hs).behind _, ?_⟩
  · split <;> simp [hfeed]
  · intro rest
    split
    · show (!isWord ' ') = true
      decide
    · show (!isWord ',') = true
      decide

/-- A statement whose list is extended by a name is the same clause with one name more. -/
theorem spelled_extended {lead gap list back tail symbol module : Text}
    (hs : isIdentifier symbol = true) (hlead : Indent lead) (hgap : gap.Gap) (hlist : '}' ∉ list)
    (htail : QuotedFrom module tail) (hback : back.Gap) (hcut : list = list.trimEnd ++ back) :
    ∃ listEnd closeBrace,
      listEnd.line = (Position.behind (listHead lead gap ++ list.trimEnd)).line ∧
      closeBrace.line = (Position.behind (listHead lead gap ++ list)).line ∧
      Spelled (listHead lead gap ++ (list.trimEnd ++
          ((if list.listItems.isEmpty then [' '] else [',', ' ']) ++ symbol ++ back) ++
          '}' :: tail))
        { module := module
          names := .listed (list.listItems ++ [symbol]) listEnd closeBrace
          line := 0
          endLine := (listHead lead gap ++ (list ++ '}' :: tail)).count '\n' } := by
  have hspelled := Spelled.listed hlead hgap (closing_not_mem_extended hs hlist hback hcut) htail
  rw [listItems_extended hs list hback hcut] at hspelled
  rcases addition_shape hs list.listItems with ⟨hfeed, hvisible, -⟩
  generalize (if list.listItems.isEmpty then [' '] else [',', ' ']) ++ symbol = new at *
  have htrim : Text.trimEnd (list.trimEnd ++ (new ++ back)) = list.trimEnd ++ new := by
    rw [← List.append_assoc, hback.trimEnd_append]
    apply Text.trimEnd_eq_self
    rcases hvisible.behind list.trimEnd with ⟨c, hlast, hc⟩
    intro d hd
    rw [Option.mem_def, hlast, Option.some.injEq] at hd
    rwa [← hd]
  have hcount : (list.trimEnd ++ (new ++ back)).count '\n' = list.count '\n' := by
    conv => rhs; rw [hcut]
    simp only [List.count_append, List.count_eq_zero_of_not_mem hfeed, Nat.zero_add]
  have hend : (listHead lead gap ++ (list.trimEnd ++ (new ++ back) ++ '}' :: tail)).count '\n' =
      (listHead lead gap ++ (list ++ '}' :: tail)).count '\n' := by
    rw [List.count_append, List.count_append, hcount, List.count_append, List.count_append]
  rw [hend] at hspelled
  refine ⟨_, _, ?_, ?_, hspelled⟩
  · rw [Position.line_behind, Position.line_behind, htrim, List.count_append, List.count_append,
      List.count_append, List.count_eq_zero_of_not_mem hfeed, Nat.add_zero]
  · rw [Position.line_behind, Position.line_behind, List.count_append, hcount, List.count_append]

/-- What follows a statement does not keep it from being read as its extended clause. -/
theorem clauseAt?_extended {lead gap list back tail symbol module rest : Text}
    (hs : isIdentifier symbol = true) (hlead : Indent lead) (hgap : gap.Gap) (hlist : '}' ∉ list)
    (htail : QuotedFrom module tail) (hback : back.Gap) (hcut : list = list.trimEnd ++ back)
    (hends : Ends (listHead lead gap ++ (list ++ '}' :: tail)) rest) :
    ∃ listEnd closeBrace,
      listEnd.line = (Position.behind (listHead lead gap ++ list.trimEnd)).line ∧
      closeBrace.line = (Position.behind (listHead lead gap ++ list)).line ∧
      clauseAt? ((listHead lead gap ++ list.trimEnd) ++
          ((if list.listItems.isEmpty then [' '] else [',', ' ']) ++ symbol ++
            (back ++ '}' :: (tail ++ rest)))) = some
        { module := module
          names := .listed (list.listItems ++ [symbol]) listEnd closeBrace
          line := 0
          endLine := (listHead lead gap ++ (list ++ '}' :: tail)).count '\n' } := by
  rcases spelled_extended hs hlead hgap hlist htail hback hcut with
    ⟨listEnd, closeBrace, hlistEnd, hcloseBrace, hspelled⟩
  have hread := clauseAt?_append hspelled
    ((htail.ends_iff lead gap _ rest).2 ((htail.ends_iff lead gap list rest).1 hends))
  refine ⟨listEnd, closeBrace, hlistEnd, hcloseBrace, ?_⟩
  rw [← hread]
  simp

/-- An insertion into a line of a clause changes that clause only, if no other one starts inside. -/
theorem startingIn_insert {block line more new : Text} {rest inner back : List Text} {here : Clause}
    (himport : isImport block = true) (hinner : block :: rest = inner ++ (line ++ more) :: back)
    (hnone : ∀ b ∈ (inner ++ [line ++ more]).tail, isImport b = false) (hline : line.EndsVisible)
    (hmore : endsWord more = true) (hnew : endsWord (new ++ more) = true)
    (hhere : clauseAt? (inner ++ (line ++ (new ++ more)) :: back).flatten = some here) :
    startingIn (inner ++ (line ++ (new ++ more)) :: back) [] =
      here :: (startingIn rest []).map (Clause.down 1) := by
  have hsame : isImport (line ++ (new ++ more)) = isImport (line ++ more) := by
    rw [isImport_append hline hnew, isImport_append hline hmore]
  cases inner with
  | nil =>
    rw [List.nil_append, List.cons.injEq] at hinner
    rcases hinner with ⟨rfl, rfl⟩
    rw [List.nil_append] at hhere ⊢
    rw [startingIn, opening, List.append_nil, hsame, if_pos himport, hhere]
    rfl
  | cons b inner =>
    rw [List.cons_append, List.cons.injEq] at hinner
    rcases hinner with ⟨rfl, rfl⟩
    -- the line is not the first of the clause, and it starts nothing with or without `new`
    have hnone' : ∀ b ∈ inner ++ [line ++ (new ++ more)], isImport b = false := by
      intro b hb
      rcases List.mem_append.1 hb with hb | hb
      · exact hnone b (List.mem_append_left _ hb)
      · rw [List.mem_singleton.1 hb, hsame]
        exact hnone _ (List.mem_append_right _ (List.mem_singleton_self _))
    have hlater : startingIn (inner ++ (line ++ (new ++ more)) :: back) [] =
        startingIn (inner ++ (line ++ more) :: back) [] := by
      rw [startingIn_skip hnone', startingIn_skip hnone]
    rw [List.cons_append] at hhere ⊢
    rw [startingIn, opening, List.append_nil, if_pos himport, hhere, hlater]
    rfl

/-- A text that is put into a line of a clause, behind a visible character, changes that clause
only. -/
theorem Orderly.clauses_insert {text block s t new : Text} {front rest : List Text}
    {here here' : Clause} (h : Orderly text) (hblocks : text.blocks = front ++ block :: rest)
    (himport : isImport block = true) (hc : here.down front.length ∈ clauses text)
    (hzero : here.line = 0) (hfound : (block :: rest).flatten = s ++ t) (hs : s.EndsVisible)
    (hend : s.count '\n' ≤ here.endLine) (hfeed : '\n' ∉ new) (ht : endsWord t = true)
    (hnew : endsWord (new ++ t) = true) (hhere : clauseAt? (s ++ (new ++ t)) = some here') :
    clauses (front.flatten ++ (s ++ (new ++ t))) = startingIn front (block :: rest).flatten ++
      here'.down front.length :: (startingIn rest []).map (Clause.down (front.length + 1)) := by
  rcases Text.exists_blocks_insert hs t with
    ⟨inner, line, more, back, hline, -, rfl, hcount, hinsert⟩
  have hinner : block :: rest = inner ++ (line ++ more) :: back := by
    rw [← (Text.blocks_flatten_of_append hblocks).2, hfound]
    exact hinsert [] (by simp)
  have hblocks' : Text.blocks (front.flatten ++ (s ++ (new ++ (more ++ back.flatten)))) =
      front ++ (inner ++ (line ++ (new ++ more)) :: back) := by
    rw [Text.blocks_append (Text.closed_flatten_of_blocks hblocks), hinsert new hfeed,
      (Text.blocks_flatten_of_append hblocks).1]
  have hfound' : s ++ (new ++ (more ++ back.flatten)) =
      (inner ++ (line ++ (new ++ more)) :: back).flatten := by
    rw [← hinsert new hfeed, Text.flatten_blocks]
  have hnone : ∀ b ∈ (inner ++ [line ++ more]).tail, isImport b = false := by
    have hrest : rest = (inner ++ [line ++ more]).tail ++ back := by
      cases inner with
      | nil => simpa using congrArg List.tail hinner
      | cons b inner => simpa using congrArg List.tail hinner
    rw [hrest] at hblocks
    apply h.isImport_inside hblocks hc hzero
    rw [List.length_tail, List.length_append, List.length_singleton]
    omega
  have hmore : endsWord more = true := endsWord_of_isPrefix (List.prefix_append _ _) ht
  have hnewMore : endsWord (new ++ more) = true := by
    rw [← List.append_assoc] at hnew
    exact endsWord_of_isPrefix (List.prefix_append _ _) hnew
  have hclause := startingIn_insert himport hinner hnone hline hmore hnewMore
    (by rw [← hfound']; exact hhere)
  have hbefore : startingIn front (s ++ (new ++ (more ++ back.flatten))) =
      startingIn front (block :: rest).flatten := by
    rcases exists_spelled hhere with ⟨body, behind, hcut, hbody, -⟩
    apply h.startingIn_front hblocks hc
    · show here.line + front.length = front.length
      rw [hzero, Nat.zero_add]
    · rw [hcut, hbody.head?_trimStart]
      decide
  rw [clauses_eq, hblocks', startingIn_append, List.append_nil, ← hfound', hbefore, hclause,
    List.map_cons, map_down_down, Nat.add_comm 1]

theorem applyAll?_extended {front lead gap list back tail : Text} (hfront : front.Closed)
    (hcut : list = list.trimEnd ++ back) (new : Text) :
    Edit.applyAll? (front ++ (listHead lead gap ++ (list ++ '}' :: tail)))
        [.insert ((Position.behind (listHead lead gap ++ list.trimEnd)).down (front.count '\n'))
          new] =
      some (front ++ ((listHead lead gap ++ list.trimEnd) ++ (new ++ (back ++ '}' :: tail)))) := by
  have hplace := Position.ofOffset_behind hfront (listHead lead gap ++ list.trimEnd)
    (back ++ '}' :: tail)
  have htext : front ++ ((listHead lead gap ++ list.trimEnd) ++ (back ++ '}' :: tail)) =
      front ++ (listHead lead gap ++ (list ++ '}' :: tail)) := by
    conv => rhs; rw [hcut]
    simp
  rw [htext] at hplace
  rw [← hplace, applyAll?_listEnd hcut]
  simp

/-- A name at the end of the list of a clause changes that clause only. -/
theorem Orderly.extended {text symbol : Text} (h : Orderly text) (hs : isIdentifier symbol = true)
    {before later : List Clause} {c : Clause} (hclauses : clauses text = before ++ c :: later)
    {symbols : List Text} {listEnd closeBrace : Position}
    (hnames : c.names = .listed symbols listEnd closeBrace) :
    ∃ after listEnd' closeBrace',
      Edit.applyAll? text
        [.insert listEnd ((if symbols.isEmpty then [' '] else [',', ' ']) ++ symbol)] =
          some after ∧
      listEnd'.line = listEnd.line ∧ closeBrace'.line = closeBrace.line ∧
      clauses after = before ++
        { c with names := .listed (symbols ++ [symbol]) listEnd' closeBrace' } :: later := by
  have hc : c ∈ clauses text := by
    rw [hclauses]
    exact List.mem_append_right _ List.mem_cons_self
  rw [clauses_eq] at hclauses
  rcases exists_of_startingIn hclauses with
    ⟨front, block, rest, here, hblocks, himport, hhere, rfl, rfl, rfl⟩
  rw [List.append_nil] at hhere
  rcases exists_spelled hhere with ⟨body, tail, hfound, hbody, hends⟩
  cases hbody with
  | all hlead hsource => simp [Clause.down, Names.down] at hnames
  | @listed lead gap list module source hlead hgap hlist hsource =>
    simp only [Clause.down, Names.down, Names.listed.injEq] at hnames
    rcases hnames with ⟨rfl, rfl, rfl⟩
    rcases Text.exists_gap_trimEnd list with ⟨back, hback, hcut⟩
    rcases clauseAt?_extended hs hlead hgap hlist hsource hback hcut hends with
      ⟨listEnd, closeBrace, hlistEnd, hcloseBrace, hread⟩
    rcases addition_shape hs list.listItems with ⟨hfeed, -, hword⟩
    generalize (if list.listItems.isEmpty then [' '] else [',', ' ']) ++ symbol = new at *
    have htext : text = front.flatten ++
        (listHead lead gap ++ (list ++ '}' :: (source ++ tail))) := by
      rw [← Text.flatten_blocks text, hblocks, List.flatten_append, hfound]
      simp
    have happly := @applyAll?_extended front.flatten lead gap list back (source ++ tail)
      (Text.closed_flatten_of_blocks hblocks) hcut new
    rw [← htext, Text.count_feed_flatten hblocks] at happly
    refine ⟨_, listEnd.down front.length, closeBrace.down front.length, happly, ?_, ?_, ?_⟩
    · show listEnd.line + front.length = _
      rw [hlistEnd]
      rfl
    · show closeBrace.line + front.length = _
      rw [hcloseBrace]
      rfl
    · have hcutFound : (block :: rest).flatten =
          (listHead lead gap ++ list.trimEnd) ++ (back ++ '}' :: (source ++ tail)) := by
        rw [hfound]
        conv => lhs; rw [hcut]
        simp
      have hend : (listHead lead gap ++ list.trimEnd).count '\n' ≤
          (listHead lead gap ++ (list ++ '}' :: source)).count '\n' := by
        apply List.Sublist.count_le
        conv => rhs; rw [hcut]
        simp
      have hclauses' := h.clauses_insert hblocks himport hc rfl hcutFound
        (endsVisible_list_end lead gap list) hend hfeed
        (endsWord_gap_append hback (by decide) _) (hword _) hread
      rw [hclauses', List.append_nil]
      rfl

/-! ## Adding a clause -/

/-- The clauses of a text before and after a clause for a module was put in that lists one name. The
new one takes a line of its own, and what was below it goes one line down. -/
def Added (symbol module : Text) (old new : List Clause) : Prop :=
  ∃ before added later, old = before ++ later ∧
    (∀ d ∈ old, sameModule d.module module = false) ∧
    added.module = module ∧
    (∃ listEnd closeBrace, added.names = .listed [symbol] listEnd closeBrace) ∧
    added.endLine = added.line ∧
    (∀ d ∈ before, d.endLine < added.line) ∧ (∀ d ∈ later, added.line ≤ d.line) ∧
    new = before ++ added :: later.map (Clause.down 1)

theorem feed_not_mem_clauseText {symbol module : Text} (hs : isIdentifier symbol = true)
    (hline : '\n' ∉ module) : '\n' ∉ clauseText symbol module := by
  have hsymbol : '\n' ∉ symbol := not_mem_of_isIdentifier hs (by decide)
  rw [clauseText_eq]
  simp [hsymbol, hline]

theorem spelled_clauseText {symbol module : Text} (hs : isIdentifier symbol = true)
    (hm : '"' ∉ module) (hline : '\n' ∉ module) :
    ∃ listEnd closeBrace, Spelled (clauseText symbol module)
      ⟨module, .listed [symbol] listEnd closeBrace, 0, 0⟩ := by
  have hindent : Indent [] := by simp [Indent]
  have hlist : '}' ∉ [' '] ++ symbol ++ [' '] := by
    simp [not_mem_of_isIdentifier hs (show isNameChar '}' = false by decide)]
  have hspelled := Spelled.listed hindent Text.gap_space hlist (quotedFrom_clause hm)
  have hbody : listHead [] [' '] ++ ([' '] ++ symbol ++ [' '] ++
      '}' :: ([' ', 'f', 'r', 'o', 'm', ' ', '"'] ++ (module ++ ['"', ';']))) =
      clauseText symbol module := by
    have hcut := clauseText_append symbol module []
    rw [List.append_nil] at hcut
    rw [hcut]
    simp
  rw [hbody, listItems_name hs Text.gap_space Text.gap_space,
    List.count_eq_zero_of_not_mem (feed_not_mem_clauseText hs hline)] at hspelled
  exact ⟨_, _, hspelled⟩

/-- A clause of its own is read where it stands, and no other one is read differently for it. -/
theorem startingIn_clauseText {symbol module gap : Text} {c : Clause}
    (hspelled : Spelled (clauseText symbol module) c) (hgap : gap.Gap) (back : List Text) :
    startingIn ((clauseText symbol module ++ gap) :: back) [] =
      c :: (startingIn back []).map (Clause.down 1) := by
  have himport : isImport (clauseText symbol module ++ gap) = true := by
    have hword : Text.EndsVisible ['i', 'm', 'p', 'o', 'r', 't'] := ⟨'t', rfl, by decide⟩
    have hcut : clauseText symbol module = ['i', 'm', 'p', 'o', 'r', 't'] ++ (clauseText symbol
        module).drop 6 := rfl
    have hends : endsWord ((clauseText symbol module).drop 6) = true := by
      show (!isWord ' ') = true
      decide
    rw [isImport_append_gap hgap, hcut, isImport_append hword hends]
    decide
  have hends : Ends (clauseText symbol module) (gap ++ back.flatten) := by
    left
    rw [clauseText_eq, Text.getLast?_append_right (by simp)]
    rfl
  rw [startingIn, opening, if_pos himport, List.flatten_cons, List.append_nil, List.append_assoc,
    clauseAt?_append hspelled hends]
  rfl

theorem gap_ending (ending : LineEnding) : Text.Gap ending.text := by
  cases ending <;> simp [LineEnding.text, Text.Gap, isBlank_feed, isBlank_return]

theorem blocks_append_ending {s : Text} (hs : '\n' ∉ s) (ending : LineEnding) (t : Text) :
    Text.blocks (s ++ (ending.text ++ t)) = (s ++ ending.text) :: Text.blocks t := by
  cases ending with
  | feed => exact Text.blocks_append_feed hs t
  | returnFeed =>
    have hcut : s ++ (LineEnding.returnFeed.text ++ t) = (s ++ ['\r']) ++ '\n' :: t := by
      simp [LineEnding.text]
    rw [hcut, Text.blocks_append_feed (by simp [hs])]
    simp [LineEnding.text]

/-- A clause on a line of its own behind the last line of another clause. -/
theorem Orderly.added_lineEnd {text symbol module line : Text} {c : Clause} (h : Orderly text)
    (hs : isIdentifier symbol = true) (hm : '"' ∉ module) (hfeed : '\n' ∉ module)
    (hnone : ∀ d ∈ clauses text, sameModule d.module module = false) (hc : c ∈ clauses text)
    (hline : text.lines[c.endLine]? = some line) (ending : LineEnding) :
    ∃ after, Edit.applyAll? text [.insert (Position.lineEnd line c.endLine)
        (ending.text ++ clauseText symbol module)] = some after ∧
      Added symbol module (clauses text) (clauses after) := by
  rcases Text.exists_line_end hline with
    ⟨front, last, gap, back, hblocks, hlength, hlast, hgap, hback, hplace, hread⟩
  rcases spelled_clauseText hs hm hfeed with ⟨listEnd, closeBrace, hspelled⟩
  have htext : text = (front.flatten ++ last) ++ (gap ++ back.flatten) := by
    rw [← Text.flatten_blocks text, hblocks]
    simp
  have happly := Edit.applyAll?_insert (by rw [← htext]; exact hplace)
    (ending.text ++ clauseText symbol module)
  rw [← htext] at happly
  refine ⟨_, happly, ?_⟩
  generalize hafter : front.flatten ++ last ++ (ending.text ++ clauseText symbol module) ++
    (gap ++ back.flatten) = after
  have hblocks' : Text.blocks after =
      (front ++ [last ++ ending.text]) ++ (clauseText symbol module ++ gap) :: back := by
    have hne : clauseText symbol module ≠ [] := hspelled.endsVisible.ne_nil
    have hcut : after = front.flatten ++
        (last ++ (ending.text ++ (clauseText symbol module ++ (gap ++ back.flatten)))) := by
      rw [← hafter]
      simp
    rw [hcut, Text.blocks_append (Text.closed_flatten_of_blocks hblocks),
      (Text.blocks_flatten_of_append hblocks).1, blocks_append_ending hlast,
      hread _ (feed_not_mem_clauseText hs hfeed) hne]
    simp
  have hfront : startingIn (front ++ [last ++ ending.text])
      ((clauseText symbol module ++ gap) :: back).flatten =
      startingIn (front ++ [last ++ gap]) back.flatten := by
    apply h.startingIn_lineEnd hblocks hlast hgap hback hc hlength.symm (gap_ending ending)
    rw [List.flatten_cons, List.append_assoc, hspelled.head?_trimStart]
    decide
  have hold : clauses text = startingIn (front ++ [last ++ gap]) back.flatten ++
      (startingIn back []).map (Clause.down (front.length + 1)) := by
    have hcut : front ++ (last ++ gap) :: back = (front ++ [last ++ gap]) ++ back := by simp
    rw [clauses_eq, hblocks, hcut, startingIn_append, List.append_nil, List.length_append,
      List.length_singleton]
  have hnew : clauses after = startingIn (front ++ [last ++ gap]) back.flatten ++
      (Clause.mk module (.listed [symbol] listEnd closeBrace) 0 0).down (front.length + 1) ::
        ((startingIn back []).map (Clause.down (front.length + 1))).map (Clause.down 1) := by
    rw [clauses_eq, hblocks', startingIn_append, List.append_nil, hfront,
      startingIn_clauseText hspelled hgap, List.map_cons, map_down_down, map_down_down,
      Nat.add_comm 1, List.length_append, List.length_singleton]
  refine ⟨_, _, _, hold, hnone, rfl, ⟨_, _, rfl⟩, rfl, ?_, ?_, hnew⟩
  · intro d hd
    have hmem : d ∈ clauses text := by
      rw [hold]
      exact List.mem_append_left _ hd
    have hdline := line_lt_of_mem_startingIn hd
    rw [List.length_append, List.length_singleton] at hdline
    have hle := h.endLine_le hmem hc (by omega)
    show d.endLine < 0 + (front.length + 1)
    omega
  · intro d hd
    rcases List.mem_map.1 hd with ⟨e, -, rfl⟩
    show 0 + (front.length + 1) ≤ e.line + (front.length + 1)
    omega

/-- A clause on the first line of a text. -/
theorem added_top {text symbol module gap : Text} (hs : isIdentifier symbol = true)
    (hm : '"' ∉ module) (hfeed : '\n' ∉ module)
    (hnone : ∀ d ∈ clauses text, sameModule d.module module = false) (hgap : gap.Gap)
    (hblocks : Text.blocks (clauseText symbol module ++ gap ++ text) =
      (clauseText symbol module ++ gap) :: text.blocks) :
    Added symbol module (clauses text) (clauses (clauseText symbol module ++ gap ++ text)) := by
  rcases spelled_clauseText hs hm hfeed with ⟨listEnd, closeBrace, hspelled⟩
  refine ⟨[], ⟨module, .listed [symbol] listEnd closeBrace, 0, 0⟩, clauses text, rfl, hnone, rfl,
    ⟨_, _, rfl⟩, rfl, by simp, ?_, ?_⟩
  · intro d _
    exact Nat.zero_le _
  · rw [clauses_eq, hblocks, startingIn_clauseText hspelled hgap, clauses_eq]
    rfl

/-- The edit that adds a clause does nothing else. -/
theorem Orderly.added {text symbol module : Text} (h : Orderly text)
    (hs : isIdentifier symbol = true) (hm : '"' ∉ module) (hfeed : '\n' ∉ module)
    (hnone : ∀ d ∈ clauses text, sameModule d.module module = false) :
    ∃ after, Edit.applyAll? text [addClause text symbol module (clauses text)] = some after ∧
      Added symbol module (clauses text) (clauses after) := by
  rw [addClause]
  split
  · next p hp =>
    rcases Option.bind_eq_some_iff.1 hp with ⟨index, hindex, hanchor⟩
    rcases Option.map_eq_some_iff.1 hanchor with ⟨line, hline, rfl⟩
    rcases List.mem_map.1 (List.max?_mem hindex) with ⟨c, hc, rfl⟩
    exact h.added_lineEnd hs hm hfeed hnone (List.mem_filter.1 hc).1 hline _
  · have hplace : Position.start.toOffset ([] ++ text) = Text.byteSize [] :=
      Position.toOffset_start text
    refine ⟨_, Edit.applyAll?_insert hplace _, ?_⟩
    have hclause := feed_not_mem_clauseText hs hfeed
    by_cases htext : text = []
    · have hadded := added_top hs hm hfeed hnone Text.gap_nil (by
        rw [htext, List.append_nil, List.append_nil, Text.blocks_of_not_mem hclause,
          if_neg (by simp [clauseText_eq])]
        rfl)
      simpa [htext] using hadded
    · have hadded := added_top hs hm hfeed hnone (gap_ending (LineEnding.ofText text)) (by
        rw [List.append_assoc, blocks_append_ending hclause])
      simpa [htext] using hadded

/-! ## The edits -/

/-- The edits for a name extend the list of one clause or add one clause, in a text whose import
lines all start a clause and whose clauses cover lines of their own. -/
theorem ensure_one_change {text symbol module : Text} (hs : isIdentifier symbol = true)
    (hm : '"' ∉ module) (hfeed : '\n' ∉ module) (h : Orderly text)
    (hne : ensure text symbol module ≠ []) :
    ∃ after, Edit.applyAll? text (ensure text symbol module) = some after ∧
      (Extended symbol module (clauses text) (clauses after) ∨
        Added symbol module (clauses text) (clauses after)) := by
  rcases ensure_split text module hs with ⟨hnothing, -⟩ | ⟨before, c, later, hclauses, hbefore,
    hmodule, symbols, listEnd, closeBrace, hnames, hensure⟩ | ⟨hnone, hensure⟩
  · exact absurd hnothing hne
  · rcases h.extended hs hclauses hnames with
      ⟨after, listEnd', closeBrace', happly, hlistEnd, hcloseBrace, hafter⟩
    rw [hensure]
    exact ⟨after, happly, .inl ⟨before, c, later, symbols, listEnd, closeBrace, listEnd',
      closeBrace', hclauses, hbefore, hmodule, hnames, hlistEnd, hcloseBrace, hafter⟩⟩
  · rcases h.added hs hm hfeed hnone with ⟨after, happly, hadded⟩
    rw [hensure]
    exact ⟨after, happly, .inr hadded⟩

/-- A list over two lines, without a semicolon and between other clauses, is extended where it
begins. -/
theorem ensure_one_change_open_list :
    ∃ text : Text, text = "import \"n\"\nimport \x7b\n\x7d from \"m\"\nimport \"k\";".toList ∧
      Orderly text ∧ ensure text ['a'] ['m'] = [.insert ⟨1, 8⟩ [' ', 'a']] ∧
      ∃ after, Edit.applyAll? text (ensure text ['a'] ['m']) = some after ∧
        (Extended ['a'] ['m'] (clauses text) (clauses after) ∨
          Added ['a'] ['m'] (clauses text) (clauses after)) := by
  refine ⟨_, rfl, ?_⟩
  have horderly :
      Orderly "import \"n\"\nimport \x7b\n\x7d from \"m\"\nimport \"k\";".toList := by
    decide +kernel
  have hensure :
      ensure "import \"n\"\nimport \x7b\n\x7d from \"m\"\nimport \"k\";".toList ['a'] ['m'] =
        [.insert ⟨1, 8⟩ [' ', 'a']] := by decide +kernel
  exact ⟨horderly, hensure, ensure_one_change (by decide) (by decide) (by decide) horderly
    (by rw [hensure]; exact List.cons_ne_nil _ _)⟩

end YapAssist.Import
