import YapAssist.Import.Ensure
import YapAssist.Proofs.Edit
import YapAssist.Proofs.Import.Spelling

/-!
# The name is visible afterwards

The edit that imports a name is none or a single insertion. Behind it the name is visible, so a
second time nothing is left to do (`ensure_visible`). There are two insertions:

* a list is extended at its end, directly behind a visible character, so the insertion happens where
  it was meant to and the statement around the list is read as before (`visible_of_extended`);
* a clause of its own is put behind a line ending, or at the beginning of the text, so it starts a
  line wherever that is (`visible_of_clause`).
-/

namespace YapAssist

namespace Text

/-! ## Items of a list -/

/-- Blanks at the end of a list belong to no item. -/
theorem listItems_append_gap {gap : Text} (h : Gap gap) (t : Text) :
    listItems (t ++ gap) = listItems t := by
  have hcomma : ',' ∉ gap := h.not_mem (by decide)
  rcases exists_cutAtEach_append hcomma t with ⟨front, last, ht, hall⟩
  rw [listItems, listItems, ht, hall, List.map_append, List.map_append, List.map_singleton,
    List.map_singleton, trim_append_gap h]

/-- The last piece of a list without items is blank. -/
theorem gap_of_listItems_eq_nil {t last : Text} {front : List Text} (h : t.listItems = [])
    (hcut : cutAtEach ',' t = front ++ [last]) : last.Gap := by
  apply gap_of_trim_eq_nil
  rw [listItems, hcut, List.map_append, List.filter_append, List.append_eq_nil_iff] at h
  simpa using h.2

end Text

namespace Import

/-! ## What a clause brings in -/

/-- Whether a clause brings in a name. -/
def Names.bring (symbol : Text) : Names → Bool
  | all => true
  | listed symbols _ _ => symbols.contains symbol

/-- A text in which a name of a module is visible: a clause for the module brings it in. -/
def Visible (text symbol module : Text) : Prop :=
  ∃ c ∈ clauses text, sameModule c.module module = true ∧ c.names.bring symbol = true

instance (text symbol module : Text) : Decidable (Visible text symbol module) :=
  inferInstanceAs (Decidable (∃ c ∈ clauses text, _ ∧ _))

/-- A name with blanks around it is a list of one item. -/
theorem listItems_name {symbol front back : Text} (hs : isIdentifier symbol = true)
    (hfront : front.Gap) (hback : back.Gap) :
    Text.listItems (front ++ symbol ++ back) = [symbol] := by
  have hcomma : ',' ∉ front ++ symbol ++ back := by
    simp [hfront.not_mem (show isBlank ',' = false by decide),
      hback.not_mem (show isBlank ',' = false by decide),
      not_mem_of_isIdentifier hs (show isNameChar ',' = false by decide)]
  rw [Text.listItems, Text.cutAtEach_of_not_mem hcomma, List.map_singleton,
    Text.trim_surround hfront hback (tight_of_isIdentifier hs)]
  simp [(isIdentifier_chars hs).1]

/-- A name at the end of a list is its last item. What is put before it depends on whether the list
has items already. -/
theorem listItems_extended {symbol : Text} (hs : isIdentifier symbol = true) (list : Text)
    {gap : Text} (hgap : gap.Gap) (hlist : list = list.trimEnd ++ gap) :
    Text.listItems (list.trimEnd ++
      ((if list.listItems.isEmpty then [' '] else [',', ' ']) ++ symbol ++ gap)) =
        list.listItems ++ [symbol] := by
  have htrim : list.trimEnd.listItems = list.listItems := by
    conv => rhs; rw [hlist, Text.listItems_append_gap hgap]
  by_cases hitems : list.listItems = []
  · -- the last piece of the list is blank, so the name is all that it holds
    have hnew : ',' ∉ [' '] ++ symbol ++ gap := by
      simp [hgap.not_mem (show isBlank ',' = false by decide),
        not_mem_of_isIdentifier hs (show isNameChar ',' = false by decide)]
    rcases Text.exists_cutAtEach_append hnew list.trimEnd with ⟨front, last, hcut, hall⟩
    have hlast : Text.Gap last := Text.gap_of_listItems_eq_nil (htrim.trans hitems) hcut
    have hcomma : ',' ∉ last := hlast.not_mem (by decide)
    have hpiece : last ++ ([' '] ++ symbol ++ gap) = (last ++ [' ']) ++ symbol ++ gap := by simp
    have hname := listItems_name hs (hlast.append Text.gap_space) hgap
    rw [← hpiece, Text.listItems, Text.cutAtEach_of_not_mem (by simp [hcomma]; simpa using hnew)]
      at hname
    rw [Text.listItems, hcut, List.map_append, List.filter_append, hitems,
      List.append_eq_nil_iff] at htrim
    rw [hitems, List.isEmpty_nil, if_pos rfl, Text.listItems, hall, List.map_append,
      List.filter_append, htrim.1, hname]
  · -- a comma starts a piece of its own
    have hcut : list.trimEnd ++ ([',', ' '] ++ symbol ++ gap) =
        list.trimEnd ++ ',' :: ([' '] ++ symbol ++ gap) := by simp
    rw [if_neg (by simpa using hitems), hcut, Text.listItems_append_mark, htrim,
      listItems_name hs Text.gap_space hgap]

/-! ## Extending a list -/

/-- The list of a statement ends directly behind its brace or behind a visible character. -/
theorem isBlank_of_list_end {front lead gap list : Text} :
    ∀ c ∈ (front ++ (listHead lead gap ++ list.trimEnd)).getLast?, isBlank c = false := by
  intro c hc
  have hcut : front ++ (listHead lead gap ++ list.trimEnd) =
      (front ++ (lead ++ (['i', 'm', 'p', 'o', 'r', 't'] ++ gap))) ++ '{' :: list.trimEnd := by
    simp [listHead]
  rw [hcut, Text.getLast?_append_right (by simp)] at hc
  by_cases hnil : list.trimEnd = []
  · rw [hnil] at hc
    have hbrace : '{' = c := by simpa using hc
    rw [← hbrace]
    exact isBlank_brace
  · have hlast : c ∈ list.trimEnd.getLast? := by
      rwa [← List.singleton_append, Text.getLast?_append_right hnil] at hc
    exact Text.getLast?_trimEnd_not_blank list c hlast

/-- What is inserted at the end of a list goes between the list and the blanks behind it. -/
theorem applyAll?_listEnd {front lead gap list back tail : Text}
    (hcut : list = list.trimEnd ++ back) (new : Text) :
    Edit.applyAll? (front ++ (listHead lead gap ++ (list ++ '}' :: tail)))
        [.insert (Position.ofOffset (front ++ (listHead lead gap ++ (list ++ '}' :: tail)))
          (front ++ (listHead lead gap ++ list.trimEnd)).byteSize) new] =
      some (front ++ (listHead lead gap ++ (list.trimEnd ++ (new ++ back) ++ '}' :: tail))) := by
  have htext : front ++ (listHead lead gap ++ (list ++ '}' :: tail)) =
      (front ++ (listHead lead gap ++ list.trimEnd)) ++ (back ++ '}' :: tail) := by
    conv => lhs; rw [hcut]
    simp
  -- the place is one where a column can lie, so the position leads back to it
  have hcolumn : ∀ d ∈ (front ++ (listHead lead gap ++ list.trimEnd)).getLast?,
      d ≠ '\n' ∧ d ≠ '\r' := by
    intro d hd
    have hvisible := isBlank_of_list_end d hd
    refine ⟨?_, ?_⟩ <;> rintro rfl <;> exact absurd hvisible (by decide)
  have hplace := Position.toOffset_ofOffset (by simp [listHead]) hcolumn (back ++ '}' :: tail)
  rw [htext, Edit.applyAll?_insert hplace]
  simp

/-- A list with a further name at its end is still closed by the same brace. -/
theorem closing_not_mem_extended {symbol list back : Text} (hs : isIdentifier symbol = true)
    (hlist : '}' ∉ list) (hback : back.Gap) (hcut : list = list.trimEnd ++ back) :
    '}' ∉ list.trimEnd ++
      ((if list.listItems.isEmpty then [' '] else [',', ' ']) ++ symbol ++ back) := by
  have hsymbol : '}' ∉ symbol := not_mem_of_isIdentifier hs (by decide)
  have htrim : '}' ∉ list.trimEnd := by
    rw [hcut] at hlist
    exact fun hmem => hlist (List.mem_append_left _ hmem)
  have hgapBack : '}' ∉ back := hback.not_mem (by decide)
  have hcomma : '}' ∉ (if list.listItems.isEmpty then [' '] else [',', ' ']) := by
    split <;> decide
  simp only [List.mem_append, not_or]
  exact ⟨htrim, ⟨hcomma, hsymbol⟩, hgapBack⟩

/-- A name added at the end of the list of a clause is visible. -/
theorem visible_of_extended {text symbol module : Text} (hs : isIdentifier symbol = true)
    {c : Clause} (hc : c ∈ clauses text) (hmodule : sameModule c.module module = true)
    {symbols : List Text} {listEnd closeBrace : Position}
    (hnames : c.names = .listed symbols listEnd closeBrace) :
    ∃ after, Edit.applyAll? text
        [.insert listEnd ((if symbols.isEmpty then [' '] else [',', ' ']) ++ symbol)] = some after ∧
      Visible after symbol module := by
  rcases exists_of_listed hc hnames with
    ⟨front, lead, gap, list, tail, rest, rfl, hfront, -, hlead, hgap, hlist, hsource, rfl, rfl, -⟩
  rcases Text.exists_gap_trimEnd list with ⟨back, hback, hcut⟩
  refine ⟨_, applyAll?_listEnd hcut _, ?_⟩
  -- the statement is the same but for its list
  rcases exists_clause hfront hlead hgap (closing_not_mem_extended hs hlist hback hcut) hsource with
    ⟨c', hmem, hsame, -, listEnd, closeBrace, hlisted⟩
  refine ⟨c', hmem, by rw [hsame, hmodule], ?_⟩
  rw [hlisted, Names.bring, List.contains_iff_mem, listItems_extended hs list hback hcut]
  exact List.mem_append_right _ (List.mem_singleton_self _)

/-! ## Adding a clause -/

theorem clauseText_eq (symbol module : Text) :
    clauseText symbol module = ['i', 'm', 'p', 'o', 'r', 't', ' ', '{', ' '] ++ symbol ++
      [' ', '}', ' ', 'f', 'r', 'o', 'm', ' ', '"'] ++ module ++ ['"', ';'] := rfl

theorem clauseText_append (symbol module rest : Text) :
    clauseText symbol module ++ rest = listHead [] [' '] ++ ((' ' :: (symbol ++ [' '])) ++
      '}' :: ([' ', 'f', 'r', 'o', 'm', ' ', '"'] ++ (module ++ '"' :: ';' :: rest))) := by
  rw [clauseText_eq]
  simp [listHead]

theorem quotedFrom_clause {module : Text} (h : '"' ∉ module) :
    QuotedFrom module ([' ', 'f', 'r', 'o', 'm', ' ', '"'] ++ (module ++ ['"', ';'])) := by
  have hclose : Close [';'] := .inr ⟨[], Text.gap_nil, rfl⟩
  exact ⟨[' '], _, Text.gap_space, ⟨[' '], [';'], Text.gap_space, h, hclose, rfl⟩, rfl⟩

theorem readSource?_clause {module : Text} (h : '"' ∉ module) (rest : Text) :
    readSource? ([' ', 'f', 'r', 'o', 'm', ' ', '"'] ++ (module ++ '"' :: ';' :: rest)) =
      some (module, rest) := by
  have hends : Ends ([' ', 'f', 'r', 'o', 'm', ' ', '"'] ++ (module ++ ['"', ';'])) rest := by
    left
    rw [Text.getLast?_append_right (by simp), Text.getLast?_append_right (by simp)]
    rfl
  have hread := readSource?_append (quotedFrom_clause h) hends
  rwa [List.append_assoc, List.append_assoc] at hread

/-- A clause of its own at the beginning of a line makes the name visible. -/
theorem visible_of_clause {symbol module front : Text} (hs : isIdentifier symbol = true)
    (hm : '"' ∉ module) (hfront : Text.Closed front) (rest : Text) :
    Visible (front ++ (clauseText symbol module ++ rest)) symbol module := by
  have hsymbol : '}' ∉ symbol := not_mem_of_isIdentifier hs (by decide)
  have hlist : '}' ∉ ' ' :: (symbol ++ [' ']) := by simp [hsymbol]
  have hindent : Indent [] := by simp [Indent]
  rcases exists_clause hfront hindent Text.gap_space hlist (readSource?_clause hm rest) with
    ⟨c, hmem, hmodule, -, listEnd, closeBrace, hnames⟩
  rw [← clauseText_append] at hmem
  refine ⟨c, hmem, ?_, ?_⟩
  · rw [hmodule, sameModule, beq_self_eq_true]
  · have hitems : Text.listItems (' ' :: (symbol ++ [' '])) = [symbol] :=
      listItems_name hs Text.gap_space Text.gap_space
    rw [hnames, Names.bring, List.contains_iff_mem, hitems]
    exact List.mem_singleton_self _

theorem closed_append_ending (s : Text) (ending : LineEnding) : Text.Closed (s ++ ending.text) := by
  right
  cases ending <;> simp [LineEnding.text]

/-- The edit that adds a clause is an insertion behind which the name is visible. -/
theorem visible_of_addClause {text symbol module : Text} (hs : isIdentifier symbol = true)
    (hm : '"' ∉ module) (cs : List Clause) :
    ∃ p newText after, addClause text symbol module cs = .insert p newText ∧
      Edit.applyAll? text [.insert p newText] = some after ∧ Visible after symbol module := by
  rw [addClause]
  split
  · next p _ =>
    -- wherever the place is, the line ending before the clause starts a line
    rcases Position.exists_toOffset text p with ⟨s, t, rfl, hplace⟩
    refine ⟨p, _, _, rfl, Edit.applyAll?_insert hplace _, ?_⟩
    generalize LineEnding.ofText (s ++ t) = ending
    have hvisible := visible_of_clause hs hm (closed_append_ending s ending) t
    simpa using hvisible
  · have hplace : Position.start.toOffset ([] ++ text) = Text.byteSize [] :=
      Position.toOffset_start text
    refine ⟨.start, _, _, rfl, Edit.applyAll?_insert hplace _, ?_⟩
    have hnone : Text.Closed [] := .inl rfl
    by_cases htext : text = []
    · have hvisible := visible_of_clause hs hm hnone []
      simpa [htext] using hvisible
    · have hvisible := visible_of_clause hs hm hnone ((LineEnding.ofText text).text ++ text)
      simpa [htext] using hvisible

/-! ## The edits -/

/-- Where a name is visible there is nothing to do. -/
theorem ensure_of_visible {text symbol module : Text} (h : Visible text symbol module) :
    ensure text symbol module = [] := by
  rcases h with ⟨c, hc, hmodule, hbring⟩
  have hours : c ∈ (clauses text).filter fun c => sameModule c.module module :=
    List.mem_filter.2 ⟨hc, hmodule⟩
  generalize hcs : ((clauses text).filter fun c => sameModule c.module module) = ours at hours
  rw [ensure]
  simp only [hcs]
  split
  · rfl
  · split
    · rfl
    · next hall =>
      -- no clause for the module brings in all names, so this one lists the name
      cases hnames : c.names with
      | all =>
        rw [Bool.not_eq_true, List.any_eq_false] at hall
        exact absurd (by simp [hnames]) (hall c hours)
      | listed symbols listEnd closeBrace =>
        have hmem : (symbols, listEnd) ∈ listed ours :=
          List.mem_filterMap.2 ⟨c, hours, by rw [hnames]⟩
        have hsymbol : symbol ∈ symbols := by simpa [hnames, Names.bring] using hbring
        cases hlisted : listed ours with
        | nil =>
          rw [hlisted] at hmem
          simp at hmem
        | cons first others =>
          rw [hlisted] at hmem
          show (if first.1.contains symbol || others.any fun o => o.1.contains symbol then []
            else _) = []
          rw [if_pos]
          rw [Bool.or_eq_true, List.contains_iff_mem, List.any_eq_true]
          rcases List.mem_cons.1 hmem with rfl | hmem
          · exact .inl hsymbol
          · exact .inr ⟨_, hmem, List.contains_iff_mem.2 hsymbol⟩

/-- Only names are imported. -/
theorem isIdentifier_of_ensure {text symbol module : Text} (h : ensure text symbol module ≠ []) :
    isIdentifier symbol = true := by
  rw [← Bool.not_eq_false]
  intro hs
  exact h (by rw [ensure, hs]; rfl)

/-- There is nothing to do, or the first clause for the module has its list extended, or there is
no such clause and one is added. -/
theorem ensure_split (text : Text) {symbol : Text} (module : Text)
    (hs : isIdentifier symbol = true) :
    ensure text symbol module = [] ∧ Visible text symbol module ∨
      (∃ before c later, clauses text = before ++ c :: later ∧
        (∀ d ∈ before, sameModule d.module module = false) ∧ sameModule c.module module = true ∧
        ∃ symbols listEnd closeBrace, c.names = .listed symbols listEnd closeBrace ∧
          ensure text symbol module =
            [.insert listEnd ((if symbols.isEmpty then [' '] else [',', ' ']) ++ symbol)]) ∨
      (∀ d ∈ clauses text, sameModule d.module module = false) ∧
        ensure text symbol module = [addClause text symbol module (clauses text)] := by
  by_cases hvisible : Visible text symbol module
  · exact .inl ⟨ensure_of_visible hvisible, hvisible⟩
  · right
    -- no clause for the module brings the name in
    have hnone : ∀ c ∈ (clauses text).filter fun c => sameModule c.module module,
        c.names.bring symbol = false := by
      intro c hc
      rcases List.mem_filter.1 hc with ⟨hmem, hmodule⟩
      rw [← Bool.not_eq_true]
      exact fun hbring => hvisible ⟨c, hmem, hmodule, hbring⟩
    have hall : ¬ (((clauses text).filter fun c => sameModule c.module module).any
        fun c => c.names == .all) = true := by
      rw [List.any_eq_true]
      rintro ⟨c, hc, hnames⟩
      have hbring := hnone c hc
      rw [beq_iff_eq.1 hnames] at hbring
      simp [Names.bring] at hbring
    rw [ensure, if_neg (by simp [hs])]
    simp only
    rw [if_neg hall]
    cases hours : (clauses text).filter fun c => sameModule c.module module with
    | nil =>
      right
      refine ⟨?_, rfl⟩
      intro d hd
      simpa using List.filter_eq_nil_iff.1 hours d hd
    | cons c ours =>
      left
      rcases List.filter_eq_cons_iff.1 hours with ⟨before, later, hclauses, hbefore, hmodule, -⟩
      rw [hours] at hnone
      cases hnames : c.names with
      | all =>
        have hbring := hnone c List.mem_cons_self
        simp [hnames, Names.bring] at hbring
      | listed symbols listEnd closeBrace =>
        refine ⟨before, c, later, hclauses, by simpa using hbefore, hmodule, symbols, listEnd,
          closeBrace, hnames, ?_⟩
        have hlisted : listed (c :: ours) = (symbols, listEnd) :: listed ours := by
          rw [listed, List.filterMap_cons, hnames]
          rfl
        have hmissing : ¬ (symbols.contains symbol ||
            (listed ours).any fun o => o.1.contains symbol) = true := by
          rw [Bool.or_eq_true, List.any_eq_true, not_or]
          refine ⟨?_, ?_⟩
          · have hbring := hnone c List.mem_cons_self
            rwa [hnames, Names.bring, ← Bool.not_eq_true] at hbring
          · rintro ⟨o, ho, hcontains⟩
            rcases List.mem_filterMap.1 ho with ⟨d, hd, hdnames⟩
            have hbring := hnone d (List.mem_cons_of_mem _ hd)
            cases hn : d.names with
            | all => simp [hn] at hdnames
            | listed symbols' listEnd' closeBrace' =>
              rw [hn, Option.some.injEq] at hdnames
              rw [hn, Names.bring, ← Bool.not_eq_true] at hbring
              rw [← hdnames] at hcontains
              exact hbring hcontains
        rw [hlisted]
        exact if_neg hmissing

theorem words_of_addClause {text : Text} (h : text.byteSize < UInt32.size) (symbol module : Text)
    (cs : List Clause) : (addClause text symbol module cs).span.first.words =
      (addClause text symbol module cs).span.first := by
  rw [addClause]
  split
  · next p hp =>
    rcases Option.bind_eq_some_iff.1 hp with ⟨index, -, hanchor⟩
    rcases Option.map_eq_some_iff.1 hanchor with ⟨line, hline, rfl⟩
    exact Position.words_lineEnd h hline
  · rfl

/-- The places of the edits fit in words, if the bytes of the text can be counted in them. -/
theorem words_of_mem_ensure {text symbol module : Text} (h : text.byteSize < UInt32.size)
    (hs : isIdentifier symbol = true) {e : Edit} (he : e ∈ ensure text symbol module) :
    e.span.first.words = e.span.first := by
  rcases ensure_split text module hs with
    ⟨hensure, -⟩ | ⟨before, c, later, hclauses, -, -, symbols, listEnd, closeBrace, hnames,
      hensure⟩ | ⟨-, hensure⟩
  · rw [hensure] at he
    simp at he
  · have hc : c ∈ clauses text := by simp [hclauses]
    rw [hensure, List.mem_singleton] at he
    rcases exists_of_listed hc hnames with
      ⟨front, lead, gap, list, tail, rest, -, -, -, -, -, -, -, -, hend, -⟩
    rw [he, Edit.insert, Span.empty, hend]
    exact Position.words_ofOffset h _
  · rw [hensure, List.mem_singleton] at he
    rw [he]
    exact words_of_addClause h symbol module _

/-- The edits for a name are none or a single insertion, whose place fits in words. They make the
name visible, and then nothing is left to do. -/
theorem ensure_visible {symbol module : Text} (hs : isIdentifier symbol = true)
    (hm : '"' ∉ module) (text : Text) :
    (ensure text symbol module = [] ∨
      ∃ p newText, ensure text symbol module = [.insert p newText] ∧
        (text.byteSize < UInt32.size → p.words = p)) ∧
    ∃ after, Edit.applyAll? text (ensure text symbol module) = some after ∧
      Visible after symbol module ∧ ensure after symbol module = [] := by
  -- the edits and what they lead to; that nothing is left to do then follows from visibility
  have hedits : (ensure text symbol module = [] ∨
        ∃ p newText, ensure text symbol module = [.insert p newText]) ∧
      ∃ after, Edit.applyAll? text (ensure text symbol module) = some after ∧
        Visible after symbol module := by
    rcases ensure_split text module hs with
      ⟨hensure, hvisible⟩ | ⟨before, c, later, hclauses, -, hmodule, symbols, listEnd, closeBrace,
        hnames, hensure⟩ | ⟨-, hensure⟩
    · rw [hensure]
      exact ⟨.inl rfl, text, rfl, hvisible⟩
    · have hc : c ∈ clauses text := by simp [hclauses]
      rw [hensure]
      exact ⟨.inr ⟨_, _, rfl⟩, visible_of_extended hs hc hmodule hnames⟩
    · rcases visible_of_addClause hs hm (clauses text) with
        ⟨p, newText, after, hadd, happly, hvisible⟩
      rw [hensure, hadd]
      exact ⟨.inr ⟨p, newText, rfl⟩, after, happly, hvisible⟩
  rcases hedits with ⟨hshape, after, happly, hvisible⟩
  refine ⟨?_, after, happly, hvisible, ensure_of_visible hvisible⟩
  rcases hshape with hnone | ⟨p, newText, hone⟩
  · exact .inl hnone
  · refine .inr ⟨p, newText, hone, ?_⟩
    intro hsize
    have hmem : Edit.insert p newText ∈ ensure text symbol module := by
      rw [hone]
      exact List.mem_singleton_self _
    exact words_of_mem_ensure hsize hs hmem

/-- A list that ends in a comma is extended all the same. -/
theorem ensure_visible_comma :
    isIdentifier ['b'] = true ∧ '"' ∉ ['m'] ∧
      ensure "import \x7b a, \x7d from \"m\"".toList ['b'] ['m'] ≠ [] ∧
      ∃ after, Edit.applyAll? "import \x7b a, \x7d from \"m\"".toList
          (ensure "import \x7b a, \x7d from \"m\"".toList ['b'] ['m']) = some after ∧
        Visible after ['b'] ['m'] ∧ ensure after ['b'] ['m'] = [] :=
  ⟨by decide, by decide, by decide +kernel, (ensure_visible (by decide) (by decide) _).2⟩

end Import

end YapAssist
