import YapAssist.Proofs.Import.Frame

/-!
# Commas in an extended list

A list of names is tidy when nothing but its last item is blank: a comma may end it, and otherwise
stands between two names. Whether a name is added with a comma before it depends on the names that
the list has, not on how it ends. So a list that ends with a comma gets a second one, and only such
a list does:

* `Text.exists_of_cutAtEach`, where the last item of a list starts;
* `Import.tidy_extended`, a tidy list is tidy with a further name unless a comma ends it;
* `Import.tidy_ensure`, the list that an edit extends.
-/

namespace YapAssist

namespace Text

/-- The last piece of a text is all of it, or it stands behind the last mark. -/
theorem exists_of_cutAtEach {mark : Char} {t last : Text} {front : List Text}
    (h : cutAtEach mark t = front ++ [last]) :
    mark ∉ last ∧ (front = [] ∧ t = last ∨
      ∃ u, t = u ++ mark :: last ∧ cutAtEach mark u = front) := by
  by_cases hmark : mark ∈ t
  · obtain ⟨v, u, hreverse, hv⟩ := List.eq_append_cons_of_mem (List.mem_reverse.2 hmark)
    have ht : t = u.reverse ++ mark :: v.reverse := by
      rw [← List.reverse_reverse t, hreverse]
      simp
    have hlast : mark ∉ v.reverse := by simpa using hv
    rw [ht, cutAtEach_append_mark, cutAtEach_of_not_mem hlast] at h
    obtain ⟨hfront, hpiece⟩ := List.append_inj' h rfl
    rw [List.cons.injEq] at hpiece
    rw [← hpiece.1]
    exact ⟨hlast, .inr ⟨u.reverse, ht, hfront⟩⟩
  · rw [cutAtEach_of_not_mem hmark] at h
    have hone : [] ++ [t] = front ++ [last] := h
    obtain ⟨hfront, hpiece⟩ := List.append_inj' hone rfl
    rw [List.cons.injEq] at hpiece
    rw [← hpiece.1]
    exact ⟨hmark, .inl ⟨hfront.symm, rfl⟩⟩

theorem getLast?_eq_mark_iff {mark : Char} {t last : Text} {front : List Text}
    (h : cutAtEach mark t = front ++ [last]) :
    t.getLast? = some mark ↔ front ≠ [] ∧ last = [] := by
  obtain ⟨hlast, ⟨rfl, rfl⟩ | ⟨u, rfl, hfront⟩⟩ := exists_of_cutAtEach h
  · simpa using fun he => hlast (List.mem_of_getLast? he)
  · have hne : front ≠ [] := by
      obtain ⟨init, piece, hcut⟩ := exists_cutAtEach mark u
      rw [← hfront, hcut]
      simp
    constructor
    · intro he
      refine ⟨hne, ?_⟩
      by_contra hpiece
      rw [getLast?_append_cons mark hpiece] at he
      exact hlast (List.mem_of_getLast? he)
    · rintro ⟨-, rfl⟩
      exact List.getLast?_concat

end Text

namespace Import

open Line

/-! ## Tidy lists -/

/-- Whether no item of a list but the last one is blank. -/
def tidy (list : Text) : Bool :=
  (Text.cutAtEach ',' list).dropLast.all fun item => !isBlankLine item

theorem tidy_of_not_mem {list : Text} (h : ',' ∉ list) : tidy list = true := by
  rw [tidy, Text.cutAtEach_of_not_mem h]
  rfl

theorem tidy_append_comma {t : Text} (h : ',' ∉ t) (s : Text) :
    tidy (s ++ ',' :: t) = true ↔ ∀ item ∈ Text.cutAtEach ',' s, isBlankLine item = false := by
  rw [tidy, Text.cutAtEach_append_mark, Text.cutAtEach_of_not_mem h, List.dropLast_concat,
    List.all_eq_true]
  simp

/-- A tidy list without items has no comma either. -/
theorem comma_not_mem_of_tidy {list : Text} (h : tidy list = true) (hitems : list.listItems = []) :
    ',' ∉ list := by
  intro hcomma
  obtain ⟨s, t, rfl⟩ := List.append_of_mem hcomma
  obtain ⟨front, last, hs⟩ := Text.exists_cutAtEach ',' s
  obtain ⟨back, final, ht⟩ := Text.exists_cutAtEach ',' t
  have hcut : Text.cutAtEach ',' (s ++ ',' :: t) = (front ++ last :: back) ++ [final] := by
    rw [Text.cutAtEach_append_mark, hs, ht]
    simp
  -- the piece that the comma ends is not blank, so it is an item
  have hlast : isBlankLine last = false := by
    rw [tidy, hcut, List.dropLast_concat, List.all_eq_true] at h
    simpa using h last (by simp)
  rw [Text.listItems, List.filter_eq_nil_iff] at hitems
  have hempty := hitems (Text.trim last) (List.mem_map_of_mem (by simp [hcut]))
  rw [isBlankLine] at hlast
  simp [hlast] at hempty

/-- Behind the last comma of a trimmed list stands a visible character, or nothing. -/
theorem eq_nil_of_isBlankLine {list last : Text} {front : List Text}
    (h : Text.cutAtEach ',' list.trimEnd = front ++ [last]) (hblank : isBlankLine last = true) :
    last = [] := by
  by_contra hne
  have hlast : list.trimEnd.getLast? = last.getLast? := by
    obtain ⟨-, ⟨-, he⟩ | ⟨u, he, -⟩⟩ := Text.exists_of_cutAtEach h
    · rw [he]
    · rw [he, Text.getLast?_append_cons ',' hne]
  have hend := List.getLast?_eq_some_getLast hne
  have hvisible := Text.getLast?_trimEnd_not_blank list _ (hlast.trans hend)
  have hgap : last.Gap := Text.gap_of_trim_eq_nil (List.isEmpty_iff.1 hblank)
  rw [hgap _ (List.getLast_mem hne)] at hvisible
  exact absurd hvisible (by simp)

/-- Without the blanks at its end, a tidy list that has items has no blank piece exactly when no
comma ends it. -/
theorem isBlankLine_of_mem_trimEnd {list : Text} (h : tidy list = true)
    (hitems : list.listItems ≠ []) :
    (∀ item ∈ Text.cutAtEach ',' list.trimEnd, isBlankLine item = false) ↔
      list.trimEnd.getLast? ≠ some ',' := by
  obtain ⟨back, hback, hcut⟩ := Text.exists_gap_trimEnd list
  have hcomma : ',' ∉ back := hback.not_mem (by decide)
  obtain ⟨front, last, htrim, hlist⟩ := Text.exists_cutAtEach_append hcomma list.trimEnd
  rw [← hcut] at hlist
  have hfront : ∀ item ∈ front, isBlankLine item = false := by
    rw [tidy, hlist, List.dropLast_concat, List.all_eq_true] at h
    simpa using h
  rw [ne_eq, Text.getLast?_eq_mark_iff htrim, htrim]
  constructor
  · rintro hall ⟨-, rfl⟩
    have hblank := hall [] (by simp)
    exact absurd hblank (by decide)
  · intro hend item hitem
    obtain hitem | hitem := List.mem_append.1 hitem
    · exact hfront item hitem
    · rw [List.mem_singleton] at hitem
      rw [hitem, ← Bool.not_eq_true]
      intro hblank
      have hnil := eq_nil_of_isBlankLine htrim hblank
      refine hend ⟨?_, hnil⟩
      rintro rfl
      -- all of the list is blank then
      apply hitems
      have hbackTrim : back.trim = [] := Text.trim_append_gap hback []
      rw [Text.listItems, hlist, hnil]
      simp [hbackTrim]

/-- A tidy list with a further name at its end is tidy exactly when no comma ended it. -/
theorem tidy_extended {symbol list back : Text} (hs : isIdentifier symbol = true)
    (hback : back.Gap) (hcut : list = list.trimEnd ++ back) (h : tidy list = true) :
    tidy (list.trimEnd ++
        ((if list.listItems.isEmpty then [' '] else [',', ' ']) ++ symbol ++ back)) = true ↔
      list.trimEnd.getLast? ≠ some ',' := by
  have hname : ',' ∉ [' '] ++ symbol ++ back := by
    simp [hback.not_mem (show isBlank ',' = false by decide),
      not_mem_of_isIdentifier hs (show isNameChar ',' = false by decide)]
  by_cases hitems : list.listItems = []
  · -- there is no comma before the name and none is added
    have hcomma : ',' ∉ list.trimEnd := by
      have hnone := comma_not_mem_of_tidy h hitems
      rw [hcut] at hnone
      exact fun hmem => hnone (List.mem_append_left _ hmem)
    have hend : list.trimEnd.getLast? ≠ some ',' := fun he => hcomma (List.mem_of_getLast? he)
    rw [hitems, List.isEmpty_nil, if_pos rfl]
    refine iff_of_true (tidy_of_not_mem ?_) hend
    rw [List.mem_append, not_or]
    exact ⟨hcomma, hname⟩
  · -- the comma before the name ends the last item, which must not be blank then
    have hlong : list.trimEnd ++ ([',', ' '] ++ symbol ++ back) =
        list.trimEnd ++ ',' :: ([' '] ++ symbol ++ back) := by simp
    rw [if_neg (by simpa using hitems), hlong, tidy_append_comma hname,
      isBlankLine_of_mem_trimEnd h hitems]

/-! ## The list of a clause -/

/-- What stands between the braces of a clause of a text; `none` for an import of all names. -/
def clauseList? (text : Text) (c : Clause) : Option Text :=
  (Statement.read? (text.blocks.drop c.line).flatten).bind fun s => s.list?.map Prod.fst

theorem clauseList?_eq {front lead gap list tail module rest : Text} (hfront : front.Closed)
    (hlead : Indent lead) (hgap : gap.Gap) (hlist : '}' ∉ list)
    (hsource : readSource? tail = some (module, rest)) {c : Clause}
    (hline : c.line = front.blocks.length) :
    clauseList? (front ++ (listHead lead gap ++ (list ++ '}' :: tail))) c = some list := by
  rw [clauseList?, hline, Text.blocks_append hfront, List.drop_left, Text.flatten_blocks,
    Statement.read?, readNamed?_eq hlead hgap hlist, hsource]
  rfl

/-- A name at the end of the list of a clause: the clause is still there, and its list is tidy if it
was and no comma ended it. -/
theorem tidy_of_extended {text symbol : Text} (hs : isIdentifier symbol = true) {c : Clause}
    (hc : c ∈ clauses text) {symbols : List Text} {listEnd closeBrace : Position}
    (hnames : c.names = .listed symbols listEnd closeBrace) :
    ∃ list after c' list', clauseList? text c = some list ∧
      Edit.applyAll? text
        [.insert listEnd ((if symbols.isEmpty then [' '] else [',', ' ']) ++ symbol)] =
          some after ∧
      c' ∈ clauses after ∧ c'.line = c.line ∧ c'.module = c.module ∧
      c'.names.bring symbol = true ∧ clauseList? after c' = some list' ∧
      (tidy list = true → (tidy list' = true ↔ list.trimEnd.getLast? ≠ some ',')) := by
  obtain ⟨front, lead, gap, list, tail, rest, rfl, hfront, hline, hlead, hgap, hlist, hsource, rfl,
    rfl, -⟩ := exists_of_listed hc hnames
  obtain ⟨back, hback, hcut⟩ := Text.exists_gap_trimEnd list
  have hlist' := closing_not_mem_extended hs hlist hback hcut
  obtain ⟨c', hmem, hmodule, hline', listEnd', closeBrace', hnames'⟩ :=
    exists_clause hfront hlead hgap hlist' hsource
  refine ⟨list, _, c', _, clauseList?_eq hfront hlead hgap hlist hsource hline,
    applyAll?_listEnd hcut _, hmem, hline'.trans hline.symm, hmodule, ?_,
    clauseList?_eq hfront hlead hgap hlist' hsource hline', tidy_extended hs hback hcut⟩
  rw [hnames', Names.bring, List.contains_iff_mem, listItems_extended hs list hback hcut]
  exact List.mem_append_right _ (List.mem_singleton_self _)

/-! ## The edit -/

/-- An edit that extends the list of a module's first clause: where that list was tidy, it is tidy
afterwards unless it ended with a comma. -/
theorem tidy_ensure {text symbol module : Text} {c : Clause}
    (hc : (clauses text).find? (fun c => sameModule c.module module) = some c)
    (hne : ensure text symbol module ≠ []) :
    ∃ list after c' list', clauseList? text c = some list ∧
      Edit.applyAll? text (ensure text symbol module) = some after ∧
      c' ∈ clauses after ∧ c'.line = c.line ∧ c'.module = c.module ∧
      c'.names.bring symbol = true ∧ clauseList? after c' = some list' ∧
      (tidy list = true → (tidy list' = true ↔ list.trimEnd.getLast? ≠ some ',')) := by
  have hs := isIdentifier_of_ensure hne
  obtain ⟨hnothing, -⟩ | ⟨before, d, later, hclauses, hbefore, hmodule, symbols, listEnd,
    closeBrace, hnames, hensure⟩ | ⟨hnone, -⟩ := ensure_split text module hs
  · exact absurd hnothing hne
  · -- the clause that is extended is the first one for the module
    obtain rfl : d = c := by
      rw [hclauses, List.find?_append, List.find?_eq_none.2 (by simpa using hbefore),
        Option.none_or, List.find?_cons, hmodule] at hc
      exact Option.some.inj hc
    rw [hensure]
    exact tidy_of_extended hs (by simp [hclauses]) hnames
  · have hmodule := List.find?_some hc
    rw [hnone c (List.mem_of_find?_eq_some hc)] at hmodule
    exact absurd hmodule (by simp)

/-- A list over several lines. -/
theorem tidy_ensure_lines :
    ∃ text c, text = "import \x7b\n  a\n\x7d from \"m\"".toList ∧
      (clauses text).find? (fun c => sameModule c.module ['m']) = some c ∧
      ensure text ['b'] ['m'] ≠ [] ∧
      ∃ after c' list', Edit.applyAll? text (ensure text ['b'] ['m']) = some after ∧
        c' ∈ clauses after ∧ c'.line = c.line ∧ clauseList? after c' = some list' ∧
        tidy list' = true := by
  refine ⟨_, ⟨['m'], .listed [['a']] ⟨1, 3⟩ ⟨2, 0⟩, 0, 2⟩, rfl, ?_⟩
  have hc : (clauses "import \x7b\n  a\n\x7d from \"m\"".toList).find?
      (fun c => sameModule c.module ['m']) =
        some ⟨['m'], .listed [['a']] ⟨1, 3⟩ ⟨2, 0⟩, 0, 2⟩ := by
    decide +kernel
  have hne : ensure "import \x7b\n  a\n\x7d from \"m\"".toList ['b'] ['m'] ≠ [] := by
    decide +kernel
  obtain ⟨list, after, c', list', hlist, happly, hmem, hline, -, -, hlist', hiff⟩ :=
    tidy_ensure hc hne
  obtain rfl : "\n  a\n".toList = list := by
    rw [← Option.some.injEq, ← hlist]
    decide +kernel
  exact ⟨hc, hne, after, c', list', happly, hmem, hline, hlist',
    (hiff (by decide +kernel)).2 (by decide +kernel)⟩

/-- A list that ends with a comma has two commas in a row afterwards. -/
theorem tidy_ensure_comma :
    ∃ text after : Text, text = "import \x7b sign, \x7d from \"std/Math\";\n".toList ∧
      (clauses text).map (fun c => (c.line, (clauseList? text c).map tidy)) = [(0, some true)] ∧
      ensure text "abs".toList "std/Math".toList =
        [.insert ⟨0, 14⟩ ([',', ' '] ++ "abs".toList)] ∧
      Edit.applyAll? text (ensure text "abs".toList "std/Math".toList) = some after ∧
      (clauses after).map (fun c => (c.line, (clauseList? after c).map tidy)) =
        [(0, some false)] :=
  ⟨_, "import \x7b sign,, abs \x7d from \"std/Math\";\n".toList, rfl, by decide +kernel⟩

end Import

end YapAssist
