import YapAssist.Import.Clause
import YapAssist.Proofs.Position

/-!
# Where import clauses stand

A text has a clause wherever a line begins with an import statement. Both directions are stated for
a text that is cut in two at the beginning of that line:

* `Import.mem_clauses`, a statement at the beginning of a line is a clause;
* `Import.exists_of_mem_clauses`, every clause is such a statement;
* `Import.exists_of_readNamed?`, `Import.readNamed?_eq`, what a statement with a list looks like.
  Only the list itself may change without the statement becoming another one.
-/

namespace YapAssist

namespace Import

open Line

/-! ## Lines that begin with `import` -/

/-- The indentation of an import statement. -/
def Indent (t : Text) : Prop := ∀ c ∈ t, c = ' ' ∨ c = '\t'

theorem Indent.gap {t : Text} (h : Indent t) : t.Gap := by
  intro c hc
  rcases h c hc with rfl | rfl <;> decide

theorem Indent.feed_not_mem {t : Text} (h : Indent t) : '\n' ∉ t := by
  intro hn
  rcases h '\n' hn with he | he <;> exact absurd he (by decide)

theorem afterImport?_eq {lead : Text} (h : Indent lead) (t : Text) :
    afterImport? (lead ++ (['i', 'm', 'p', 'o', 'r', 't'] ++ t)) = some t := by
  have hdrop : (lead ++ (['i', 'm', 'p', 'o', 'r', 't'] ++ t)).dropWhile
      (fun c => c == ' ' || c == '\t') = ['i', 'm', 'p', 'o', 'r', 't'] ++ t := by
    have hall : ∀ c ∈ lead, (c == ' ' || c == '\t') = true := by
      intro c hc
      simpa using h c hc
    rw [List.dropWhile_append_of_pos hall]
    rfl
  rw [afterImport?, hdrop, Text.after?_eq_some_iff]

theorem exists_of_afterImport? {t rest : Text} (h : afterImport? t = some rest) :
    ∃ lead, Indent lead ∧ t = lead ++ (['i', 'm', 'p', 'o', 'r', 't'] ++ rest) := by
  rw [afterImport?, Text.after?_eq_some_iff] at h
  refine ⟨t.takeWhile fun c => c == ' ' || c == '\t', ?_, ?_⟩
  · intro c hc
    have hblank := List.all_eq_true.1 List.all_takeWhile c hc
    simpa using hblank
  · rw [← h, List.takeWhile_append_dropWhile]

theorem endsWord_of_isPrefix {s t : Text} (h : s <+: t) (ht : endsWord t = true) :
    endsWord s = true := by
  rcases h with ⟨more, rfl⟩
  cases s with
  | nil => rfl
  | cons c s => exact ht

/-- The line on which an import statement starts is an import line. -/
theorem exists_isImport_block {lead t : Text} (hlead : Indent lead) (ht : endsWord t = true) :
    ∃ block rest, Text.blocks (lead ++ (['i', 'm', 'p', 'o', 'r', 't'] ++ t)) = block :: rest ∧
      isImport block = true := by
  have hopen : '\n' ∉ lead ++ ['i', 'm', 'p', 'o', 'r', 't'] := by simp [hlead.feed_not_mem]
  rcases Text.exists_cons_blocks hopen (by simp) t with ⟨more, rest, hblocks⟩
  refine ⟨_, rest, by rw [← List.append_assoc, hblocks], ?_⟩
  have hmore : more <+: t := by
    have hflat := Text.flatten_blocks (lead ++ ['i', 'm', 'p', 'o', 'r', 't'] ++ t)
    rw [hblocks, List.flatten_cons, List.append_assoc] at hflat
    exact ⟨rest.flatten, List.append_cancel_left hflat⟩
  have hlast : ∀ c ∈ (['i', 'm', 'p', 'o', 'r', 't'] : Text).getLast?, isBlank c = false := by
    rintro c ⟨⟩
    decide
  rcases Text.exists_append_dropWhile hlast more with ⟨kept, hkept⟩
  have htrim : (lead ++ ['i', 'm', 'p', 'o', 'r', 't'] ++ more).trim =
      ['i', 'm', 'p', 'o', 'r', 't'] ++ kept := by
    rw [Text.trim, List.append_assoc, hlead.gap.trimStart_append]
    exact hkept
  -- what the trimmed line has behind the word begins as `t` does
  have hkeptFirst : kept <+: more := by
    have h := Text.dropWhile_isPrefix isBlank (['i', 'm', 'p', 'o', 'r', 't'] ++ more)
    rw [hkept] at h
    exact (List.prefix_append_right_inj _).1 h
  have hword : Text.after? ['i', 'm', 'p', 'o', 'r', 't']
      (['i', 'm', 'p', 'o', 'r', 't'] ++ kept) = some kept := Text.after?_eq_some_iff.2 rfl
  rw [isImport, htrim, afterWord?, hword, Option.isSome_filter]
  exact endsWord_of_isPrefix (hkeptFirst.trans hmore) ht

/-! ## Clauses and statements -/

/-- A clause starts in the first block, or in a later one. -/
theorem mem_clausesFrom_cons {text : Text} {start line : Nat} {block : Text} {blocks : List Text}
    {c : Clause} : c ∈ clausesFrom text start line (block :: blocks) ↔
      (isImport block = true ∧ ∃ s, Statement.read? (block :: blocks).flatten = some s ∧
        c = Clause.ofStatement text start line (block :: blocks).flatten s) ∨
      c ∈ clausesFrom text (start + block.byteSize) (line + 1) blocks := by
  rw [clausesFrom]
  by_cases himport : isImport block = true
  · rw [if_pos himport]
    cases hread : Statement.read? (block :: blocks).flatten with
    | none => simp only [hread, reduceCtorEq, false_and, exists_false, and_false, false_or]
    | some s =>
      simp only [hread, himport, List.mem_cons, Option.some.injEq, true_and, exists_eq_left']
  · simp [himport]

theorem mem_clausesFrom_append {text : Text} {start line : Nat} {front back : List Text}
    {c : Clause}
    (h : c ∈ clausesFrom text (start + Text.byteSize front.flatten) (line + front.length) back) :
    c ∈ clausesFrom text start line (front ++ back) := by
  induction front generalizing start line with
  | nil => simpa using h
  | cons block front ih =>
    rw [List.cons_append, mem_clausesFrom_cons]
    right
    apply ih
    rw [List.flatten_cons, Text.byteSize_append, List.length_cons] at h
    rwa [Nat.add_assoc, Nat.add_assoc, Nat.add_comm 1]

/-- A statement at the beginning of an import line is a clause. -/
theorem mem_clauses {front found block : Text} {rest : List Text} {s : Statement}
    (hfront : Text.Closed front) (hblocks : Text.blocks found = block :: rest)
    (himport : isImport block = true) (hread : Statement.read? found = some s) :
    Clause.ofStatement (front ++ found) front.byteSize front.blocks.length found s ∈
      clauses (front ++ found) := by
  have hfound : (block :: rest).flatten = found := by rw [← hblocks, Text.flatten_blocks]
  rw [clauses, Text.blocks_append hfront, hblocks]
  apply mem_clausesFrom_append
  rw [Text.flatten_blocks, mem_clausesFrom_cons, hfound, Nat.zero_add, Nat.zero_add]
  exact .inl ⟨himport, s, hread, rfl⟩

theorem exists_of_mem_clausesFrom {text : Text} {start line : Nat} {blocks : List Text} {c : Clause}
    (h : c ∈ clausesFrom text start line blocks) :
    ∃ front block rest s, blocks = front ++ block :: rest ∧
      Statement.read? (block :: rest).flatten = some s ∧
      c = Clause.ofStatement text (start + Text.byteSize front.flatten) (line + front.length)
        (block :: rest).flatten s := by
  induction blocks generalizing start line with
  | nil => simp [clausesFrom] at h
  | cons block blocks ih =>
    rcases mem_clausesFrom_cons.1 h with ⟨-, s, hread, hclause⟩ | h
    · exact ⟨[], block, blocks, s, rfl, hread, hclause⟩
    · rcases ih h with ⟨front, b, rest, s, rfl, hread, hclause⟩
      refine ⟨block :: front, b, rest, s, rfl, hread, ?_⟩
      have hsize : Text.byteSize (block :: front).flatten =
          block.byteSize + Text.byteSize front.flatten := Text.byteSize_append _ _
      rw [hclause, hsize, Nat.add_assoc, List.length_cons, Nat.add_assoc line, Nat.add_comm 1]

/-- Every clause of a text is a statement at the beginning of one of its lines. -/
theorem exists_of_mem_clauses {text : Text} {c : Clause} (h : c ∈ clauses text) :
    ∃ front found s, text = front ++ found ∧ Text.Closed front ∧
      Statement.read? found = some s ∧
      c = Clause.ofStatement text front.byteSize front.blocks.length found s := by
  rcases exists_of_mem_clausesFrom h with ⟨front, block, rest, s, hblocks, hread, hclause⟩
  refine ⟨front.flatten, (block :: rest).flatten, s, ?_,
    Text.closed_flatten_of_blocks hblocks, hread, ?_⟩
  · rw [← List.flatten_append, ← hblocks, Text.flatten_blocks]
  · rw [hclause, (Text.blocks_flatten_of_append hblocks).1, Nat.zero_add, Nat.zero_add]

/-! ## Statements with a list -/

/-- What follows the list of a statement: the module and the rest of the text. -/
def readSource? (tail : Text) : Option (Text × Text) :=
  ((Text.after? ['f', 'r', 'o', 'm'] tail.trimStart).bind quoted?).map fun found =>
    (found.1, afterSemicolon found.2)

/-- A statement up to and including the brace that opens its list. -/
def listHead (lead gap : Text) : Text := lead ++ (['i', 'm', 'p', 'o', 'r', 't'] ++ (gap ++ ['{']))

/-- A statement is read from its list and what follows it. -/
theorem readNamed?_eq {lead gap list : Text} (hlead : Indent lead) (hgap : gap.Gap)
    (hlist : '}' ∉ list) (tail : Text) :
    readNamed? (listHead lead gap ++ (list ++ '}' :: tail)) =
      (readSource? tail).map fun found => ⟨found.1, some (list, list ++ '}' :: tail), found.2⟩ := by
  have hcut : listHead lead gap ++ (list ++ '}' :: tail) =
      lead ++ (['i', 'm', 'p', 'o', 'r', 't'] ++ (gap ++ '{' :: (list ++ '}' :: tail))) := by
    simp [listHead]
  have hopen : Text.after? ['{'] (Text.trimStart (gap ++ '{' :: (list ++ '}' :: tail))) =
      some (list ++ '}' :: tail) := by
    rw [hgap.trimStart_append, Text.trimStart_cons_of_not_blank (by decide),
      Text.after?_eq_some_iff]
    rfl
  have hclose : Text.after? ['}'] ('}' :: tail) = some tail := Text.after?_eq_some_iff.2 rfl
  rw [hcut, readNamed?, afterImport?_eq hlead, Option.bind_some, hopen, Option.bind_some,
    Text.dropWhile_append_mark hlist, Text.takeWhile_append_mark hlist, hclose, Option.bind_some,
    readSource?]
  -- both sides read the source in the same steps
  cases Text.after? ['f', 'r', 'o', 'm'] (Text.trimStart tail) with
  | none => rfl
  | some rest =>
    rw [Option.bind_some, Option.bind_some]
    cases quoted? rest <;> rfl

/-- What a statement with a list looks like. -/
theorem exists_of_readNamed? {t : Text} {s : Statement} (h : readNamed? t = some s) :
    ∃ lead gap list tail, t = listHead lead gap ++ (list ++ '}' :: tail) ∧ Indent lead ∧ gap.Gap ∧
      '}' ∉ list ∧ s.list? = some (list, list ++ '}' :: tail) := by
  rw [readNamed?, Option.bind_eq_some_iff] at h
  rcases h with ⟨t₁, himport, h⟩
  rcases Option.bind_eq_some_iff.1 h with ⟨inside, hopen, h⟩
  rcases Option.bind_eq_some_iff.1 h with ⟨tail, hclose, h⟩
  rcases Option.bind_eq_some_iff.1 h with ⟨t₂, -, h⟩
  rcases Option.map_eq_some_iff.1 h with ⟨found, -, rfl⟩
  rcases exists_of_afterImport? himport with ⟨lead, hlead, rfl⟩
  rcases Text.exists_gap_trimStart t₁ with ⟨gap, hgap, hgapCut⟩
  rw [Text.after?_eq_some_iff] at hopen
  rcases Text.cut_of_after?_mark hclose with ⟨hinside, hlist⟩
  refine ⟨lead, gap, inside.takeWhile (· != '}'), tail, ?_, hlead, hgap, hlist, ?_⟩
  · rw [← hinside, hgapCut, hopen]
    simp [listHead]
  · rw [← hinside]

theorem endsWord_gap_append {gap : Text} (hgap : gap.Gap) {c : Char} (hc : isWord c = false)
    (t : Text) : endsWord (gap ++ c :: t) = true := by
  cases gap with
  | nil => simp [endsWord, hc]
  | cons d gap =>
    have hd := isWord_eq_false_of_isBlank (hgap d List.mem_cons_self)
    simp [endsWord, hd]

/-- A statement with a list at the beginning of a line is a clause for its module on that line, with
the items of the list. -/
theorem exists_clause {front lead gap list tail module rest : Text} (hfront : Text.Closed front)
    (hlead : Indent lead) (hgap : gap.Gap) (hlist : '}' ∉ list)
    (hsource : readSource? tail = some (module, rest)) :
    ∃ c ∈ clauses (front ++ (listHead lead gap ++ (list ++ '}' :: tail))), c.module = module ∧
      c.line = front.blocks.length ∧
      ∃ listEnd closeBrace, c.names = .listed list.listItems listEnd closeBrace := by
  have hread : Statement.read? (listHead lead gap ++ (list ++ '}' :: tail)) =
      some ⟨module, some (list, list ++ '}' :: tail), rest⟩ := by
    rw [Statement.read?, readNamed?_eq hlead hgap hlist, hsource]
    rfl
  have hword : endsWord (gap ++ '{' :: (list ++ '}' :: tail)) = true :=
    endsWord_gap_append hgap (by decide) _
  rcases exists_isImport_block hlead hword with ⟨block, more, hblocks, himport⟩
  have hcut : listHead lead gap ++ (list ++ '}' :: tail) =
      lead ++ (['i', 'm', 'p', 'o', 'r', 't'] ++ (gap ++ '{' :: (list ++ '}' :: tail))) := by
    simp [listHead]
  rw [← hcut] at hblocks
  exact ⟨_, mem_clauses hfront hblocks himport hread, rfl, rfl, _, _, rfl⟩

/-- What a clause with a list looks like, and where its list ends and is closed. -/
theorem exists_of_listed {text : Text} {c : Clause} {symbols : List Text}
    {listEnd closeBrace : Position} (h : c ∈ clauses text)
    (hnames : c.names = .listed symbols listEnd closeBrace) :
    ∃ front lead gap list tail rest, text = front ++ (listHead lead gap ++ (list ++ '}' :: tail)) ∧
      Text.Closed front ∧ c.line = front.blocks.length ∧ Indent lead ∧ gap.Gap ∧ '}' ∉ list ∧
      readSource? tail = some (c.module, rest) ∧ symbols = list.listItems ∧
      listEnd = Position.ofOffset text (front ++ (listHead lead gap ++ list.trimEnd)).byteSize ∧
      closeBrace = Position.ofOffset text (front ++ (listHead lead gap ++ list)).byteSize := by
  rcases exists_of_mem_clauses h with ⟨front, found, s, htext, hfront, hread, rfl⟩
  have hnamed : readNamed? found = some s := by
    rw [Statement.read?, Option.or_eq_some_iff] at hread
    rcases hread with hread | ⟨-, hread⟩
    · exact hread
    · -- an import of all names has no list
      rcases Option.map_eq_some_iff.1 hread with ⟨module, -, rfl⟩
      simp [Clause.ofStatement] at hnames
  rcases exists_of_readNamed? hnamed with ⟨lead, gap, list, tail, rfl, hlead, hgap, hlist, hs⟩
  rw [readNamed?_eq hlead hgap hlist, Option.map_eq_some_iff] at hnamed
  rcases hnamed with ⟨⟨module, rest⟩, hsource, rfl⟩
  have hsize : (listHead lead gap ++ (list ++ '}' :: tail)).byteSize -
      (list ++ '}' :: tail).byteSize = (listHead lead gap).byteSize := by
    rw [Text.byteSize_append]
    omega
  simp only [Clause.ofStatement, Names.listed.injEq, hsize] at hnames
  refine ⟨front, lead, gap, list, tail, rest, htext, hfront, rfl, hlead, hgap, hlist, hsource,
    hnames.1.symm, ?_, ?_⟩
  · rw [← hnames.2.1, Text.byteSize_append, Text.byteSize_append, Nat.add_assoc]
  · rw [← hnames.2.2, Text.byteSize_append, Text.byteSize_append, Nat.add_assoc]

end Import

end YapAssist
