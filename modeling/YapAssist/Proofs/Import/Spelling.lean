import YapAssist.Proofs.Import.Clause

/-!
# How import statements are spelled

An import statement is read up to its semicolon, or up to the quote behind its module if it has
none. `Import.Spelled` says what such a statement looks like and which clause it is:

* `Import.clauseAt?_append`, a spelled statement is read as its clause, whatever follows it, unless
  that goes on with a semicolon (`Import.Ends`);
* `Import.exists_spelled`, nothing else is read.
-/

namespace YapAssist

namespace Position

/-- An offset that is counted from the end of a text and goes on over `u`. -/
theorem ofOffset_within (s u v : Text) :
    ofOffset (s ++ (u ++ v))
        (0 + ((s ++ (u ++ v)).byteSize - (u ++ v).byteSize) + u.byteSize) = behind (s ++ u) := by
  have hsize : 0 + ((s ++ (u ++ v)).byteSize - (u ++ v).byteSize) + u.byteSize =
      (s ++ u).byteSize := by
    rw [Text.byteSize_append s (u ++ v), Text.byteSize_append s u]
    omega
  rw [hsize, ← List.append_assoc, ofOffset_byteSize]
  rfl

end Position

namespace Text

/-- A text that ends with a visible character. -/
def EndsVisible (t : Text) : Prop := ∃ c, t.getLast? = some c ∧ isBlank c = false

theorem EndsVisible.ne_nil {t : Text} (h : EndsVisible t) : t ≠ [] := by
  rcases h with ⟨c, hlast, -⟩
  rintro rfl
  simp at hlast

theorem EndsVisible.behind {t : Text} (h : EndsVisible t) (s : Text) : EndsVisible (s ++ t) := by
  rcases h with ⟨c, hlast, hc⟩
  exact ⟨c, by rw [getLast?_append_right (EndsVisible.ne_nil ⟨c, hlast, hc⟩), hlast], hc⟩

theorem EndsVisible.behind_feed {u v : Text} (h : EndsVisible (u ++ '\n' :: v)) :
    EndsVisible v := by
  obtain ⟨c, hlast, hc⟩ := h
  have hne : v ≠ [] := by
    rintro rfl
    rw [List.getLast?_concat, Option.some.injEq] at hlast
    rw [← hlast] at hc
    exact absurd hc (by decide)
  exact ⟨c, by rwa [getLast?_append_cons '\n' hne] at hlast, hc⟩

theorem EndsVisible.last {t : Text} (h : EndsVisible t) : ∀ c ∈ t.getLast?, isBlank c = false := by
  obtain ⟨d, hlast, hd⟩ := h
  intro c hc
  rw [hlast, Option.mem_some_iff] at hc
  rwa [← hc]

/-- A column can lie behind a visible character. -/
theorem EndsVisible.column {t : Text} (h : EndsVisible t) :
    ∀ c ∈ t.getLast?, c ≠ '\n' ∧ c ≠ '\r' := by
  intro c hc
  have hvisible := h.last c hc
  refine ⟨?_, ?_⟩ <;> rintro rfl <;> exact absurd hvisible (by decide)

theorem endsVisible_of_isIdentifier {symbol : Text} (h : isIdentifier symbol = true) :
    EndsVisible symbol := by
  have hlast := List.getLast?_eq_some_getLast (isIdentifier_chars h).1
  exact ⟨_, hlast, (tight_of_isIdentifier h).last _ hlast⟩

end Text

namespace Import

/-! ## The end of a statement -/

/-- What may stand behind a module: nothing, or blanks and a semicolon. -/
def Close (t : Text) : Prop := t = [] ∨ ∃ gap : Text, gap.Gap ∧ t = gap ++ [';']

/-- A statement ends before `rest`: it has a semicolon, or `rest` does not go on with one. -/
def Ends (body rest : Text) : Prop := body.getLast? = some ';' ∨ rest.trimStart.head? ≠ some ';'

theorem ends_append {t : Text} (h : t ≠ []) (s rest : Text) :
    Ends (s ++ t) rest ↔ Ends t rest := by
  rw [Ends, Ends, Text.getLast?_append_right h]

theorem afterSemicolon_append {close rest : Text} (h : Close close)
    (hends : Ends ('"' :: close) rest) : afterSemicolon (close ++ rest) = rest := by
  rcases h with rfl | ⟨gap, hgap, rfl⟩
  · have hnone : Text.after? [';'] rest.trimStart = none := by
      rw [Option.eq_none_iff_forall_ne_some]
      intro t ht
      rw [Text.after?_eq_some_iff] at ht
      rcases hends with hlast | hhead
      · simp at hlast
      · exact hhead (by rw [ht]; rfl)
    rw [List.nil_append, afterSemicolon, hnone]
    rfl
  · have hsome : Text.after? [';'] (Text.trimStart (gap ++ [';'] ++ rest)) = some rest := by
      rw [List.append_assoc, hgap.trimStart_append, List.singleton_append,
        Text.trimStart_cons_of_not_blank (by decide), Text.after?_eq_some_iff]
      rfl
    rw [afterSemicolon, hsome]
    rfl

theorem exists_close (t : Text) : ∃ close, Close close ∧ t = close ++ afterSemicolon t ∧
    Ends ('"' :: close) (afterSemicolon t) := by
  rcases Text.exists_gap_trimStart t with ⟨gap, hgap, hcut⟩
  cases hafter : Text.after? [';'] t.trimStart with
  | none =>
    have hrest : afterSemicolon t = t := by rw [afterSemicolon, hafter]; rfl
    rw [hrest]
    refine ⟨[], .inl rfl, rfl, .inr ?_⟩
    intro hhead
    rcases List.head?_eq_some_iff.1 hhead with ⟨more, hmore⟩
    rw [hmore, Text.after?_eq_some_iff.2 (show ';' :: more = [';'] ++ more from rfl)] at hafter
    simp at hafter
  | some rest =>
    have hrest : afterSemicolon t = rest := by rw [afterSemicolon, hafter]; rfl
    rw [hrest]
    refine ⟨gap ++ [';'], .inr ⟨gap, hgap, rfl⟩, ?_, .inl ?_⟩
    · rw [List.append_assoc, ← Text.after?_eq_some_iff.1 hafter]
      exact hcut
    · rw [← List.cons_append, List.getLast?_concat]

/-! ## The module -/

/-- A quoted module with the blanks before it, up to the end of the statement. -/
def Quoted (module t : Text) : Prop :=
  ∃ gap close : Text, gap.Gap ∧ '"' ∉ module ∧ Close close ∧
    t = gap ++ '"' :: (module ++ '"' :: close)

theorem Quoted.endsVisible {module t : Text} (h : Quoted module t) : t.EndsVisible := by
  rcases h with ⟨gap, close, -, -, hclose, rfl⟩
  have hend : Text.EndsVisible ('"' :: close) := by
    rcases hclose with rfl | ⟨gap, -, rfl⟩
    · exact ⟨'"', rfl, by decide⟩
    · exact ⟨';', by rw [← List.cons_append, List.getLast?_concat], by decide⟩
  have hcut : gap ++ '"' :: (module ++ '"' :: close) = (gap ++ '"' :: module) ++ '"' :: close := by
    simp
  rw [hcut]
  exact hend.behind _

theorem quoted?_append {module source rest : Text} (h : Quoted module source)
    (hends : Ends source rest) :
    ∃ tail, quoted? (source ++ rest) = some (module, tail) ∧ afterSemicolon tail = rest := by
  rcases h with ⟨gap, close, hgap, hmodule, hclose, rfl⟩
  have hcut : gap ++ '"' :: (module ++ '"' :: close) = (gap ++ '"' :: module) ++ '"' :: close := by
    simp
  rw [hcut, ends_append (by simp)] at hends
  refine ⟨close ++ rest, ?_, afterSemicolon_append hclose hends⟩
  have hopen : Text.after? ['"']
      (Text.trimStart (gap ++ '"' :: (module ++ '"' :: close) ++ rest)) =
      some (module ++ '"' :: (close ++ rest)) := by
    rw [List.append_assoc, hgap.trimStart_append, List.cons_append,
      Text.trimStart_cons_of_not_blank (by decide), Text.after?_eq_some_iff]
    simp
  have hend : Text.after? ['"'] ('"' :: (close ++ rest)) = some (close ++ rest) :=
    Text.after?_eq_some_iff.2 rfl
  rw [quoted?, hopen, Option.bind_some, Text.dropWhile_append_mark hmodule,
    Text.takeWhile_append_mark hmodule, hend]
  rfl

theorem exists_quoted {t module tail : Text} (h : quoted? t = some (module, tail)) :
    ∃ source, t = source ++ afterSemicolon tail ∧ Quoted module source ∧
      Ends source (afterSemicolon tail) := by
  rw [quoted?, Option.bind_eq_some_iff] at h
  rcases h with ⟨inside, hopen, h⟩
  rcases Option.map_eq_some_iff.1 h with ⟨rest, hend, hfound⟩
  rw [Prod.mk.injEq] at hfound
  rcases hfound with ⟨rfl, rfl⟩
  rw [Text.after?_eq_some_iff] at hopen
  rcases Text.exists_gap_trimStart t with ⟨gap, hgap, hgapCut⟩
  rcases exists_close rest with ⟨close, hclose, hrest, hends⟩
  rcases Text.cut_of_after?_mark hend with ⟨hinside, hmodule⟩
  generalize inside.takeWhile (· != '"') = module at hinside hmodule
  refine ⟨gap ++ '"' :: (module ++ '"' :: close), ?_, ⟨gap, close, hgap, hmodule, hclose, rfl⟩, ?_⟩
  · have hsource : gap ++ '"' :: (module ++ '"' :: close) ++ afterSemicolon rest =
        gap ++ '"' :: (module ++ '"' :: (close ++ afterSemicolon rest)) := by simp
    rw [hsource, ← hrest, ← hinside, hgapCut, hopen]
    rfl
  · have hcut : gap ++ '"' :: (module ++ '"' :: close) =
        (gap ++ '"' :: module) ++ '"' :: close := by simp
    rwa [hcut, ends_append (by simp)]

/-- What follows a list: the word `from` and the module. -/
def QuotedFrom (module t : Text) : Prop :=
  ∃ gap source : Text, gap.Gap ∧ Quoted module source ∧ t = gap ++ (['f', 'r', 'o', 'm'] ++ source)

theorem QuotedFrom.endsVisible {module t : Text} (h : QuotedFrom module t) : t.EndsVisible := by
  rcases h with ⟨gap, source, -, hsource, rfl⟩
  rw [← List.append_assoc]
  exact hsource.endsVisible.behind _

/-- Whether a statement with a list has ended is seen behind the list. -/
theorem QuotedFrom.ends_iff {module tail : Text} (h : QuotedFrom module tail)
    (lead gap list rest : Text) :
    Ends (listHead lead gap ++ (list ++ '}' :: tail)) rest ↔ Ends tail rest := by
  have hcut : listHead lead gap ++ (list ++ '}' :: tail) =
      (listHead lead gap ++ list ++ ['}']) ++ tail := by simp
  rw [hcut, ends_append h.endsVisible.ne_nil]

theorem readSource?_append {module tail rest : Text} (h : QuotedFrom module tail)
    (hends : Ends tail rest) : readSource? (tail ++ rest) = some (module, rest) := by
  rcases h with ⟨gap, source, hgap, hsource, rfl⟩
  rw [← List.append_assoc, ends_append hsource.endsVisible.ne_nil] at hends
  rcases quoted?_append hsource hends with ⟨tail, hquoted, hrest⟩
  have hfrom : Text.after? ['f', 'r', 'o', 'm']
      (Text.trimStart (gap ++ (['f', 'r', 'o', 'm'] ++ source) ++ rest)) =
      some (source ++ rest) := by
    rw [List.append_assoc, hgap.trimStart_append, Text.after?_eq_some_iff, List.append_assoc]
    exact Text.trimStart_cons_of_not_blank (by decide) _
  rw [readSource?, hfrom, Option.bind_some, hquoted, Option.map_some, hrest]

theorem exists_quotedFrom {t module rest : Text} (h : readSource? t = some (module, rest)) :
    ∃ tail, t = tail ++ rest ∧ QuotedFrom module tail ∧ Ends tail rest := by
  rcases Option.map_eq_some_iff.1 h with ⟨⟨name, after⟩, hread, hfound⟩
  rw [Prod.mk.injEq] at hfound
  rcases hfound with ⟨rfl, rfl⟩
  rcases Option.bind_eq_some_iff.1 hread with ⟨inside, hfrom, hquoted⟩
  rw [Text.after?_eq_some_iff] at hfrom
  rcases Text.exists_gap_trimStart t with ⟨gap, hgap, hgapCut⟩
  rcases exists_quoted hquoted with ⟨source, hinside, hsource, hends⟩
  refine ⟨gap ++ (['f', 'r', 'o', 'm'] ++ source), ?_, ⟨gap, source, hgap, hsource, rfl⟩, ?_⟩
  · rw [hgapCut, hfrom, hinside]
    simp
  · rwa [← List.append_assoc, ends_append hsource.endsVisible.ne_nil]

/-! ## Statements -/

/-- The clause at the beginning of a text. -/
def clauseAt? (found : Text) : Option Clause :=
  (Statement.read? found).map (Clause.ofStatement found 0 0 found)

/-- The spelling of a statement and its clause, both counted from the beginning of the
statement. -/
inductive Spelled : Text → Clause → Prop
  | all {lead module source : Text} (hlead : Indent lead) (hsource : Quoted module source) :
    Spelled (lead ++ (['i', 'm', 'p', 'o', 'r', 't'] ++ source))
      { module := module
        names := .all
        line := 0
        endLine := (lead ++ (['i', 'm', 'p', 'o', 'r', 't'] ++ source)).count '\n' }
  | listed {lead gap list module tail : Text} (hlead : Indent lead) (hgap : gap.Gap)
      (hlist : '}' ∉ list) (htail : QuotedFrom module tail) :
    Spelled (listHead lead gap ++ (list ++ '}' :: tail))
      { module := module
        names := .listed list.listItems (.behind (listHead lead gap ++ list.trimEnd))
          (.behind (listHead lead gap ++ list))
        line := 0
        endLine := (listHead lead gap ++ (list ++ '}' :: tail)).count '\n' }

theorem Spelled.line_eq {body : Text} {c : Clause} (h : Spelled body c) : c.line = 0 := by
  cases h <;> rfl

theorem Spelled.endLine_eq {body : Text} {c : Clause} (h : Spelled body c) :
    c.endLine = body.count '\n' := by
  cases h <;> rfl

/-- A statement ends with a visible character. -/
theorem Spelled.endsVisible {body : Text} {c : Clause} (h : Spelled body c) :
    body.EndsVisible := by
  cases h with
  | all hlead hsource =>
    rw [← List.append_assoc]
    exact hsource.endsVisible.behind _
  | @listed lead gap list module tail hlead hgap hlist htail =>
    have hcut : listHead lead gap ++ (list ++ '}' :: tail) =
        (listHead lead gap ++ list ++ ['}']) ++ tail := by simp
    rw [hcut]
    exact htail.endsVisible.behind _

/-- A statement begins with the word `import`. -/
theorem Spelled.head?_trimStart {body : Text} {c : Clause} (h : Spelled body c) (rest : Text) :
    (Text.trimStart (body ++ rest)).head? = some 'i' := by
  have hhead : ∀ {lead : Text}, Indent lead → ∀ t : Text,
      (Text.trimStart (lead ++ (['i', 'm', 'p', 'o', 'r', 't'] ++ t))).head? = some 'i' := by
    intro lead hlead t
    rw [hlead.gap.trimStart_append]
    exact congrArg List.head? (Text.trimStart_cons_of_not_blank (by decide) _)
  cases h with
  | all hlead hsource =>
    rw [List.append_assoc, List.append_assoc]
    exact hhead hlead _
  | listed hlead hgap hlist htail =>
    rw [listHead, List.append_assoc, List.append_assoc, List.append_assoc]
    exact hhead hlead _

theorem ofStatement_all (body rest module : Text) :
    Clause.ofStatement (body ++ rest) 0 0 (body ++ rest) ⟨module, none, rest⟩ =
      ⟨module, .all, 0, body.count '\n'⟩ := by
  have hend := Position.ofOffset_within body [] rest
  rw [List.nil_append, List.append_nil] at hend
  rw [Clause.ofStatement, Clause.mk.injEq]
  refine ⟨rfl, rfl, rfl, ?_⟩
  rw [← Position.line_behind, ← hend]
  rfl

theorem ofStatement_listed (lead gap list tail rest module : Text) :
    Clause.ofStatement (listHead lead gap ++ (list ++ '}' :: tail) ++ rest) 0 0
        (listHead lead gap ++ (list ++ '}' :: tail) ++ rest)
        ⟨module, some (list, list ++ '}' :: (tail ++ rest)), rest⟩ =
      ⟨module, .listed list.listItems (.behind (listHead lead gap ++ list.trimEnd))
        (.behind (listHead lead gap ++ list)), 0,
        (listHead lead gap ++ (list ++ '}' :: tail)).count '\n'⟩ := by
  have hend := Position.ofOffset_within (listHead lead gap ++ (list ++ '}' :: tail)) [] rest
  rw [List.nil_append, List.append_nil] at hend
  rcases Text.exists_gap_trimEnd list with ⟨back, -, hcut⟩
  have hlist := Position.ofOffset_within (listHead lead gap) list.trimEnd
    (back ++ '}' :: (tail ++ rest))
  rw [← List.append_assoc list.trimEnd, ← hcut] at hlist
  have hbrace := Position.ofOffset_within (listHead lead gap) list ('}' :: (tail ++ rest))
  have hfound : listHead lead gap ++ (list ++ '}' :: tail) ++ rest =
      listHead lead gap ++ (list ++ '}' :: (tail ++ rest)) := by simp
  rw [hfound] at hend ⊢
  rw [Clause.ofStatement, Clause.mk.injEq, Names.listed.injEq]
  refine ⟨rfl, ⟨rfl, hlist, hbrace⟩, rfl, ?_⟩
  rw [← Position.line_behind, ← hend]
  rfl

/-- A spelled statement is read as its clause. -/
theorem clauseAt?_append {body rest : Text} {c : Clause} (h : Spelled body c)
    (hends : Ends body rest) : clauseAt? (body ++ rest) = some c := by
  cases h with
  | @all lead module source hlead hsource =>
    have himport : afterImport? (lead ++ (['i', 'm', 'p', 'o', 'r', 't'] ++ source) ++ rest) =
        some (source ++ rest) := by
      rw [List.append_assoc, List.append_assoc, afterImport?_eq hlead]
    have hopen : Text.after? ['{'] (Text.trimStart (source ++ rest)) = none := by
      -- the next visible character is a quote
      rcases hsource with ⟨gap, close, hgap, -, -, rfl⟩
      rw [List.append_assoc, hgap.trimStart_append, List.cons_append,
        Text.trimStart_cons_of_not_blank (by decide)]
      rfl
    have hnamed : readNamed? (lead ++ (['i', 'm', 'p', 'o', 'r', 't'] ++ source) ++ rest) =
        none := by
      rw [readNamed?, himport, Option.bind_some, hopen]
      rfl
    rw [← List.append_assoc, ends_append hsource.endsVisible.ne_nil] at hends
    rcases quoted?_append hsource hends with ⟨tail, hquoted, hrest⟩
    have hall : readAll? (lead ++ (['i', 'm', 'p', 'o', 'r', 't'] ++ source) ++ rest) =
        some ⟨module, none, rest⟩ := by
      rw [readAll?, himport, Option.bind_some, hquoted, Option.map_some, hrest]
    rw [clauseAt?, Statement.read?, hnamed, Option.none_or, hall, Option.map_some,
      ofStatement_all]
  | @listed lead gap list module tail hlead hgap hlist htail =>
    rw [htail.ends_iff] at hends
    have hfound : listHead lead gap ++ (list ++ '}' :: tail) ++ rest =
        listHead lead gap ++ (list ++ '}' :: (tail ++ rest)) := by simp
    have hnamed : readNamed? (listHead lead gap ++ (list ++ '}' :: tail) ++ rest) =
        some ⟨module, some (list, list ++ '}' :: (tail ++ rest)), rest⟩ := by
      rw [hfound, readNamed?_eq hlead hgap hlist, readSource?_append htail hends]
      rfl
    rw [clauseAt?, Statement.read?, hnamed, Option.some_or, Option.map_some, ofStatement_listed]

/-- What is read as a clause is a spelled statement. -/
theorem exists_spelled {found : Text} {c : Clause} (h : clauseAt? found = some c) :
    ∃ body rest, found = body ++ rest ∧ Spelled body c ∧ Ends body rest := by
  rcases Option.map_eq_some_iff.1 h with ⟨s, hread, rfl⟩
  rw [Statement.read?, Option.or_eq_some_iff] at hread
  rcases hread with hnamed | ⟨-, hall⟩
  · rcases exists_of_readNamed? hnamed with ⟨lead, gap, list, after, rfl, hlead, hgap, hlist, -⟩
    rw [readNamed?_eq hlead hgap hlist, Option.map_eq_some_iff] at hnamed
    rcases hnamed with ⟨⟨module, rest⟩, hsource, rfl⟩
    rcases exists_quotedFrom hsource with ⟨tail, rfl, htail, hends⟩
    have hfound : listHead lead gap ++ (list ++ '}' :: (tail ++ rest)) =
        listHead lead gap ++ (list ++ '}' :: tail) ++ rest := by simp
    refine ⟨listHead lead gap ++ (list ++ '}' :: tail), rest, hfound, ?_, ?_⟩
    · rw [hfound, ofStatement_listed]
      exact .listed hlead hgap hlist htail
    · rwa [htail.ends_iff]
  · rcases Option.map_eq_some_iff.1 hall with ⟨⟨module, after⟩, hquoted, rfl⟩
    rcases Option.bind_eq_some_iff.1 hquoted with ⟨inside, himport, hmodule⟩
    rcases exists_of_afterImport? himport with ⟨lead, hlead, rfl⟩
    rcases exists_quoted hmodule with ⟨source, rfl, hsource, hends⟩
    have hfound : lead ++ (['i', 'm', 'p', 'o', 'r', 't'] ++ (source ++ afterSemicolon after)) =
        lead ++ (['i', 'm', 'p', 'o', 'r', 't'] ++ source) ++ afterSemicolon after := by simp
    refine ⟨lead ++ (['i', 'm', 'p', 'o', 'r', 't'] ++ source), afterSemicolon after, hfound, ?_,
      ?_⟩
    · rw [hfound, ofStatement_all]
      exact .all hlead hsource
    · rwa [← List.append_assoc, ends_append hsource.endsVisible.ne_nil]

end Import

end YapAssist
