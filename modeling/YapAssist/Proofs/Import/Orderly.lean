import Mathlib.Data.List.Pairwise
import YapAssist.Proofs.Import.Places

/-!
# Statements that keep to their lines

A statement may read on over many lines, so text that is put in somewhere could end up inside a
statement, end it or go on with it. In a text whose import lines all start a clause and whose
clauses cover lines of their own (`Import.Orderly`) it is known how far each statement reads:

* `Import.clauseAt?_of_within`, a clause does not depend on the text behind its statement;
* `Import.Orderly.startingIn_front`, the clauses before a clause stay when the text from there on
  changes;
* `Import.Orderly.startingIn_lineEnd`, the clauses up to the last line of a clause stay when other
  text follows on the next line.
-/

namespace YapAssist

namespace Text

/-! ## Insertions inside a line -/

/-- What is inserted into a line, behind a visible character, changes the block of that line
only. -/
theorem exists_blocks_insert {s : Text} (hs : s.EndsVisible) (t : Text) :
    ∃ front line more back, line.EndsVisible ∧ s = front.flatten ++ line ∧
      t = more ++ back.flatten ∧ s.count '\n' = front.length ∧
      ∀ new : Text, '\n' ∉ new →
        blocks (s ++ (new ++ t)) = front ++ (line ++ (new ++ more)) :: back := by
  induction s using lines_induction with
  | open_ s hopen =>
    have hcount : s.count '\n' = 0 := List.count_eq_zero_of_not_mem hopen
    by_cases ht : '\n' ∈ t
    · rcases exists_feed_split ht with ⟨u, v, rfl, hu⟩
      refine ⟨[], s, u ++ ['\n'], blocks v, hs, rfl, by simp, hcount, ?_⟩
      intro new hnew
      have hcut : s ++ (new ++ (u ++ '\n' :: v)) = (s ++ (new ++ u)) ++ '\n' :: v := by simp
      rw [hcut, blocks_append_feed (by simp [hopen, hnew, hu])]
      simp
    · refine ⟨[], s, t, [], hs, rfl, by simp, hcount, ?_⟩
      intro new hnew
      rw [blocks_of_not_mem (by simp [hopen, hnew, ht]), if_neg (by simp [hs.ne_nil])]
      rfl
  | line u v hu ih =>
    rcases ih hs.behind_feed with ⟨front, line, more, back, hline, rfl, rfl, hcount, hblocks⟩
    refine ⟨(u ++ ['\n']) :: front, line, more, back, hline, by simp, rfl, ?_, ?_⟩
    · rw [List.count_append, List.count_eq_zero_of_not_mem hu, List.count_cons_self, hcount,
        List.length_cons, Nat.zero_add]
    · intro new hnew
      rw [List.append_assoc, List.cons_append, blocks_append_feed hu, hblocks new hnew,
        List.cons_append]

/-! ## The ends of lines -/

/-- The end of a line: only blanks stand between it and the next line. -/
theorem exists_line_end {text line : Text} {index : Nat} (h : text.lines[index]? = some line) :
    ∃ front last gap back, text.blocks = front ++ (last ++ gap) :: back ∧ front.length = index ∧
      '\n' ∉ last ∧ gap.Gap ∧ ('\n' ∈ gap ∨ back = []) ∧
      (Position.lineEnd line index).toOffset text = byteSize (front.flatten ++ last) ∧
      ∀ s : Text, '\n' ∉ s → s ≠ [] → blocks (s ++ (gap ++ back.flatten)) = (s ++ gap) :: back := by
  rw [lines, List.getElem?_map, Option.map_eq_some_iff] at h
  rcases h with ⟨block, hblock, rfl⟩
  rcases List.getElem?_eq_some_iff.1 hblock with ⟨hindex, rfl⟩
  have hcut : text.blocks = text.blocks.take index ++ text.blocks[index] ::
      text.blocks.drop (index + 1) := by
    rw [← List.drop_eq_getElem_cons hindex, List.take_append_drop]
  have hlength : (text.blocks.take index).length = index := by
    rw [List.length_take]
    omega
  generalize text.blocks.take index = front at hcut hlength
  generalize text.blocks[index] = block at hcut
  generalize text.blocks.drop (index + 1) = back at hcut
  have hback := (blocks_flatten_of_append hcut).2
  rcases exists_of_blocks_cons hback with ⟨s, hs, hblock⟩
  rcases columns_eq hs (hblock.imp_right And.left) with ⟨hcolumns, hline⟩
  obtain ⟨gap, hgap, hreturns⟩ : ∃ gap, Gap gap ∧ s = dropReturns s ++ gap :=
    ⟨s.returns, gap_returns s, (dropReturns_append_returns s).symm⟩
  have hlast : '\n' ∉ dropReturns s := by
    intro hmem
    rw [hreturns] at hs
    exact hs (List.mem_append_left _ hmem)
  have hgapFeed : '\n' ∉ gap := by
    intro hmem
    rw [hreturns] at hs
    exact hs (List.mem_append_right _ hmem)
  have hoffset : (Position.lineEnd (withoutTerminator block) index).toOffset text =
      byteSize (front.flatten ++ dropReturns s) := by
    rw [Position.lineEnd, Position.toOffset, hcut, ← hlength, Position.offsetIn_append, hcolumns,
      hline, List.take_length]
  rcases hblock with hblock | ⟨hblock, rfl⟩
  · refine ⟨front, dropReturns s, gap ++ ['\n'], back, ?_, hlength, hlast, ?_, .inl (by simp),
      hoffset, ?_⟩
    · rw [hcut, ← List.append_assoc, ← hreturns, hblock]
    · apply hgap.append
      intro c hc
      rw [List.mem_singleton.1 hc]
      exact isBlank_feed
    · intro t ht _
      have hrest := (blocks_flatten_of_append (show blocks _ = [block] ++ back from hback)).2
      have hall : t ++ (gap ++ ['\n'] ++ back.flatten) = (t ++ gap) ++ '\n' :: back.flatten := by
        simp
      rw [hall, blocks_append_feed (by simp [ht, hgapFeed]), hrest]
      simp
  · refine ⟨front, dropReturns s, gap, [], ?_, hlength, hlast, hgap, .inr rfl, hoffset, ?_⟩
    · rw [hcut, ← hreturns, hblock]
    · intro t ht hne
      rw [List.flatten_nil, List.append_nil, blocks_of_not_mem (by simp [ht, hgapFeed]),
        if_neg (by simp [hne])]

/-! ## How far a statement goes -/

theorem isPrefix_of_count_lt {body s tail : Text} (h : body <+: s ++ tail)
    (hcount : body.count '\n' < s.count '\n') : body <+: s := by
  rcases List.prefix_or_prefix_of_prefix h (List.prefix_append s tail) with hbody | hs
  · exact hbody
  · have hle := hs.sublist.count_le '\n'
    omega

/-- What ends with a visible character on the line of a line end does not go past it. -/
theorem isPrefix_of_count_le {body s gap rest : Text} (h : body <+: s ++ (gap ++ rest))
    (hbody : body.EndsVisible) (hgap : gap.Gap) (hrest : '\n' ∈ gap ∨ rest = [])
    (hcount : body.count '\n' ≤ s.count '\n') : body <+: s := by
  rcases List.prefix_or_prefix_of_prefix h (List.prefix_append s (gap ++ rest)) with hs | hs
  · exact hs
  · rcases hs with ⟨more, rfl⟩
    have hmore : more <+: gap ++ rest := (List.prefix_append_right_inj s).1 h
    have hfeed : '\n' ∉ more := by
      rw [List.count_append] at hcount
      apply List.count_eq_zero.1
      omega
    -- on this line there are only blanks behind `s`
    have hblank : more <+: gap := by
      rcases List.prefix_or_prefix_of_prefix hmore (List.prefix_append gap rest) with hm | hm
      · exact hm
      · rcases hrest with hrest | rfl
        · exact absurd (hm.subset hrest) hfeed
        · rwa [List.append_nil] at hmore
    by_cases hnil : more = []
    · simp [hnil]
    · rcases hbody with ⟨c, hlast, hc⟩
      rw [getLast?_append_right hnil] at hlast
      have hmem : c ∈ gap := hblank.subset (List.mem_of_getLast? hlast)
      exact absurd hmem (hgap.not_mem hc)

theorem head?_trimStart_append {s : Text} (h : ¬ s.Gap) (t : Text) :
    (trimStart (s ++ t)).head? = (trimStart s).head? := by
  rcases exists_gap_trimStart s with ⟨gap, hgap, hcut⟩
  cases hs : trimStart s with
  | nil =>
    rw [hs, List.append_nil] at hcut
    exact absurd (hcut ▸ hgap) h
  | cons c rest =>
    have hc : isBlank c = false := head?_trimStart_not_blank s c (by rw [hs]; rfl)
    rw [hcut, hs, List.append_assoc, hgap.trimStart_append, List.cons_append,
      trimStart_cons_of_not_blank hc]
    rfl

end Text

namespace Import

open Line

/-- A statement that ends in `s` is read the same whatever follows, unless that is a semicolon. -/
theorem clauseAt?_of_within {s tail tail' : Text} {c : Clause} (h : clauseAt? (s ++ tail) = some c)
    (hwithin : ∀ body : Text, body <+: s ++ tail → body.EndsVisible →
      body.count '\n' = c.endLine → body <+: s)
    (htail : tail'.trimStart.head? ≠ some ';') : clauseAt? (s ++ tail') = some c := by
  rcases exists_spelled h with ⟨body, rest, hcut, hbody, hends⟩
  rcases hwithin body ⟨rest, hcut.symm⟩ hbody.endsVisible hbody.endLine_eq.symm with ⟨more, rfl⟩
  rw [List.append_assoc, List.append_cancel_left_eq] at hcut
  rw [List.append_assoc]
  apply clauseAt?_append hbody
  rcases hends with hlast | hhead
  · exact .inl hlast
  · right
    by_cases hgap : Text.Gap more
    · rwa [hgap.trimStart_append]
    · rwa [← hcut, Text.head?_trimStart_append hgap, ← Text.head?_trimStart_append hgap tail']
        at hhead

/-! ## Import lines -/

/-- Whether a text begins with a word is decided before the first character that ends a word. -/
theorem isSome_afterWord?_append {word : Text} (hword : ∀ c ∈ word, isWord c = true) {t rest : Text}
    (hrest : endsWord rest = true) :
    (afterWord? word (t ++ rest)).isSome = (afterWord? word t).isSome := by
  induction word generalizing t with
  | nil =>
    cases t with
    | nil =>
      rw [List.nil_append, afterWord?, afterWord?, Text.after?, Text.after?, Option.isSome_filter,
        Option.isSome_filter]
      exact hrest
    | cons c t => simp [afterWord?, Text.after?, endsWord]
  | cons a word ih =>
    cases t with
    | nil =>
      cases rest with
      | nil => rfl
      | cons c rest =>
        have hne : a ≠ c := by
          rintro rfl
          simp [endsWord, hword a List.mem_cons_self] at hrest
        rw [List.nil_append, afterWord?, Text.after?, if_neg hne]
        rfl
    | cons c t =>
      rw [List.cons_append, afterWord?, afterWord?, Text.after?, Text.after?]
      by_cases hc : a = c
      · rw [if_pos hc, if_pos hc]
        exact ih fun d hd => hword d (List.mem_cons_of_mem _ hd)
      · rw [if_neg hc, if_neg hc]

/-- Behind a visible character that ends a word, nothing decides whether a line is an import. -/
theorem isImport_append {line rest : Text} (hline : line.EndsVisible)
    (hrest : endsWord rest = true) : isImport (line ++ rest) = isImport line := by
  rcases hline with ⟨c, hlast, hc⟩
  rcases Text.exists_gap_trimStart line with ⟨gap, hgap, hcut⟩
  have hne : line.trimStart ≠ [] := by
    intro hnil
    rw [hnil, List.append_nil] at hcut
    rw [hcut] at hlast
    exact absurd (List.mem_of_getLast? hlast) (hgap.not_mem hc)
  have hvisible : ∀ d ∈ line.trimStart.getLast?, isBlank d = false := by
    intro d hd
    rw [hcut, Text.getLast?_append_right hne] at hlast
    rw [Option.mem_def, hlast, Option.some.injEq] at hd
    rwa [← hd]
  have hstart : Text.trimStart (line ++ rest) = line.trimStart ++ rest := by
    have hhead := Text.head?_trimStart_not_blank line
    conv => lhs; rw [hcut, List.append_assoc, hgap.trimStart_append]
    apply Text.trimStart_eq_self
    intro d hd
    rcases List.exists_cons_of_ne_nil hne with ⟨e, more, hmore⟩
    rw [hmore] at hd hhead
    exact hhead d hd
  rcases Text.exists_append_dropWhile hvisible rest with ⟨more, hmore⟩
  have hmoreRest : more <+: rest := by
    have hfirst := Text.dropWhile_isPrefix isBlank (line.trimStart ++ rest)
    rw [hmore] at hfirst
    exact (List.prefix_append_right_inj _).1 hfirst
  have htrim : Text.trim (line ++ rest) = line.trim ++ more := by
    rw [Text.trim, hstart, Text.trim, Text.trimEnd_eq_self hvisible]
    exact hmore
  have hends := endsWord_of_isPrefix hmoreRest hrest
  rw [isImport, isImport, htrim,
    isSome_afterWord?_append (List.all_eq_true.1 (by decide)) hends]

/-! ## Orderly texts -/

/-- Two clauses that cover lines of their own. -/
def Clause.Apart (c d : Clause) : Prop := c.endLine < d.line ∨ d.endLine < c.line

instance : Std.Symm Clause.Apart := ⟨fun _ _ => Or.symm⟩

instance : DecidableRel Clause.Apart := fun c d =>
  inferInstanceAs (Decidable (c.endLine < d.line ∨ d.endLine < c.line))

/-- The texts in which every import line starts a clause and the clauses cover lines of their
own. -/
structure Orderly (text : Text) : Prop where
  recognised : ∀ i (_ : i < text.blocks.length), isImport text.blocks[i] = true →
    ∃ c ∈ clauses text, c.line = i
  disjoint : (clauses text).Pairwise Clause.Apart

instance (text : Text) : Decidable (Orderly text) :=
  decidable_of_iff ((∀ i (_ : i < text.blocks.length), isImport text.blocks[i] = true →
    ∃ c ∈ clauses text, c.line = i) ∧ (clauses text).Pairwise Clause.Apart)
    ⟨fun h => ⟨h.1, h.2⟩, fun h => ⟨h.recognised, h.disjoint⟩⟩

theorem line_le_endLine {text : Text} {c : Clause} (h : c ∈ clauses text) : c.line ≤ c.endLine := by
  rcases List.append_of_mem h with ⟨before, later, hclauses⟩
  rw [clauses_eq] at hclauses
  rcases exists_of_startingIn hclauses with ⟨front, block, rest, here, -, -, hhere, rfl, -, -⟩
  rcases exists_spelled hhere with ⟨body, tail, -, hbody, -⟩
  show here.line + front.length ≤ here.endLine + front.length
  rw [hbody.line_eq]
  omega

theorem line_lt_of_mem_startingIn {blocks : List Text} {tail : Text} {c : Clause}
    (h : c ∈ startingIn blocks tail) : c.line < blocks.length := by
  rcases List.append_of_mem h with ⟨before, later, hclauses⟩
  rcases exists_of_startingIn hclauses with ⟨front, block, rest, here, rfl, -, hhere, rfl, -, -⟩
  rcases exists_spelled hhere with ⟨body, tail, -, hbody, -⟩
  show here.line + front.length < (front ++ block :: rest).length
  rw [hbody.line_eq, List.length_append, List.length_cons]
  omega

/-- Every import line starts a clause. -/
theorem Orderly.exists_here {text block : Text} {front rest : List Text} (h : Orderly text)
    (hblocks : text.blocks = front ++ block :: rest) (himport : isImport block = true) :
    ∃ here, clauseAt? (block :: rest).flatten = some here ∧ here.line = 0 ∧
      here.down front.length ∈ clauses text := by
  have hlength : front.length < text.blocks.length := by
    rw [hblocks, List.length_append, List.length_cons]
    omega
  have hget : text.blocks[front.length] = block := by simp [hblocks]
  rcases h.recognised front.length hlength (by rw [hget]; exact himport) with ⟨c, hc, hline⟩
  rcases List.append_of_mem hc with ⟨before, later, hclauses⟩
  rw [clauses_eq] at hclauses
  rcases exists_of_startingIn hclauses with
    ⟨front', block', rest', here, hblocks', -, hhere, rfl, -, -⟩
  rw [List.append_nil] at hhere
  rcases exists_spelled hhere with ⟨body, tail, -, hbody, -⟩
  -- the clause says which line it starts on
  have hfront : front'.length = front.length := by
    have hzero : here.line + front'.length = front.length := hline
    rwa [hbody.line_eq, Nat.zero_add] at hzero
  rcases List.append_inj (hblocks'.symm.trans hblocks) hfront with ⟨rfl, hrest⟩
  rw [List.cons.injEq] at hrest
  rcases hrest with ⟨rfl, rfl⟩
  exact ⟨here, hhere, hbody.line_eq, hc⟩

theorem Orderly.endLine_lt {text : Text} (h : Orderly text) {c d : Clause} (hc : c ∈ clauses text)
    (hd : d ∈ clauses text) (hlt : c.line < d.line) : c.endLine < d.line := by
  have hne : c ≠ d := by
    rintro rfl
    omega
  have hle := line_le_endLine hd
  rcases h.disjoint.forall hc hd hne with hbefore | hbehind
  · exact hbefore
  · omega

theorem Orderly.endLine_le {text : Text} (h : Orderly text) {c d : Clause} (hc : c ∈ clauses text)
    (hd : d ∈ clauses text) (hle : c.line ≤ d.endLine) : c.endLine ≤ d.endLine := by
  by_cases heq : c = d
  · exact Nat.le_of_eq (by rw [heq])
  · have hdle := line_le_endLine hd
    rcases h.disjoint.forall hc hd heq with hbefore | hbehind
    · omega
    · omega

/-- The clauses before a clause stay when the text from that clause on changes. -/
theorem Orderly.startingIn_front {text block tail : Text} {front rest : List Text} {c : Clause}
    (h : Orderly text) (hblocks : text.blocks = front ++ block :: rest) (hc : c ∈ clauses text)
    (hline : c.line = front.length) (htail : tail.trimStart.head? ≠ some ';') :
    startingIn front tail = startingIn front (block :: rest).flatten := by
  symm
  apply startingIn_congr
  rintro before b between rfl himport
  have hsplit : text.blocks = before ++ b :: (between ++ block :: rest) := by
    rw [hblocks, List.append_assoc, List.cons_append]
  rcases h.exists_here hsplit himport with ⟨here, hhere, hzero, hmem⟩
  have hflat : (b :: (between ++ block :: rest)).flatten =
      (b :: between).flatten ++ (block :: rest).flatten := by
    rw [← List.cons_append, List.flatten_append]
  rw [hflat] at hhere
  rw [hhere]
  symm
  apply clauseAt?_of_within hhere _ htail
  intro body hbody _ hcount
  apply Text.isPrefix_of_count_lt hbody
  -- the clause ends before the line that `block` is on
  have hbefore : before.flatten.count '\n' = before.length := Text.count_feed_flatten hsplit
  have hall := Text.count_feed_flatten hblocks
  rw [List.flatten_append, List.count_append, hbefore, List.length_append] at hall
  have hend : here.endLine + before.length < (before ++ b :: between).length := by
    rw [← hline]
    apply h.endLine_lt hmem hc
    rw [hline]
    show here.line + before.length < (before ++ b :: between).length
    rw [hzero, List.length_append, List.length_cons]
    omega
  rw [List.length_append] at hend
  omega

/-- The clauses up to the last line of a clause stay when other text follows on the next line. -/
theorem Orderly.startingIn_lineEnd {text last gap ending tail : Text} {front back : List Text}
    {c : Clause} (h : Orderly text) (hblocks : text.blocks = front ++ (last ++ gap) :: back)
    (hlast : '\n' ∉ last) (hgap : gap.Gap) (hback : '\n' ∈ gap ∨ back = []) (hc : c ∈ clauses text)
    (hend : c.endLine = front.length) (hending : ending.Gap)
    (htail : tail.trimStart.head? ≠ some ';') :
    startingIn (front ++ [last ++ ending]) tail =
      startingIn (front ++ [last ++ gap]) back.flatten := by
  rw [startingIn_concat_gap hending, startingIn_concat_gap hgap]
  symm
  apply startingIn_congr
  intro before b between hsplit himport
  -- the same line in the text, where the last one still has its blanks
  have hline : ∃ block rest, text.blocks = before ++ block :: rest ∧
      isImport block = isImport b ∧
      (block :: rest).flatten = (b :: between).flatten ++ (gap ++ back.flatten) := by
    rcases List.eq_nil_or_concat between with rfl | ⟨between, b', rfl⟩
    · rcases List.append_inj' hsplit rfl with ⟨rfl, hb⟩
      rw [List.cons.injEq] at hb
      rw [← hb.1]
      exact ⟨_, _, hblocks, isImport_append_gap hgap last, by simp⟩
    · rw [List.concat_eq_append, ← List.cons_append, ← List.append_assoc] at hsplit
      rcases List.append_inj' hsplit rfl with ⟨rfl, hb⟩
      refine ⟨b, between ++ (last ++ gap) :: back, by rw [hblocks]; simp, rfl, ?_⟩
      rw [List.cons.injEq] at hb
      rw [← hb.1]
      simp
  rcases hline with ⟨block, rest, hline, hsame, hflat⟩
  rcases h.exists_here hline (hsame.trans himport) with ⟨here, hhere, hzero, hmem⟩
  rw [hflat] at hhere
  rw [hhere]
  symm
  apply clauseAt?_of_within hhere _ (by rwa [hending.trimStart_append])
  intro body hbody hvisible hcount
  have hnil : '\n' ∈ gap ∨ back.flatten = [] := hback.imp_right fun hnil => by rw [hnil]; rfl
  apply Text.isPrefix_of_count_le hbody hvisible hgap hnil
  -- the clause ends on the line of `last` at the latest
  have hlength := congrArg List.length hsplit
  rw [List.length_append, List.length_append, List.length_singleton, List.length_cons] at hlength
  have hall := congrArg (fun bs : List Text => bs.flatten.count '\n') hsplit
  simp only [List.flatten_append, List.count_append, List.flatten_singleton,
    List.count_eq_zero_of_not_mem hlast, Text.count_feed_flatten hblocks,
    Text.count_feed_flatten hline] at hall
  have hle : here.endLine + before.length ≤ front.length := by
    rw [← hend]
    apply h.endLine_le hmem hc
    show here.line + before.length ≤ c.endLine
    rw [hzero, hend]
    omega
  omega

/-- The lines of a clause behind its first one are no import lines. -/
theorem Orderly.isImport_inside {text block : Text} {front inner rest : List Text} {here : Clause}
    (h : Orderly text) (hblocks : text.blocks = front ++ block :: (inner ++ rest))
    (hc : here.down front.length ∈ clauses text) (hzero : here.line = 0)
    (hend : inner.length ≤ here.endLine) : ∀ b ∈ inner, isImport b = false := by
  intro b hb
  rw [← Bool.not_eq_true]
  intro himport
  rcases List.append_of_mem hb with ⟨before, behind, rfl⟩
  have hsplit : text.blocks = (front ++ block :: before) ++ b :: (behind ++ rest) := by
    rw [hblocks]
    simp
  -- a clause that starts there would overlap
  rcases h.exists_here hsplit himport with ⟨there, -, hthere, hmem⟩
  have hfirst : (here.down front.length).line = front.length := by
    show here.line + front.length = front.length
    rw [hzero, Nat.zero_add]
  have hline : (there.down (front ++ block :: before).length).line =
      front.length + (before.length + 1) := by
    show there.line + (front ++ block :: before).length = _
    rw [hthere, Nat.zero_add, List.length_append, List.length_cons]
  have hlt : here.endLine + front.length < _ := h.endLine_lt hc hmem (by omega)
  rw [hline] at hlt
  rw [List.length_append, List.length_cons] at hend
  omega

end Import

end YapAssist
