import YapAssist.Proofs.Import.Spelling

/-!
# Clauses by the blocks they start in

The clauses of a text are found block by block, and a clause may read on into the blocks behind its
own. `Import.startingIn` is the part of that list which belongs to some of the blocks, counted from
the first of them, with the text behind them as a parameter:

* `Import.clauses_eq`, the clauses of a text are those that start in its blocks;
* `Import.startingIn_append`, blocks in a row have the clauses of either part, those of the second
  part as many lines further down;
* `Import.exists_of_startingIn`, the block that a given clause starts in;
* `Import.startingIn_congr`, the text behind matters only as far as it is read.
-/

namespace YapAssist

namespace Position

/-! ## Places further down -/

/-- The same column `n` lines further down. -/
def down (n : Nat) (p : Position) : Position := ⟨p.line + n, p.character⟩

theorem advance_down (n : Nat) (p : Position) (t : Text) (offset : Nat) :
    advance (p.down n) t offset = (advance p t offset).down n := by
  fun_induction advance p t offset with
  | case1 p => rfl
  | case2 p c t => rfl
  | case3 p c t offset h => rw [advance, if_pos h]; rfl
  | case4 p c t offset h next ih =>
    have hnext : (if c = '\n' then ⟨(p.down n).line + 1, 0⟩
        else ⟨(p.down n).line, (p.down n).character + 1⟩ : Position) = next.down n := by
      by_cases hc : c = '\n'
      · simp only [next, hc, if_true, down]
        rw [Nat.add_right_comm]
      · simp only [next, hc, if_false, down]
    rw [advance, if_neg h, ← ih]
    simp only [hnext]

/-- A text behind whole lines has its places as many lines further down. -/
theorem ofOffset_append {front : Text} (h : front.Closed) (found : Text) (offset : Nat) :
    ofOffset (front ++ found) (front.byteSize + offset) =
      (ofOffset found offset).down (front.count '\n') := by
  have hstart : front.foldl next start = start.down (front.count '\n') := by
    have hbehind := behind_of_closed h
    rw [behind] at hbehind
    rw [hbehind, down, start, Nat.zero_add]
  rw [ofOffset, advance_append, hstart, advance_down]
  rfl

theorem ofOffset_behind {front : Text} (h : front.Closed) (s t : Text) :
    ofOffset (front ++ (s ++ t)) (front ++ s).byteSize = (behind s).down (front.count '\n') := by
  rw [Text.byteSize_append, ofOffset_append h, ofOffset_byteSize]
  rfl

end Position

namespace Import

open Line

/-- The same names `n` lines further down. -/
def Names.down (n : Nat) : Names → Names
  | all => all
  | listed symbols listEnd closeBrace => listed symbols (listEnd.down n) (closeBrace.down n)

/-- The same clause `n` lines further down. -/
def Clause.down (n : Nat) (c : Clause) : Clause :=
  ⟨c.module, c.names.down n, c.line + n, c.endLine + n⟩

theorem Clause.down_zero (c : Clause) : c.down 0 = c := by
  rcases c with ⟨module, names, line, endLine⟩
  cases names <;> rfl

theorem Clause.down_down (m n : Nat) (c : Clause) : (c.down m).down n = c.down (m + n) := by
  rcases c with ⟨module, names, line, endLine⟩
  cases names <;> simp [down, Names.down, Position.down, Nat.add_assoc]

theorem map_down_down (m n : Nat) (cs : List Clause) :
    (cs.map (Clause.down m)).map (Clause.down n) = cs.map (Clause.down (m + n)) := by
  rw [List.map_map]
  apply List.map_congr_left
  intro c _
  exact c.down_down m n

/-! ## Clauses of blocks -/

/-- The clause that starts in a block; `found` is the text from the beginning of the block on. -/
def opening (block found : Text) : List Clause :=
  if isImport block then (clauseAt? found).toList else []

/-- The clauses that start in `blocks`, where `tail` follows the blocks. -/
def startingIn : (blocks : List Text) → (tail : Text) → List Clause
  | [], _ => []
  | block :: blocks, tail =>
    opening block ((block :: blocks).flatten ++ tail) ++
      (startingIn blocks tail).map (Clause.down 1)

theorem clausesFrom_cons {front : Text} (h : front.Closed) (block : Text) (blocks : List Text) :
    clausesFrom (front ++ (block :: blocks).flatten) front.byteSize (front.count '\n')
        (block :: blocks) =
      (opening block (block :: blocks).flatten).map (Clause.down (front.count '\n')) ++
        clausesFrom (front ++ (block :: blocks).flatten) (front.byteSize + block.byteSize)
          (front.count '\n' + 1) blocks := by
  generalize hfound : (block :: blocks).flatten = found
  have hplace : ∀ s, Clause.ofStatement (front ++ found) front.byteSize (front.count '\n') found s =
      (Clause.ofStatement found 0 0 found s).down (front.count '\n') := by
    rintro ⟨module, list?, rest⟩
    have hoffset : ∀ n, Position.ofOffset (front ++ found) (front.byteSize + n) =
        (Position.ofOffset found (0 + n)).down (front.count '\n') := by
      intro n
      rw [Position.ofOffset_append h, Nat.zero_add]
    cases list? with
    | none =>
      simp only [Clause.ofStatement, Clause.down, hoffset, Names.down, Nat.zero_add]
      rfl
    | some found =>
      simp only [Clause.ofStatement, Clause.down, Nat.add_assoc, hoffset, Names.down, Nat.zero_add]
      rfl
  rw [clausesFrom, opening, hfound]
  by_cases himport : isImport block = true
  · rw [if_pos himport, if_pos himport, clauseAt?]
    cases hread : Statement.read? found with
    | none => simp only [hread]; rfl
    | some s => simp only [hread, hplace]; rfl
  · rw [if_neg himport, if_neg himport]
    rfl

theorem clausesFrom_eq {front : Text} (h : front.Closed) (found : Text) :
    clausesFrom (front ++ found) front.byteSize (front.count '\n') found.blocks =
      (startingIn found.blocks []).map (Clause.down (front.count '\n')) := by
  induction found using Text.lines_induction generalizing front with
  | open_ s hs =>
    rw [Text.blocks_of_not_mem hs]
    split
    · rfl
    · have hcons := clausesFrom_cons h s []
      rw [List.flatten_cons, List.flatten_nil, List.append_nil] at hcons
      rw [hcons, startingIn, startingIn, List.map_nil, List.append_nil, List.append_nil]
      simp [clausesFrom]
  | line u v hu ih =>
    have hfound : u ++ '\n' :: v = ((u ++ ['\n']) :: v.blocks).flatten := by simp
    have hfront : Text.Closed (front ++ (u ++ ['\n'])) := by
      right
      rw [← List.append_assoc, List.getLast?_concat]
    have hcount : (front ++ (u ++ ['\n'])).count '\n' = front.count '\n' + 1 := by
      rw [List.count_append, List.count_append, List.count_eq_zero_of_not_mem hu,
        List.count_singleton_self, Nat.zero_add]
    have hlater := ih hfront
    rw [hcount, Text.byteSize_append front, List.append_assoc, List.append_assoc,
      List.singleton_append] at hlater
    rw [Text.blocks_append_feed hu]
    conv => lhs; rw [hfound]
    rw [clausesFrom_cons h, startingIn, ← hfound, hlater, List.map_append, map_down_down,
      List.append_nil, Nat.add_comm 1]

/-- The clauses of a text are those that start in its blocks. -/
theorem clauses_eq (text : Text) : clauses text = startingIn text.blocks [] := by
  have hall := clausesFrom_eq (.inl rfl) text
  rw [List.nil_append] at hall
  have hzero : (startingIn text.blocks []).map (Clause.down 0) = startingIn text.blocks [] := by
    rw [List.map_congr_left fun c _ => c.down_zero, List.map_id']
  exact hall.trans hzero

theorem startingIn_append (front back : List Text) (tail : Text) :
    startingIn (front ++ back) tail = startingIn front (back.flatten ++ tail) ++
      (startingIn back tail).map (Clause.down front.length) := by
  induction front with
  | nil =>
    rw [List.nil_append, startingIn, List.nil_append, List.length_nil,
      List.map_congr_left fun c _ => c.down_zero, List.map_id']
  | cons block front ih =>
    rw [List.cons_append, startingIn, startingIn, ih, List.map_append, map_down_down,
      List.length_cons, List.append_assoc, ← List.cons_append, List.flatten_append,
      List.append_assoc]

theorem opening_cases (block found : Text) : opening block found = [] ∨
    ∃ here, isImport block = true ∧ clauseAt? found = some here ∧
      opening block found = [here] := by
  by_cases himport : isImport block = true
  · rw [opening, if_pos himport]
    cases hhere : clauseAt? found with
    | none => exact .inl rfl
    | some here => exact .inr ⟨here, himport, rfl, rfl⟩
  · exact .inl (if_neg himport)

/-- The block that a clause starts in, with the clauses before and behind it. -/
theorem exists_of_startingIn {blocks : List Text} {tail : Text} {before later : List Clause}
    {c : Clause} (h : startingIn blocks tail = before ++ c :: later) :
    ∃ front block rest here, blocks = front ++ block :: rest ∧ isImport block = true ∧
      clauseAt? ((block :: rest).flatten ++ tail) = some here ∧ c = here.down front.length ∧
      before = startingIn front ((block :: rest).flatten ++ tail) ∧
      later = (startingIn rest tail).map (Clause.down (front.length + 1)) := by
  induction blocks generalizing before c later with
  | nil => simp [startingIn] at h
  | cons block blocks ih =>
    have hlater : ∀ cs, (startingIn blocks tail).map (Clause.down 1) = cs ++ c :: later →
        before = opening block ((block :: blocks).flatten ++ tail) ++ cs →
        ∃ front b rest here, block :: blocks = front ++ b :: rest ∧ isImport b = true ∧
          clauseAt? ((b :: rest).flatten ++ tail) = some here ∧ c = here.down front.length ∧
          before = startingIn front ((b :: rest).flatten ++ tail) ∧
          later = (startingIn rest tail).map (Clause.down (front.length + 1)) := by
      intro cs hcs hbefore
      rcases List.map_eq_append_iff.1 hcs with ⟨cs', ds, hblocks, rfl, hds⟩
      rcases List.map_eq_cons_iff.1 hds with ⟨d, ds', rfl, rfl, rfl⟩
      rcases ih hblocks with ⟨front, b, rest, here, rfl, himport, hhere, rfl, rfl, rfl⟩
      refine ⟨block :: front, b, rest, here, rfl, himport, hhere, ?_, ?_, ?_⟩
      · rw [Clause.down_down, List.length_cons]
      · rw [hbefore, startingIn, ← List.cons_append, List.flatten_append, List.append_assoc]
      · rw [map_down_down, List.length_cons]
    rw [startingIn] at h
    rcases opening_cases block ((block :: blocks).flatten ++ tail) with
      hnone | ⟨here, himport, hhere, hone⟩
    · rw [hnone, List.nil_append] at h
      exact hlater before h (by rw [hnone, List.nil_append])
    · rw [hone, List.singleton_append] at h
      cases before with
      | nil =>
        rw [List.nil_append, List.cons.injEq] at h
        refine ⟨[], block, blocks, here, rfl, himport, hhere, ?_, rfl, ?_⟩
        · rw [← h.1, List.length_nil, Clause.down_zero]
        · rw [← h.2, List.length_nil, Nat.zero_add]
      | cons d before =>
        rw [List.cons_append, List.cons.injEq] at h
        exact hlater before h.2 (by rw [hone, h.1, List.singleton_append])

/-! ## What the list depends on -/

theorem startingIn_eq_nil {blocks : List Text} (h : ∀ block ∈ blocks, isImport block = false)
    (tail : Text) : startingIn blocks tail = [] := by
  induction blocks with
  | nil => rfl
  | cons block blocks ih =>
    have hblock : ¬ isImport block = true := by simp [h block List.mem_cons_self]
    rw [startingIn, opening, if_neg hblock, ih fun b hb => h b (List.mem_cons_of_mem _ hb)]
    rfl

theorem startingIn_skip {blocks : List Text} {block : Text}
    (h : ∀ b ∈ blocks ++ [block], isImport b = false) (back : List Text) (tail : Text) :
    startingIn (blocks ++ block :: back) tail =
      (startingIn back tail).map (Clause.down (blocks.length + 1)) := by
  have hcut : blocks ++ block :: back = blocks ++ [block] ++ back := by simp
  rw [hcut, startingIn_append, startingIn_eq_nil h, List.nil_append, List.length_append,
    List.length_singleton]

/-- The text behind the blocks matters only to the clauses that read it. -/
theorem startingIn_congr {blocks : List Text} {tail tail' : Text}
    (h : ∀ front block rest, blocks = front ++ block :: rest → isImport block = true →
      clauseAt? ((block :: rest).flatten ++ tail) = clauseAt? ((block :: rest).flatten ++ tail')) :
    startingIn blocks tail = startingIn blocks tail' := by
  induction blocks with
  | nil => rfl
  | cons block blocks ih =>
    have hopening : opening block ((block :: blocks).flatten ++ tail) =
        opening block ((block :: blocks).flatten ++ tail') := by
      by_cases himport : isImport block = true
      · rw [opening, opening, h [] block blocks rfl himport]
      · rw [opening, opening, if_neg himport, if_neg himport]
    have hlater : startingIn blocks tail = startingIn blocks tail' := by
      apply ih
      intro front b rest hblocks
      exact h (block :: front) b rest (by rw [hblocks, List.cons_append])
    rw [startingIn, startingIn, hopening, hlater]

theorem isImport_append_gap {gap : Text} (h : gap.Gap) (t : Text) :
    isImport (t ++ gap) = isImport t := by
  rw [isImport, isImport, Text.trim_append_gap h]

/-- Blanks at the end of the last block may as well be counted among what follows. -/
theorem startingIn_concat_gap {gap : Text} (h : gap.Gap) (front : List Text) (last tail : Text) :
    startingIn (front ++ [last ++ gap]) tail = startingIn (front ++ [last]) (gap ++ tail) := by
  induction front with
  | nil => simp [startingIn, opening, isImport_append_gap h]
  | cons block front ih =>
    have hflat : ((block :: (front ++ [last ++ gap])).flatten ++ tail) =
        (block :: (front ++ [last])).flatten ++ (gap ++ tail) := by simp
    rw [List.cons_append, List.cons_append, startingIn, startingIn, ih, hflat]

end Import

end YapAssist
