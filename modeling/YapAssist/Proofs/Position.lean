import YapAssist.Position
import YapAssist.Proofs.Text.Columns

/-!
# Positions and offsets

An offset is the size of the text before it, so facts about offsets are stated for a text that is
cut in two:

* `Position.toOffset_isLine` and `Position.ofOffset_closed`, the offset of a column of a line and
  the position of such an offset;
* `Position.toOffset_ofOffset_around`, the position of an offset leads back to it, or to the end of
  its line where a line feed or carriage returns that end the line stand before it: a column cannot
  lie behind those;
* `Position.exists_toOffset`, every position falls between two characters;
* `Position.offsets_positions_inverse`, both ways together.
-/

namespace YapAssist

namespace Position

/-! ## From an offset to its position and back -/

/-- The position one character further. -/
def next (p : Position) (c : Char) : Position :=
  if c = '\n' then ⟨p.line + 1, 0⟩ else ⟨p.line, p.character + 1⟩

/-- Over the characters of `s` a position advances one by one. -/
theorem advance_append (p : Position) (s t : Text) (offset : Nat) :
    advance p (s ++ t) (s.byteSize + offset) = advance (s.foldl next p) t offset := by
  induction s generalizing p with
  | nil => rw [Text.byteSize_nil, Nat.zero_add]; rfl
  | cons c s ih =>
    have hc : 0 < c.utf8Size := c.utf8Size_pos
    rcases Nat.exists_eq_succ_of_ne_zero
      (show Text.byteSize (c :: s) + offset ≠ 0 by simp; omega) with ⟨n, hn⟩
    have hle : ¬ n + 1 < c.utf8Size := by
      rw [Text.byteSize_cons] at hn
      omega
    have hrest : n + 1 - c.utf8Size = Text.byteSize s + offset := by
      rw [Text.byteSize_cons] at hn
      omega
    show advance p (c :: (s ++ t)) (Text.byteSize (c :: s) + offset) =
      advance (s.foldl next (p.next c)) t offset
    rw [hn, Nat.succ_eq_add_one, advance, if_neg hle, hrest, ← ih]
    rfl

theorem advance_byteSize (p : Position) (s t : Text) :
    advance p (s ++ t) s.byteSize = s.foldl next p := by
  have hnone : advance (s.foldl next p) t 0 = s.foldl next p := by cases t <;> rfl
  rw [← hnone, ← advance_append, Nat.add_zero]

theorem ofOffset_byteSize (s t : Text) : ofOffset (s ++ t) s.byteSize = s.foldl next start :=
  advance_byteSize start s t

theorem foldl_next_of_not_mem {s : Text} (h : '\n' ∉ s) (p : Position) :
    s.foldl next p = ⟨p.line, p.character + s.length⟩ := by
  induction s generalizing p with
  | nil => rfl
  | cons c s ih =>
    have hc : c ≠ '\n' := fun he => h (he ▸ List.mem_cons_self)
    rw [List.foldl_cons, ih fun hn => h (List.mem_cons_of_mem c hn), next, if_neg hc,
      List.length_cons]
    simp only [mk.injEq, true_and]
    omega

/-- The position behind a text, counted from its beginning. -/
def behind (t : Text) : Position := t.foldl next start

theorem line_foldl_next (t : Text) (p : Position) :
    (t.foldl next p).line = p.line + t.count '\n' := by
  induction t generalizing p with
  | nil => rfl
  | cons c t ih =>
    rw [List.foldl_cons, ih, List.count_cons, next]
    by_cases hc : c = '\n'
    · simp only [hc, if_true, beq_self_eq_true]
      omega
    · simp [hc]

theorem line_behind (t : Text) : (behind t).line = t.count '\n' := by
  rw [behind, line_foldl_next]
  exact Nat.zero_add _

theorem behind_of_closed {s : Text} (h : s.Closed) : behind s = ⟨s.count '\n', 0⟩ := by
  rcases h with rfl | h
  · rfl
  · rcases List.getLast?_eq_some_iff.1 h with ⟨s, rfl⟩
    rw [behind, List.foldl_append, List.foldl_cons, List.foldl_nil, next, if_pos rfl,
      line_foldl_next, List.count_append, List.count_singleton_self]
    simp [start]

/-- A place in a line has as many columns before it as the line has characters there. -/
theorem ofOffset_closed {closed before : Text} (hclosed : closed.Closed) (hbefore : '\n' ∉ before)
    (t : Text) :
    ofOffset (closed ++ (before ++ t)) (closed ++ before).byteSize =
      ⟨closed.count '\n', before.length⟩ := by
  have hlines : closed.foldl next start = ⟨closed.count '\n', 0⟩ := behind_of_closed hclosed
  rw [← List.append_assoc, ofOffset_byteSize, List.foldl_append, hlines,
    foldl_next_of_not_mem hbefore, Nat.zero_add]

theorem exists_offsetIn (blocks : List Text) (line column : Nat) :
    ∃ s t : Text, blocks.flatten = s ++ t ∧ offsetIn blocks line column = s.byteSize := by
  induction blocks generalizing line with
  | nil => exact ⟨[], [], rfl, rfl⟩
  | cons block blocks ih =>
    cases line with
    | zero =>
      -- the columns before the position are the first characters of the block
      rcases (List.take_prefix column block.columns).trans (Text.columns_isPrefix block) with
        ⟨more, hmore⟩
      refine ⟨block.columns.take column, more ++ blocks.flatten, ?_, rfl⟩
      rw [List.flatten_cons, ← List.append_assoc, hmore]
    | succ line =>
      rcases ih line with ⟨s, t, hcut, hsize⟩
      refine ⟨block ++ s, t, ?_, ?_⟩
      · rw [List.flatten_cons, hcut, List.append_assoc]
      · rw [offsetIn, hsize, Text.byteSize_append]

/-- A position falls between two characters of its text. -/
theorem exists_toOffset (text : Text) (p : Position) :
    ∃ s t, text = s ++ t ∧ p.toOffset text = s.byteSize := by
  rcases exists_offsetIn text.blocks p.line p.character with ⟨s, t, hcut, hsize⟩
  exact ⟨s, t, by rw [← hcut, Text.flatten_blocks], hsize⟩

theorem offsetIn_append (front : List Text) (block : Text) (back : List Text) (column : Nat) :
    offsetIn (front ++ block :: back) front.length column =
      Text.byteSize (front.flatten ++ block.columns.take column) := by
  induction front with
  | nil => rfl
  | cons b front ih =>
    rw [List.cons_append, List.length_cons, offsetIn, ih, List.flatten_cons, List.append_assoc,
      Text.byteSize_append b]

theorem toOffset_start (text : Text) : start.toOffset text = 0 := by
  cases hb : text.blocks with
  | nil => simp [toOffset, hb, start, offsetIn]
  | cons block rest => simp [toOffset, hb, start, offsetIn]

/-! ## Columns of a line -/

theorem offsetIn_length (blocks : List Text) (column : Nat) :
    offsetIn blocks blocks.length column = Text.byteSize blocks.flatten := by
  induction blocks with
  | nil => rfl
  | cons block blocks ih =>
    rw [List.length_cons, offsetIn, ih, List.flatten_cons, Text.byteSize_append]

/-- The offset of a column of a line. -/
theorem toOffset_isLine {closed line rest : Text} (h : Text.IsLine closed line rest)
    (column : Nat) :
    toOffset (closed ++ (line ++ rest)) ⟨closed.count '\n', column⟩ =
      Text.byteSize (closed ++ line.dropReturns.take column) := by
  rw [toOffset, Text.blocks_append h.closed, ← Text.length_blocks h.closed]
  obtain ⟨rfl, rfl⟩ | ⟨block, more, hblocks, hcolumns⟩ := h.blocks_eq
  · -- nothing follows the whole lines, and a line behind the last one stands for the end
    have hend := offsetIn_length closed.blocks column
    rw [Text.flatten_blocks] at hend
    simpa [Text.blocks, Text.dropReturns] using hend
  · rw [hblocks, offsetIn_append, hcolumns, Text.flatten_blocks]

theorem byteSize_take_of_isPrefix {d s t : Text} (h : d <+: s ++ t) :
    Text.byteSize (d.take s.length) = min s.byteSize d.byteSize := by
  obtain ⟨more, hmore⟩ := h
  obtain ⟨mid, rfl, -⟩ | ⟨mid, rfl, -⟩ := List.append_eq_append_iff.1 hmore
  · rw [List.take_of_length_le (by simp), Text.byteSize_append]
    omega
  · rw [List.take_left, Text.byteSize_append]
    omega

/-- From an offset to its position and back: a column stops where the carriage returns at the end of
the line start. -/
theorem toOffset_ofOffset_isLine {closed before after rest : Text}
    (h : Text.IsLine closed (before ++ after) rest) :
    toOffset (closed ++ (before ++ (after ++ rest)))
        (ofOffset (closed ++ (before ++ (after ++ rest))) (closed ++ before).byteSize) =
      min (closed ++ before).byteSize (closed ++ (before ++ after).dropReturns).byteSize := by
  have hbefore : '\n' ∉ before := fun hmem => h.no_feed (List.mem_append_left _ hmem)
  have hplace := toOffset_isLine h before.length
  rw [List.append_assoc] at hplace
  rw [ofOffset_closed h.closed hbefore, hplace, Text.byteSize_append, Text.byteSize_append,
    Text.byteSize_append, byteSize_take_of_isPrefix (Text.dropReturns_isPrefix _)]
  omega

/-- The end of the line around the place between `s` and `t` in bytes, without the line feed and the
carriage returns that end it. -/
def lineEndOffset (s t : Text) : Nat :=
  Text.byteSize (s.wholeLines ++ (s.openLine ++ t.firstLine).dropReturns)

/-- The position of an offset leads back to the offset, or to the end of its line. -/
theorem toOffset_ofOffset_around (s t : Text) :
    toOffset (s ++ t) (ofOffset (s ++ t) s.byteSize) = min s.byteSize (lineEndOffset s t) := by
  have hline := toOffset_ofOffset_isLine (Text.isLine_around s t)
  have hrest : t.firstLine ++ t.dropWhile (· != '\n') = t := List.takeWhile_append_dropWhile
  rw [hrest, ← List.append_assoc, Text.wholeLines_append_openLine] at hline
  exact hline

theorem byteSize_le_lineEndOffset {s t more : Text}
    (h : (s.openLine ++ t.firstLine).dropReturns = s.openLine ++ more) :
    s.byteSize ≤ lineEndOffset s t := by
  rw [lineEndOffset, h, ← List.append_assoc, Text.wholeLines_append_openLine, Text.byteSize_append]
  omega

/-- The position of an offset leads back to the offset, where a column can lie. -/
theorem toOffset_ofOffset {s : Text} (hne : s ≠ []) (h : ∀ c ∈ s.getLast?, c ≠ '\n' ∧ c ≠ '\r')
    (t : Text) : toOffset (s ++ t) (ofOffset (s ++ t) s.byteSize) = s.byteSize := by
  have hcut := s.wholeLines_append_openLine
  have hopen : s.openLine ≠ [] := by
    intro hnil
    rw [hnil, List.append_nil] at hcut
    rcases s.closed_wholeLines with hnone | hfeed
    · exact hne (hcut.symm.trans hnone)
    · rw [hcut] at hfeed
      exact (h '\n' hfeed).1 rfl
  have hlast : ∀ c ∈ s.openLine.getLast?, (c == '\r') = false := by
    intro c hc
    rw [← Text.getLast?_append_right (s := s.wholeLines) hopen, hcut] at hc
    simp [(h c hc).2]
  obtain ⟨more, hmore⟩ := Text.exists_append_dropWhile hlast t.firstLine
  rw [toOffset_ofOffset_around, Nat.min_eq_left (byteSize_le_lineEndOffset hmore)]

/-- The same before a character that ends no line. -/
theorem toOffset_ofOffset_cons {c : Char} (hfeed : c ≠ '\n') (hreturn : c ≠ '\r') (s t : Text) :
    toOffset (s ++ c :: t) (ofOffset (s ++ c :: t) s.byteSize) = s.byteSize := by
  have hfirst : Text.firstLine (c :: t) = c :: t.firstLine :=
    List.takeWhile_cons_of_pos (by simpa using hfeed)
  have hlast : ∀ d ∈ (s.openLine ++ [c]).getLast?, (d == '\r') = false := by
    intro d hd
    rw [List.getLast?_concat, Option.mem_some_iff] at hd
    simp [← hd, hreturn]
  obtain ⟨more, hmore⟩ := Text.exists_append_dropWhile hlast t.firstLine
  have hline : (s.openLine ++ Text.firstLine (c :: t)).dropReturns = s.openLine ++ c :: more := by
    rw [hfirst, Text.dropReturns, ← List.singleton_append, ← List.append_assoc, hmore,
      List.append_assoc, List.singleton_append]
  rw [toOffset_ofOffset_around, Nat.min_eq_left (byteSize_le_lineEndOffset hline)]

/-- The position of the end of a text leads back to that end, but for the carriage returns before
it: a column cannot lie behind those. -/
theorem toOffset_ofOffset_end (text : Text) :
    (ofOffset text text.byteSize).toOffset text = text.dropReturns.byteSize := by
  have hline := toOffset_ofOffset_around text []
  have hend : lineEndOffset text [] = text.dropReturns.byteSize := by
    have hdrop := text.closed_wholeLines.dropReturns_append text.openLine
    rw [Text.wholeLines_append_openLine] at hdrop
    rw [lineEndOffset, Text.firstLine, List.takeWhile_nil, List.append_nil, ← hdrop]
  have hshort : text.dropReturns.byteSize ≤ text.byteSize :=
    Text.byteSize_le_of_isPrefix text.dropReturns_isPrefix
  rwa [List.append_nil, hend, Nat.min_eq_right hshort] at hline

/-! ## Positions in words -/

theorem words_eq {p : Position} (hline : p.line < UInt32.size)
    (hcharacter : p.character < UInt32.size) : p.words = p := by
  rw [words, Nat.mod_eq_of_lt hline, Nat.mod_eq_of_lt hcharacter]

theorem advance_le (p : Position) (t : Text) (offset : Nat) :
    (advance p t offset).line ≤ p.line + t.length ∧
      (advance p t offset).character ≤ p.character + t.length := by
  fun_induction advance p t offset with
  | case1 p => simp
  | case2 p c t => simp
  | case3 p c t offset h => simp
  | case4 p c t offset h next ih =>
    have hnext : next.line ≤ p.line + 1 ∧ next.character ≤ p.character + 1 := by
      by_cases hc : c = '\n'
      · simp [next, hc]
      · simp [next, hc]
    rw [List.length_cons]
    omega

/-- The positions of the bytes of a text fit in words if their number does. -/
theorem words_ofOffset {text : Text} (h : text.byteSize < UInt32.size) (offset : Nat) :
    (ofOffset text offset).words = ofOffset text offset := by
  have hle := advance_le start text offset
  have hsize := text.length_le_byteSize
  have hzero : start.line = 0 ∧ start.character = 0 := ⟨rfl, rfl⟩
  apply words_eq
  · show (advance start text offset).line < UInt32.size
    omega
  · show (advance start text offset).character < UInt32.size
    omega

/-- So do the places on its lines. -/
theorem words_of_lines {text line : Text} {p : Position} (h : text.byteSize < UInt32.size)
    (hline : text.lines[p.line]? = some line) (hcharacter : p.character ≤ line.length) :
    p.words = p := by
  have hsize := text.length_le_byteSize
  have hlines := text.length_lines_le
  have hlength := Text.length_le_of_mem_lines (List.mem_of_getElem? hline)
  obtain ⟨hindex, -⟩ := List.getElem?_eq_some_iff.1 hline
  exact words_eq (by omega) (by omega)

theorem words_lineEnd {text line : Text} {index : Nat} (h : text.byteSize < UInt32.size)
    (hline : text.lines[index]? = some line) : (lineEnd line index).words = lineEnd line index :=
  words_of_lines h hline (Text.dropReturns_isPrefix line).length_le

/-! ## There and back -/

/-- A position leads to an offset and back to itself, as far as its column lies on its line. -/
theorem ofOffset_toOffset_isLine {closed line rest : Text} (h : Text.IsLine closed line rest)
    {column : Nat} (hcolumn : column ≤ line.dropReturns.length) :
    ofOffset (closed ++ (line ++ rest))
        (toOffset (closed ++ (line ++ rest)) ⟨closed.count '\n', column⟩) =
      ⟨closed.count '\n', column⟩ := by
  obtain ⟨more, hmore⟩ :=
    (List.take_prefix column line.dropReturns).trans (Text.dropReturns_isPrefix line)
  have hfeed : '\n' ∉ line.dropReturns.take column := by
    intro hmem
    apply h.no_feed
    rw [← hmore]
    exact List.mem_append_left _ hmem
  have hlength : (line.dropReturns.take column).length = column := List.length_take_of_le hcolumn
  have hplace := ofOffset_closed h.closed hfeed (more ++ rest)
  rw [← List.append_assoc (line.dropReturns.take column), hmore, hlength] at hplace
  rw [toOffset_isLine h, hplace]

/-- The positions of a text: the columns of its lines, up to the carriage returns at their end, and
the beginning of the line that a line feed at the end of the text starts. -/
def IsIn (text : Text) (p : Position) : Prop :=
  (∃ line, text.lines[p.line]? = some line ∧ p.character ≤ line.dropReturns.length) ∨
    text.Closed ∧ p = ⟨text.lines.length, 0⟩

theorem ofOffset_toOffset {text : Text} {p : Position} (h : p.IsIn text) :
    ofOffset text (p.toOffset text) = p := by
  obtain ⟨read, hread, hcolumn⟩ | ⟨hclosed, rfl⟩ := h
  · obtain ⟨closed, line, rest, rfl, hline, hcount, -, hreturns⟩ := Text.exists_isLine hread
    rw [hreturns] at hcolumn
    have hback := ofOffset_toOffset_isLine hline hcolumn
    rwa [hcount] at hback
  · -- an empty line follows the whole lines of the text
    have hline : Text.IsLine text [] [] := ⟨hclosed, by simp, by simp⟩
    have hback := ofOffset_toOffset_isLine hline (Nat.zero_le _)
    have hlength : text.lines.length = text.count '\n' := by
      rw [Text.lines, List.length_map, Text.length_blocks hclosed]
    rwa [List.append_nil, List.append_nil, ← hlength] at hback

/-- Offsets and positions are inverse to each other. An offset is found again but for the terminator
of its line, every position of the text is found again, and both fit in words. -/
theorem offsets_positions_inverse (text : Text) :
    (∀ s t, text = s ++ t →
      (ofOffset text s.byteSize).toOffset text = min s.byteSize (lineEndOffset s t)) ∧
    (∀ p : Position, p.IsIn text → ofOffset text (p.toOffset text) = p) ∧
    (text.byteSize < UInt32.size →
      ∀ offset, (ofOffset text offset).words = ofOffset text offset) := by
  refine ⟨?_, fun p hp => ofOffset_toOffset hp, words_ofOffset⟩
  rintro s t rfl
  exact toOffset_ofOffset_around s t

/-- Between two carriage returns at the end of a line an offset is not found again. -/
theorem offsets_positions_inverse_returns :
    ∃ text s t : Text, text = "é\r\r\n".toList ∧ text = s ++ t ∧ s.byteSize = 3 ∧
      lineEndOffset s t = 2 ∧ (ofOffset text 3).toOffset text = 2 ∧
      IsIn text ⟨0, 1⟩ ∧ ofOffset text (toOffset text ⟨0, 1⟩) = ⟨0, 1⟩ ∧
      IsIn text ⟨1, 0⟩ ∧ ofOffset text (toOffset text ⟨1, 0⟩) = ⟨1, 0⟩ ∧
      text.byteSize < UInt32.size ∧ (ofOffset text 3).words = ofOffset text 3 := by
  obtain ⟨hback, hplace, hwords⟩ := offsets_positions_inverse "é\r\r\n".toList
  have hcolumn : IsIn "é\r\r\n".toList ⟨0, 1⟩ := .inl ⟨['é', '\r'], by decide⟩
  have hend : IsIn "é\r\r\n".toList ⟨1, 0⟩ := .inr ⟨.inr (by decide), by decide⟩
  have hsize : Text.byteSize "é\r\r\n".toList < UInt32.size := by decide
  exact ⟨_, ['é', '\r'], ['\r', '\n'], rfl, by decide, by decide, by decide,
    hback ['é', '\r'] ['\r', '\n'] (by decide), hcolumn, hplace _ hcolumn, hend, hplace _ hend,
    hsize, hwords hsize 3⟩

end Position

end YapAssist
