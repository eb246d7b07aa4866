import YapAssist.Proofs.Text.Blocks

/-!
# Bytes and columns

Offsets count bytes and columns count characters. A column can lie anywhere on a line but behind its
terminator, and carriage returns at the end of a line count as that:

* `Text.cutAt?_byteSize`, a text is cut at the size of its first half;
* `Text.columns_eq`, the columns of a block are its line without the carriage returns at the end;
* `Text.exists_isLine`, where a line that was read stands in its text.
-/

namespace YapAssist

namespace Text

theorem cutAt?_byteSize (s t : Text) : cutAt? (s ++ t) s.byteSize = some (s, t) := by
  induction s with
  | nil => cases t <;> rfl
  | cons c s ih =>
    have hc : 0 < c.utf8Size := c.utf8Size_pos
    rcases Nat.exists_eq_succ_of_ne_zero (show byteSize (c :: s) ≠ 0 by simp; omega) with ⟨n, hn⟩
    have hle : c.utf8Size ≤ n + 1 := by
      rw [byteSize_cons] at hn
      omega
    have hrest : n + 1 - c.utf8Size = byteSize s := by
      rw [byteSize_cons] at hn
      omega
    show cutAt? (c :: (s ++ t)) (byteSize (c :: s)) = some (c :: s, t)
    rw [hn, Nat.succ_eq_add_one, cutAt?, if_pos hle, hrest, ih]
    rfl

theorem length_le_byteSize (t : Text) : t.length ≤ t.byteSize := by
  induction t with
  | nil => exact Nat.le_refl 0
  | cons c t ih =>
    have hc : 0 < c.utf8Size := c.utf8Size_pos
    rw [List.length_cons, byteSize_cons]
    omega

theorem byteSize_le_of_isPrefix {s t : Text} (h : s <+: t) : s.byteSize ≤ t.byteSize := by
  obtain ⟨more, rfl⟩ := h
  rw [byteSize_append]
  exact Nat.le_add_right _ _

theorem length_lines_le (t : Text) : t.lines.length ≤ t.length := by
  induction t using lines_induction with
  | open_ s hs =>
    rw [lines_of_not_mem hs]
    by_cases hnil : s = []
    · simp [hnil]
    · have hpos := List.length_pos_iff.2 hnil
      rw [if_neg hnil, List.length_singleton]
      omega
  | line u v hu ih =>
    rw [lines_append_feed hu, List.length_cons, List.length_append, List.length_cons]
    omega

theorem length_le_of_mem_lines {t line : Text} (h : line ∈ t.lines) : line.length ≤ t.length := by
  rcases List.mem_map.1 h with ⟨block, hblock, rfl⟩
  have hline := (withoutTerminator_isPrefix block).length_le
  have hsub := (List.sublist_flatten_of_mem hblock).length_le
  rw [flatten_blocks] at hsub
  omega

/-- Cutting characters off the end stops at the first one that stays. -/
theorem exists_append_dropWhile {p : Char → Bool} {s : Text} (h : ∀ c ∈ s.getLast?, p c = false)
    (t : Text) : ∃ more, ((s ++ t).reverse.dropWhile p).reverse = s ++ more := by
  have hs : s.reverse.dropWhile p = s.reverse := by
    cases hr : s.reverse with
    | nil => rfl
    | cons c rest =>
      have hc : p c = false := h c (by rw [List.getLast?_eq_head?_reverse, hr]; rfl)
      rw [List.dropWhile_cons, hc]
      rfl
  rw [List.reverse_append, List.dropWhile_append]
  split
  · exact ⟨[], by rw [hs, List.reverse_reverse, List.append_nil]⟩
  · exact ⟨(t.reverse.dropWhile p).reverse, by simp⟩

/-- A column can lie behind any character that no line terminator takes away. -/
theorem take_columns {s : Text} (h : ∀ c ∈ s.getLast?, c ≠ '\n' ∧ c ≠ '\r') (t : Text) :
    (columns (s ++ t)).take s.length = s := by
  have hfeed : ∀ c ∈ s.getLast?, (c == '\n') = false := fun c hc => by simp [(h c hc).1]
  have hreturn : ∀ c ∈ s.getLast?, (c == '\r') = false := fun c hc => by simp [(h c hc).2]
  -- dropping the line feeds, and then the carriage returns, stops behind `s`
  rcases exists_append_dropWhile hfeed t with ⟨more, hmore⟩
  rcases exists_append_dropWhile hreturn more with ⟨last, hlast⟩
  rw [columns, hmore, dropReturns, hlast, List.take_left]

theorem dropWhile_isPrefix (p : Char → Bool) (t : Text) :
    (t.reverse.dropWhile p).reverse <+: t := by
  have h := List.reverse_prefix.2 (List.dropWhile_suffix p (l := t.reverse))
  rwa [List.reverse_reverse] at h

theorem dropReturns_isPrefix (t : Text) : dropReturns t <+: t := dropWhile_isPrefix _ t

theorem columns_isPrefix (block : Text) : columns block <+: block :=
  (dropWhile_isPrefix _ _).trans (dropWhile_isPrefix _ _)

theorem exists_cons_blocks {s : Text} (hs : '\n' ∉ s) (hne : s ≠ []) (t : Text) :
    ∃ more rest, blocks (s ++ t) = (s ++ more) :: rest := by
  by_cases ht : '\n' ∈ t
  · rcases exists_feed_split ht with ⟨u, v, rfl, hu⟩
    have hopen : '\n' ∉ s ++ u := by simp [hs, hu]
    refine ⟨u ++ ['\n'], blocks v, ?_⟩
    rw [← List.append_assoc, blocks_append_feed hopen, List.append_assoc]
  · have hopen : '\n' ∉ s ++ t := by simp [hs, ht]
    refine ⟨t, [], ?_⟩
    rw [blocks_of_not_mem hopen, if_neg (by simp [hne])]

/-! ## Carriage returns at the end -/

/-- The carriage returns a text ends with. -/
def returns (t : Text) : Text := (t.reverse.takeWhile (· == '\r')).reverse

theorem dropReturns_append_returns (t : Text) : t.dropReturns ++ t.returns = t := by
  rw [dropReturns, returns, ← List.reverse_append, List.takeWhile_append_dropWhile,
    List.reverse_reverse]

theorem eq_return_of_mem_returns {t : Text} {c : Char} (h : c ∈ t.returns) : c = '\r' := by
  unfold returns at h
  have hreturn := List.all_eq_true.1 List.all_takeWhile c (List.mem_reverse.1 h)
  exact beq_iff_eq.1 hreturn

theorem gap_returns (t : Text) : t.returns.Gap := by
  intro c hc
  rw [eq_return_of_mem_returns hc]
  exact isBlank_return

theorem returns_eq_nil_iff {t : Text} : t.returns = [] ↔ t.getLast? ≠ some '\r' := by
  rw [returns, List.reverse_eq_nil_iff, List.getLast?_eq_head?_reverse]
  cases t.reverse with
  | nil => simp
  | cons c rest => by_cases hc : c = '\r' <;> simp [hc]

theorem getLast?_returns {t : Text} (h : t.returns ≠ []) : t.returns.getLast? = some '\r' := by
  obtain ⟨front, c, hc⟩ := (List.eq_nil_or_concat t.returns).resolve_left h
  rw [List.concat_eq_append] at hc
  have hmem : c ∈ t.returns := by simp [hc]
  rw [hc, List.getLast?_concat, eq_return_of_mem_returns hmem]

theorem dropReturns_concat (s : Text) : dropReturns (s ++ ['\r']) = dropReturns s := by
  simp [dropReturns]

theorem dropReturns_append_feed (s t : Text) :
    dropReturns (s ++ '\n' :: t) = s ++ '\n' :: dropReturns t := by
  unfold dropReturns
  rw [List.reverse_append, List.reverse_cons, List.append_assoc, List.dropWhile_append]
  split
  · next hnil =>
    rw [List.isEmpty_iff] at hnil
    rw [hnil, List.singleton_append, List.dropWhile_cons_of_neg (by decide)]
    simp
  · simp

/-- Only the last line of a text can lose carriage returns. -/
theorem Closed.dropReturns_append {s : Text} (h : Closed s) (t : Text) :
    dropReturns (s ++ t) = s ++ dropReturns t := by
  obtain rfl | hlast := h
  · rfl
  · obtain ⟨s, rfl⟩ := List.getLast?_eq_some_iff.1 hlast
    rw [List.append_assoc, List.singleton_append, dropReturns_append_feed, List.append_assoc,
      List.singleton_append]

/-- The columns of a block are its line without the carriage returns at the end. -/
theorem columns_eq {s block : Text} (hs : '\n' ∉ s) (h : block = s ++ ['\n'] ∨ block = s) :
    columns block = dropReturns s ∧ dropReturns (withoutTerminator block) = dropReturns s := by
  have hfeed : s.reverse.dropWhile (· == '\n') = s.reverse := by
    cases hr : s.reverse with
    | nil => rfl
    | cons c rest =>
      have hc : c ≠ '\n' := by
        rintro rfl
        exact hs (List.mem_reverse.1 (by rw [hr]; exact List.mem_cons_self))
      simp [hc]
  rcases h with rfl | rfl
  · refine ⟨?_, ?_⟩
    · rw [columns, List.reverse_append, List.reverse_singleton, List.singleton_append,
        List.dropWhile_cons_of_pos (by decide), hfeed, List.reverse_reverse]
    · by_cases hr : s.getLast? = some '\r'
      · rcases List.getLast?_eq_some_iff.1 hr with ⟨s, rfl⟩
        rw [List.append_assoc, List.singleton_append, withoutTerminator_returnFeed,
          dropReturns_concat]
      · rw [withoutTerminator_feed hr]
  · exact ⟨by rw [columns, hfeed, List.reverse_reverse], by rw [withoutTerminator_of_not_mem hs]⟩

/-! ## Lines as they are read -/

/-- The block of a line, if there is anything on it or behind it. -/
theorem IsLine.blocks_eq {closed line rest : Text} (h : IsLine closed line rest) :
    line = [] ∧ rest = [] ∨
      ∃ block more, blocks (line ++ rest) = block :: more ∧ columns block = dropReturns line := by
  cases rest with
  | nil =>
    by_cases hnil : line = []
    · exact .inl ⟨hnil, rfl⟩
    · refine .inr ⟨line, [], ?_, (columns_eq h.no_feed (.inr rfl)).1⟩
      rw [List.append_nil, blocks_of_not_mem h.no_feed, if_neg hnil]
  | cons c rest =>
    obtain rfl : c = '\n' := h.feed c rfl
    exact .inr ⟨_, _, blocks_append_feed h.no_feed rest, (columns_eq h.no_feed (.inl rfl)).1⟩

/-- A line is read but for a carriage return before its line feed. -/
theorem withoutTerminator_feed_isPrefix (s : Text) : withoutTerminator (s ++ ['\n']) <+: s := by
  by_cases hr : s.getLast? = some '\r'
  · obtain ⟨s, rfl⟩ := List.getLast?_eq_some_iff.1 hr
    rw [List.append_assoc, List.singleton_append, withoutTerminator_returnFeed]
    exact List.prefix_append s ['\r']
  · simp [withoutTerminator_feed hr]

/-- What is read of a line of a text is a beginning of that line, and all of it but for carriage
returns. -/
theorem exists_isLine {text read : Text} {index : Nat} (h : text.lines[index]? = some read) :
    ∃ closed line rest, text = closed ++ (line ++ rest) ∧ IsLine closed line rest ∧
      closed.count '\n' = index ∧ read <+: line ∧ read.dropReturns = line.dropReturns := by
  induction text using lines_induction generalizing index with
  | open_ s hs =>
    rw [lines_of_not_mem hs] at h
    split at h
    · simp at h
    · obtain ⟨hindex, rfl⟩ := List.getElem?_eq_some_iff.1 h
      obtain rfl : index = 0 := by simpa using hindex
      exact ⟨[], s, [], by simp, ⟨.inl rfl, hs, by simp⟩, rfl, List.prefix_refl s, rfl⟩
  | line u v hu ih =>
    rw [lines_append_feed hu] at h
    cases index with
    | zero =>
      obtain rfl : withoutTerminator (u ++ ['\n']) = read := by simpa using h
      exact ⟨[], u, '\n' :: v, rfl, ⟨.inl rfl, hu, by simp⟩, rfl,
        withoutTerminator_feed_isPrefix u, (columns_eq hu (.inl rfl)).2⟩
    | succ index =>
      rw [List.getElem?_cons_succ] at h
      obtain ⟨closed, line, rest, rfl, hline, hcount, hread⟩ := ih h
      refine ⟨u ++ '\n' :: closed, line, rest, by simp, hline.behind_feed, ?_, hread⟩
      rw [List.count_append, List.count_eq_zero_of_not_mem hu, List.count_cons_self, hcount,
        Nat.zero_add]

end Text

end YapAssist
