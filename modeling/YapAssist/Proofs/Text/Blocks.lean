import YapAssist.Proofs.Text.Lines

/-!
# Whole lines of a text

Where a line begins, everything before it is a number of whole lines (`Text.Closed`). Cutting a text
there cuts its blocks there as well:

* `Text.blocks_append`, the blocks of whole lines and of what follows them;
* `Text.blocks_flatten_of_append`, some of the blocks of a text are the blocks of what they make up;
* `Text.length_blocks`, whole lines are as many as their line feeds;
* `Text.isLine_around`, every place lies on a line (`Text.IsLine`) behind whole lines.
-/

namespace YapAssist

namespace Text

/-- The texts behind which a line begins. -/
def Closed (t : Text) : Prop := t = [] ∨ t.getLast? = some '\n'

theorem Closed.behind_feed {u v : Text} (h : Closed (u ++ '\n' :: v)) : Closed v := by
  by_cases hnil : v = []
  · exact .inl hnil
  · rcases h with h | h
    · simp at h
    · exact .inr (by rwa [getLast?_append_cons '\n' hnil] at h)

theorem Closed.append_feed {v : Text} (h : Closed v) (u : Text) : Closed (u ++ '\n' :: v) := by
  right
  obtain rfl | hlast := h
  · exact List.getLast?_concat
  · rw [List.getLast?_append, List.getLast?_cons, hlast]
    rfl

theorem blocks_append {s : Text} (h : Closed s) (t : Text) :
    blocks (s ++ t) = blocks s ++ blocks t := by
  induction s using lines_induction with
  | open_ s hs =>
    rcases h with rfl | h
    · rfl
    · exact absurd (List.mem_of_getLast? h) hs
  | line u v hu ih =>
    have hcut : u ++ '\n' :: v ++ t = u ++ '\n' :: (v ++ t) := by simp
    rw [hcut, blocks_append_feed hu, blocks_append_feed hu, ih h.behind_feed, List.cons_append]

/-- The blocks before any block make up whole lines. -/
theorem closed_flatten_of_blocks {t : Text} {front : List Text} {block : Text} {rest : List Text}
    (h : blocks t = front ++ block :: rest) : Closed front.flatten := by
  induction t using lines_induction generalizing front with
  | open_ s hs =>
    rw [blocks_of_not_mem hs] at h
    cases front with
    | nil => exact .inl rfl
    | cons b front =>
      have hlength := congrArg List.length h
      split at hlength <;> simp at hlength
  | line u v hu ih =>
    rw [blocks_append_feed hu] at h
    cases front with
    | nil => exact .inl rfl
    | cons b front =>
      rw [List.cons_append, List.cons.injEq] at h
      rw [List.flatten_cons, ← h.1, List.append_assoc]
      exact (ih h.2).append_feed u

/-- Some of the blocks of a text are the blocks of what they make up. -/
theorem blocks_flatten_of_append {t : Text} {front back : List Text}
    (h : blocks t = front ++ back) : blocks front.flatten = front ∧ blocks back.flatten = back := by
  induction t using lines_induction generalizing front with
  | open_ s hs =>
    cases front with
    | nil =>
      rw [List.nil_append] at h
      exact ⟨rfl, by rw [← h, flatten_blocks]⟩
    | cons block front =>
      -- there is one block at most
      have hblocks := blocks_of_not_mem hs
      rw [h] at hblocks
      split at hblocks
      · simp at hblocks
      · have hnil : front = [] ∧ back = [] := by simpa using congrArg List.tail hblocks
        rw [hnil.1, hnil.2, List.append_nil] at h
        rw [hnil.1, hnil.2, ← h, flatten_blocks]
        exact ⟨rfl, rfl⟩
  | line u v hu ih =>
    rw [blocks_append_feed hu] at h
    cases front with
    | nil =>
      rw [List.nil_append] at h
      rw [← h, ← blocks_append_feed hu, flatten_blocks]
      exact ⟨rfl, rfl⟩
    | cons block front =>
      rw [List.cons_append, List.cons.injEq] at h
      refine ⟨?_, (ih h.2).2⟩
      rw [List.flatten_cons, ← h.1, List.append_assoc, List.singleton_append,
        blocks_append_feed hu, (ih h.2).1]

theorem length_blocks {s : Text} (h : Closed s) : (blocks s).length = s.count '\n' := by
  induction s using lines_induction with
  | open_ s hs =>
    rcases h with rfl | h
    · rfl
    · exact absurd (List.mem_of_getLast? h) hs
  | line u v hu ih =>
    rw [blocks_append_feed hu, List.length_cons, ih h.behind_feed, List.count_append,
      List.count_eq_zero_of_not_mem hu, List.count_cons_self, Nat.zero_add]

/-- Every block before another one holds one line feed. -/
theorem count_feed_flatten {t : Text} {front : List Text} {block : Text} {rest : List Text}
    (h : blocks t = front ++ block :: rest) : front.flatten.count '\n' = front.length := by
  rw [← length_blocks (closed_flatten_of_blocks h), (blocks_flatten_of_append h).1]

theorem exists_of_blocks_cons {t block : Text} {rest : List Text} (h : blocks t = block :: rest) :
    ∃ s, '\n' ∉ s ∧ (block = s ++ ['\n'] ∨ block = s ∧ rest = []) := by
  by_cases ht : '\n' ∈ t
  · rcases exists_feed_split ht with ⟨u, v, rfl, hu⟩
    rw [blocks_append_feed hu, List.cons.injEq] at h
    exact ⟨u, hu, .inl h.1.symm⟩
  · rw [blocks_of_not_mem ht] at h
    split at h
    · simp at h
    · rw [List.cons.injEq] at h
      exact ⟨t, ht, .inr ⟨h.1.symm, h.2.symm⟩⟩

/-! ## The line around a place -/

/-- The whole lines a text begins with, up to and including its last line feed. -/
def wholeLines (t : Text) : Text := (t.reverse.dropWhile (· != '\n')).reverse

/-- What follows the last line feed of a text. -/
def openLine (t : Text) : Text := (t.reverse.takeWhile (· != '\n')).reverse

/-- What precedes the first line feed of a text. -/
def firstLine (t : Text) : Text := t.takeWhile (· != '\n')

/-- `line` is a line between whole lines and `rest`, which goes on with a line feed, if at all. -/
structure IsLine (closed line rest : Text) : Prop where
  closed : Closed closed
  no_feed : '\n' ∉ line
  feed : ∀ c ∈ rest.head?, c = '\n'

theorem wholeLines_append_openLine (t : Text) : wholeLines t ++ openLine t = t := by
  rw [wholeLines, openLine, ← List.reverse_append, List.takeWhile_append_dropWhile,
    List.reverse_reverse]

theorem closed_wholeLines (t : Text) : Closed (wholeLines t) := by
  have hhead := List.head?_dropWhile_not (· != '\n') t.reverse
  rw [Closed, wholeLines, List.getLast?_reverse]
  cases hdrop : t.reverse.dropWhile (· != '\n') with
  | nil => exact .inl rfl
  | cons c rest =>
    rw [hdrop, List.head?_cons] at hhead
    exact .inr (by simpa using hhead)

theorem feed_not_mem_takeWhile (t : Text) : '\n' ∉ t.takeWhile (· != '\n') := by
  intro hmem
  have hne := List.all_eq_true.1 List.all_takeWhile _ hmem
  simp at hne

/-- Every place of a text lies on a line. -/
theorem isLine_around (s t : Text) :
    IsLine (wholeLines s) (openLine s ++ firstLine t) (t.dropWhile (· != '\n')) := by
  refine ⟨closed_wholeLines s, ?_, ?_⟩
  · rw [List.mem_append, openLine, List.mem_reverse]
    exact not_or.2 ⟨feed_not_mem_takeWhile _, feed_not_mem_takeWhile _⟩
  · intro c hc
    have hhead := List.head?_dropWhile_not (· != '\n') t
    rw [Option.mem_def] at hc
    rw [hc] at hhead
    simpa using hhead

theorem IsLine.behind_feed {closed line rest u : Text} (h : IsLine closed line rest) :
    IsLine (u ++ '\n' :: closed) line rest :=
  ⟨h.closed.append_feed u, h.no_feed, h.feed⟩

end Text

end YapAssist
