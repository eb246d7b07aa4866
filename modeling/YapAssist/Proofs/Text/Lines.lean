import YapAssist.Proofs.Text.Trim
import YapAssist.Text.Lines

/-!
# The lines of a text that is put together from lines

A text is a number of closed lines, each with its terminator, and an open rest behind the last
terminator (`Text.document`). Reading the lines of such a text gives them back, the rest only if
it is not empty (`Text.lines_document`), and the terminator is recognised (`Text.ofText_document`).

A line that ends with a carriage return is the one thing that can be misread: before a lone line
feed the two are taken for one terminator.
-/

namespace YapAssist

namespace Text

/-! ## Blocks and lines of a concatenation -/

theorem blocks_append_feed {s : Text} (hs : '\n' ∉ s) (t : Text) :
    blocks (s ++ '\n' :: t) = (s ++ ['\n']) :: blocks t := by
  induction s with
  | nil => simp [blocks]
  | cons c s ih =>
    have hc : c ≠ '\n' := fun h => hs (h ▸ List.mem_cons_self)
    have hrest : '\n' ∉ s := fun h => hs (List.mem_cons_of_mem c h)
    rw [List.cons_append, blocks, if_neg hc, ih hrest]
    simp

theorem blocks_of_not_mem {s : Text} (hs : '\n' ∉ s) : blocks s = if s = [] then [] else [s] := by
  induction s with
  | nil => rfl
  | cons c s ih =>
    have hc : c ≠ '\n' := fun h => hs (h ▸ List.mem_cons_self)
    have hrest : '\n' ∉ s := fun h => hs (List.mem_cons_of_mem c h)
    rw [blocks, if_neg hc, ih hrest]
    by_cases h : s = []
    · simp [h]
    · simp [h]

/-- A text that holds a line feed has a first one. -/
theorem exists_feed_split {t : Text} (h : '\n' ∈ t) :
    ∃ s rest, t = s ++ '\n' :: rest ∧ '\n' ∉ s := by
  induction t with
  | nil => simp at h
  | cons c t ih =>
    by_cases hc : c = '\n'
    · exact ⟨[], t, by simp [hc], by simp⟩
    · rcases List.mem_cons.1 h with h | h
      · exact absurd h.symm hc
      · rcases ih h with ⟨s, rest, rfl, hs⟩
        refine ⟨c :: s, rest, rfl, ?_⟩
        simpa using ⟨Ne.symm hc, hs⟩

theorem withoutTerminator_feed {s : Text} (h : s.getLast? ≠ some '\r') :
    withoutTerminator (s ++ ['\n']) = s := by
  rw [withoutTerminator, List.reverse_append, List.reverse_singleton, List.singleton_append]
  split
  · next before he =>
    have hr : s.reverse.head? = some '\r' := by simp_all
    rw [List.head?_reverse] at hr
    exact absurd hr h
  · next before _ he =>
    simp only [List.cons.injEq, true_and] at he
    rw [← he, List.reverse_reverse]
  · next h₁ h₂ => exact absurd rfl (h₂ s.reverse)

theorem withoutTerminator_returnFeed (s : Text) :
    withoutTerminator (s ++ ['\r', '\n']) = s := by
  simp [withoutTerminator]

theorem withoutTerminator_of_not_mem {s : Text} (h : '\n' ∉ s) : withoutTerminator s = s := by
  unfold withoutTerminator
  split
  · next he => exact absurd (by rw [← List.mem_reverse, he]; simp) h
  · next he => exact absurd (by rw [← List.mem_reverse, he]; simp) h
  · rfl

theorem lines_of_not_mem {s : Text} (hs : '\n' ∉ s) : lines s = if s = [] then [] else [s] := by
  rw [lines, blocks_of_not_mem hs]
  split
  · rfl
  · rw [List.map_singleton, withoutTerminator_of_not_mem hs]

theorem lines_append_feed {s : Text} (hs : '\n' ∉ s) (t : Text) :
    lines (s ++ '\n' :: t) = withoutTerminator (s ++ ['\n']) :: lines t := by
  rw [lines, blocks_append_feed hs]
  rfl

/-- Induction along the lines of a text: an open rest, or a line, its line feed and more text. -/
theorem lines_induction {motive : Text → Prop} (open_ : ∀ s : Text, '\n' ∉ s → motive s)
    (line : ∀ s t : Text, '\n' ∉ s → motive t → motive (s ++ '\n' :: t)) (t : Text) :
    motive t := by
  induction hn : t.length using Nat.strongRecOn generalizing t with
  | _ n ih =>
    by_cases h : '\n' ∈ t
    · rcases exists_feed_split h with ⟨s, rest, rfl, hs⟩
      exact line s rest hs (ih rest.length (by simp at hn; omega) rest rfl)
    · exact open_ t h

/-- What a line loses with its terminator is blank. -/
theorem ink_withoutTerminator (t : Text) : ink (withoutTerminator t) = ink t := by
  unfold withoutTerminator
  split
  · next before he =>
    have := congrArg ink he
    rw [ink_reverse, ink_cons, ink_cons, if_pos isBlank_feed, if_pos isBlank_return] at this
    rw [ink_reverse, ← this, List.reverse_reverse]
  · next before _ he =>
    have := congrArg ink he
    rw [ink_reverse, ink_cons, if_pos isBlank_feed] at this
    rw [ink_reverse, ← this, List.reverse_reverse]
  · rfl

/-- Cutting a text into lines keeps its visible characters. -/
theorem flatMap_ink_lines (t : Text) : (lines t).flatMap ink = ink t := by
  induction t using lines_induction with
  | open_ s hs =>
    rw [lines_of_not_mem hs]
    by_cases h : s = []
    · simp [h]
    · simp [h]
  | line s t hs ih =>
    rw [lines_append_feed hs, List.flatMap_cons, ih, ink_withoutTerminator, ink_append, ink_append]
    simp [ink_cons, isBlank_feed]

theorem withoutTerminator_isPrefix (block : Text) : withoutTerminator block <+: block := by
  have hbefore : ∀ front back, block.reverse = front ++ back → back.reverse <+: block := by
    intro front back he
    have hcut := congrArg List.reverse he
    rw [List.reverse_reverse, List.reverse_append] at hcut
    exact ⟨front.reverse, hcut.symm⟩
  unfold withoutTerminator
  split
  · next he => exact hbefore ['\n', '\r'] _ he
  · next he => exact hbefore ['\n'] _ he
  · exact List.prefix_refl block

/-- No line holds a line feed. -/
theorem feed_not_mem_of_mem_lines {t line : Text} (h : line ∈ lines t) : '\n' ∉ line := by
  induction t using lines_induction with
  | open_ s hs =>
    rw [lines_of_not_mem hs] at h
    split at h
    · simp at h
    · rw [List.mem_singleton.1 h]
      exact hs
  | line s t hs ih =>
    rw [lines_append_feed hs] at h
    rcases List.mem_cons.1 h with rfl | h
    · -- what is left of the line is `s`, or `s` without a carriage return at its end
      intro hn
      by_cases hr : s.getLast? = some '\r'
      · rcases List.getLast?_eq_some_iff.1 hr with ⟨s', rfl⟩
        rw [List.append_assoc, List.singleton_append, withoutTerminator_returnFeed] at hn
        exact hs (List.mem_append_left _ hn)
      · rw [withoutTerminator_feed hr] at hn
        exact hs hn
    · exact ih h

/-! ## Closed lines and an open rest -/

/-- Closed lines, each with the terminator `ending`, and an open rest behind them. -/
def document (ending : LineEnding) (closed : List Text) (rest : Text) : Text :=
  closed.flatMap (· ++ ending.text) ++ rest

@[simp] theorem document_nil (ending : LineEnding) (rest : Text) :
    document ending [] rest = rest := rfl

theorem document_cons (ending : LineEnding) (line : Text) (closed : List Text) (rest : Text) :
    document ending (line :: closed) rest =
      line ++ (ending.text ++ document ending closed rest) := by
  simp [document]

/-- Lines with a terminator between any two are closed lines before the last one. -/
theorem joinWith_concat (ending : LineEnding) (closed : List Text) (last : Text) :
    joinWith ending.text (closed ++ [last]) = document ending closed last := by
  induction closed with
  | nil => simp [joinWith]
  | cons line closed ih =>
    rw [document_cons, ← ih]
    cases closed with
    | nil => simp [joinWith]
    | cons next closed => simp [joinWith]

theorem document_concat (ending : LineEnding) (closed : List Text) (last : Text) :
    document ending (closed ++ [last]) [] = document ending closed last ++ ending.text := by
  simp [document]

/-- The lines that `ending` keeps apart from their terminator: none holds a line feed, and before a
lone line feed none ends with a carriage return. -/
structure Closable (ending : LineEnding) (closed : List Text) : Prop where
  no_feed : ∀ line ∈ closed, '\n' ∉ line
  no_return : ending = .feed → ∀ line ∈ closed, line.getLast? ≠ some '\r'

theorem Closable.tail {ending : LineEnding} {line : Text} {closed : List Text}
    (h : Closable ending (line :: closed)) : Closable ending closed :=
  ⟨fun l hl => h.no_feed l (List.mem_cons_of_mem _ hl),
    fun he l hl => h.no_return he l (List.mem_cons_of_mem _ hl)⟩

theorem lines_append_ending {ending : LineEnding} {line : Text} {closed : List Text}
    (h : Closable ending (line :: closed)) (t : Text) :
    lines (line ++ (ending.text ++ t)) = line :: lines t := by
  have hline : '\n' ∉ line := h.no_feed line List.mem_cons_self
  cases ending with
  | feed =>
    have hr : line.getLast? ≠ some '\r' := h.no_return rfl line List.mem_cons_self
    show lines (line ++ '\n' :: t) = line :: lines t
    rw [lines_append_feed hline, withoutTerminator_feed hr]
  | returnFeed =>
    show lines (line ++ '\r' :: '\n' :: t) = line :: lines t
    have hcut : line ++ '\r' :: '\n' :: t = (line ++ ['\r']) ++ '\n' :: t := by simp
    have hopen : '\n' ∉ line ++ ['\r'] := by simp [hline]
    rw [hcut, lines_append_feed hopen, List.append_assoc, List.singleton_append,
      withoutTerminator_returnFeed]

/-- The lines of a document are its closed lines and its rest. -/
theorem lines_document {ending : LineEnding} {closed : List Text} {rest : Text}
    (h : Closable ending closed) (hrest : '\n' ∉ rest) :
    lines (document ending closed rest) = closed ++ if rest = [] then [] else [rest] := by
  induction closed with
  | nil => rw [document_nil, lines_of_not_mem hrest, List.nil_append]
  | cons line closed ih =>
    rw [document_cons, lines_append_ending h, ih h.tail, List.cons_append]

/-! ## The line ending of a document -/

theorem hasReturnFeed_of_not_mem {t : Text} (h : '\n' ∉ t) : hasReturnFeed t = false := by
  fun_induction hasReturnFeed t with
  | case1 rest => simp at h
  | case2 c rest _ ih => exact ih fun hn => h (List.mem_cons_of_mem _ hn)
  | case3 => rfl

theorem hasReturnFeed_cons {t : Text} (h : hasReturnFeed t = true) (c : Char) :
    hasReturnFeed (c :: t) = true := by
  unfold hasReturnFeed
  split
  · rfl
  · next he =>
    rw [List.cons.injEq] at he
    rw [← he.2, h]
  · next he => simp at he

theorem hasReturnFeed_append_returnFeed (s t : Text) :
    hasReturnFeed (s ++ '\r' :: '\n' :: t) = true := by
  induction s with
  | nil => rfl
  | cons c s ih => exact hasReturnFeed_cons ih c

theorem hasReturnFeed_append_feed {s : Text} (hs : '\n' ∉ s) (hr : s.getLast? ≠ some '\r')
    (t : Text) : hasReturnFeed (s ++ '\n' :: t) = hasReturnFeed t := by
  induction s with
  | nil =>
    rw [List.nil_append, hasReturnFeed]
    simp
  | cons c s ih =>
    have hrest : '\n' ∉ s := fun h => hs (List.mem_cons_of_mem c h)
    -- only the last character of `s` stands directly before the line feed
    cases s with
    | nil =>
      have hc : c ≠ '\r' := by simpa using hr
      rw [List.cons_append, List.nil_append, hasReturnFeed]
      · rw [hasReturnFeed]
        simp
      · intro rest h
        exact absurd h hc
    | cons d s =>
      have hd : d ≠ '\n' := fun h => hrest (h ▸ List.mem_cons_self)
      have hr' : (d :: s).getLast? ≠ some '\r' := by simpa using hr
      rw [List.cons_append, hasReturnFeed]
      · exact ih hrest hr'
      · intro rest _ h
        rw [List.cons_append, List.cons.injEq] at h
        exact hd h.1

/-- The terminator of the closed lines of a document is recognised. -/
theorem ofText_document {ending : LineEnding} {closed : List Text} {rest : Text}
    (h : Closable ending closed) (hrest : '\n' ∉ rest) :
    LineEnding.ofText (document ending closed rest) = if closed = [] then .feed else ending := by
  cases ending with
  | feed =>
    have hnone : hasReturnFeed (document .feed closed rest) = false := by
      induction closed with
      | nil => exact hasReturnFeed_of_not_mem hrest
      | cons line closed ih =>
        have hline : '\n' ∉ line := h.no_feed line List.mem_cons_self
        have hr : line.getLast? ≠ some '\r' := h.no_return rfl line List.mem_cons_self
        rw [document_cons]
        show hasReturnFeed (line ++ '\n' :: document .feed closed rest) = false
        rw [hasReturnFeed_append_feed hline hr, ih h.tail]
    simp [LineEnding.ofText, hnone]
  | returnFeed =>
    cases closed with
    | nil => simp [LineEnding.ofText, hasReturnFeed_of_not_mem hrest]
    | cons line closed =>
      rw [document_cons, LineEnding.ofText]
      show (if hasReturnFeed (line ++ '\r' :: '\n' :: document .returnFeed closed rest) = true
        then _ else _) = _
      simp [hasReturnFeed_append_returnFeed]

/-- A document ends with a line feed when it has closed lines and an empty rest. -/
theorem getLast?_document {ending : LineEnding} {closed : List Text} {rest : Text}
    (hrest : '\n' ∉ rest) :
    (document ending closed rest).getLast? = some '\n' ↔ closed ≠ [] ∧ rest = [] := by
  by_cases hr : rest = []
  · subst hr
    rcases List.eq_nil_or_concat closed with rfl | ⟨front, line, rfl⟩
    · simp
    · rw [List.concat_eq_append, document_concat]
      cases ending <;> simp [LineEnding.text]
  · have hlast : (document ending closed rest).getLast? = rest.getLast? := by
      rw [document, getLast?_append_right hr]
    rw [hlast]
    constructor
    · intro h
      exact absurd (List.mem_of_getLast? h) hrest
    · intro h
      exact absurd h.2 hr

/-! ## Every text as closed lines and an open rest -/

theorem lines_ne_nil {t : Text} (h : t ≠ []) : lines t ≠ [] := by
  induction t using lines_induction with
  | open_ s hs => simp [lines_of_not_mem hs, h]
  | line s t hs _ => simp [lines_append_feed hs]

theorem closable_lines_cons {s t : Text} {closed : List Text} (hs : '\n' ∉ s)
    (h : Closable (LineEnding.ofText t) closed) :
    Closable (LineEnding.ofText (s ++ '\n' :: t)) (withoutTerminator (s ++ ['\n']) :: closed) := by
  constructor
  · intro line hl
    rcases List.mem_cons.1 hl with rfl | hl
    · refine feed_not_mem_of_mem_lines (t := s ++ '\n' :: t) ?_
      rw [lines_append_feed hs]
      exact List.mem_cons_self
    · exact h.no_feed line hl
  · intro he
    -- without a carriage return before any line feed, `s` does not end with one
    have hr : s.getLast? ≠ some '\r' := by
      intro hr
      rcases List.getLast?_eq_some_iff.1 hr with ⟨s', rfl⟩
      rw [List.append_assoc, List.singleton_append, LineEnding.ofText,
        hasReturnFeed_append_returnFeed] at he
      simp at he
    have hrest : LineEnding.ofText t = .feed := by
      rwa [LineEnding.ofText, hasReturnFeed_append_feed hs hr] at he
    intro line hl
    rcases List.mem_cons.1 hl with rfl | hl
    · rwa [withoutTerminator_feed hr]
    · exact h.no_return hrest line hl

/-- The lines of a text are closable, but for a rest behind the last line feed. -/
theorem exists_closed_lines (t : Text) :
    ∃ closed rest, lines t = closed ++ (if rest = [] then [] else [rest]) ∧
      Closable (LineEnding.ofText t) closed ∧ '\n' ∉ rest ∧
      (t.getLast? = some '\n' ↔ closed ≠ [] ∧ rest = []) := by
  induction t using lines_induction with
  | open_ s hs =>
    refine ⟨[], s, by rw [lines_of_not_mem hs, List.nil_append], ⟨by simp, by simp⟩, hs, ?_⟩
    constructor
    · intro h
      exact absurd (List.mem_of_getLast? h) hs
    · intro h
      exact absurd rfl h.1
  | line s t hs ih =>
    rcases ih with ⟨closed, rest, hlines, hclosed, hrest, hend⟩
    refine ⟨withoutTerminator (s ++ ['\n']) :: closed, rest, ?_, closable_lines_cons hs hclosed,
      hrest, ?_⟩
    · rw [lines_append_feed hs, hlines, List.cons_append]
    · -- the text ends in `t`, unless that is empty and the text ends with the line feed
      by_cases ht : t = []
      · subst ht
        have hboth : closed = [] ∧ rest = [] := by
          by_cases hr : rest = []
          · simpa [hr, lines, blocks] using hlines
          · simp [hr, lines, blocks] at hlines
        simp [hboth.2]
      · rw [getLast?_append_cons '\n' ht, hend]
        constructor
        · intro h
          exact ⟨by simp, h.2⟩
        · intro h
          refine ⟨?_, h.2⟩
          rintro rfl
          exact lines_ne_nil ht (by rw [hlines, if_pos h.2, List.nil_append])

end Text

end YapAssist
