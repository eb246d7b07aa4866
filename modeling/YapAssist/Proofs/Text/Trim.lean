import YapAssist.Text.Word

/-!
# Gaps and trimming

Most rules read a text up to the blanks in it. Three notions carry their proofs:

* `Text.Gap`, a stretch of blanks, what trimming takes away (`exists_gap_trimStart`,
  `exists_gap_trimEnd`);
* `Text.Tight`, a text that trimming leaves alone, with neither end blank;
* `Text.trim_surround`, what trimming makes of a tight text with gaps around it.
-/

namespace YapAssist

theorem isBlank_space : isBlank ' ' = true := by decide

theorem isBlank_feed : isBlank '\n' = true := by decide

theorem isBlank_return : isBlank '\r' = true := by decide

theorem isBlank_brace : isBlank '{' = false := by decide

theorem isBlank_closing : isBlank '}' = false := by decide

/-- A character of a word is not blank. -/
theorem isBlank_eq_false_of_isWord {c : Char} (h : isWord c = true) : isBlank c = false := by
  rw [← Bool.not_eq_true]
  intro hb
  rw [isWord_eq_false_of_isBlank hb] at h
  exact absurd h (by simp)

/-- A character of a name is one of a word. -/
theorem isWord_of_isNameChar {c : Char} (h : isNameChar c = true) : isWord c = true := by
  have hascii : c.toNat < 128 := by
    have hle : ∀ last : Char, c.val ≤ last.val → last.toNat < 128 → c.toNat < 128 :=
      fun last hlast hlt => Nat.lt_of_le_of_lt (UInt32.le_iff_toNat_le.1 hlast) hlt
    have hname : (c.isUpper || c.isLower || c.isDigit || c == '_') = true := h
    rw [Bool.or_eq_true, Bool.or_eq_true, Bool.or_eq_true] at hname
    rcases hname with ((hupper | hlower) | hdigit) | hunderscore
    · exact hle 'Z' (of_decide_eq_true hupper).2 (by decide)
    · exact hle 'z' (of_decide_eq_true (Bool.and_eq_true_iff.1 hlower).2) (by decide)
    · exact hle '9' (of_decide_eq_true (Bool.and_eq_true_iff.1 hdigit).2) (by decide)
    · rw [beq_iff_eq.1 hunderscore]
      decide
  rw [isWord, if_pos hascii, h]

namespace Text

/-- A list ends as what was added to it does. -/
theorem getLast?_append_right {α : Type} {s t : List α} (h : t ≠ []) :
    (s ++ t).getLast? = t.getLast? := by
  rw [List.getLast?_append, List.getLast?_eq_some_getLast h, Option.some_or]

theorem getLast?_append_cons {α : Type} {s t : List α} (a : α) (h : t ≠ []) :
    (s ++ a :: t).getLast? = t.getLast? := by
  have hcut : s ++ a :: t = (s ++ [a]) ++ t := by simp
  rw [hcut, getLast?_append_right h]

/-! ## Reading up to a mark -/

section
variable {α : Type} [DecidableEq α] {mark : α}

theorem bne_of_not_mem {s : List α} (h : mark ∉ s) : ∀ c ∈ s, (c != mark) = true := by
  intro c hc
  have hne : c ≠ mark := fun he => h (he ▸ hc)
  simpa using hne

theorem dropWhile_append_mark {s : List α} (h : mark ∉ s) (t : List α) :
    (s ++ mark :: t).dropWhile (· != mark) = mark :: t := by
  rw [List.dropWhile_append_of_pos (bne_of_not_mem h), List.dropWhile_cons_of_neg (by simp)]

theorem takeWhile_append_mark {s : List α} (h : mark ∉ s) (t : List α) :
    (s ++ mark :: t).takeWhile (· != mark) = s := by
  rw [List.takeWhile_append_of_pos (bne_of_not_mem h), List.takeWhile_cons_of_neg (by simp),
    List.append_nil]

end

/-- What is read up to a mark is cut off before the first one. -/
theorem cut_of_after?_mark {mark : Char} {t rest : Text}
    (h : after? [mark] (t.dropWhile (· != mark)) = some rest) :
    t = t.takeWhile (· != mark) ++ mark :: rest ∧ mark ∉ t.takeWhile (· != mark) := by
  rw [after?_eq_some_iff, List.singleton_append] at h
  refine ⟨by rw [← h, List.takeWhile_append_dropWhile], ?_⟩
  intro hmem
  have hne := List.all_eq_true.1 List.all_takeWhile _ hmem
  simp at hne

/-! ## Cutting at a mark -/

section
variable {α : Type} [DecidableEq α] {mark : α}

theorem cutAtEach_of_not_mem {t : List α} (h : mark ∉ t) : cutAtEach mark t = [t] := by
  induction t with
  | nil => rfl
  | cons c t ih =>
    have hc : c ≠ mark := fun he => h (he ▸ List.mem_cons_self)
    rw [cutAtEach, if_neg hc, ih fun hm => h (List.mem_cons_of_mem c hm)]

/-- A text without the mark goes on with the last piece. -/
theorem exists_cutAtEach_append {t : List α} (h : mark ∉ t) (s : List α) :
    ∃ front last, cutAtEach mark s = front ++ [last] ∧
      cutAtEach mark (s ++ t) = front ++ [last ++ t] := by
  induction s with
  | nil => exact ⟨[], [], rfl, cutAtEach_of_not_mem h⟩
  | cons c s ih =>
    rcases ih with ⟨front, last, hs, hst⟩
    rw [List.cons_append, cutAtEach, cutAtEach, hs, hst]
    by_cases hc : c = mark
    · rw [if_pos hc, if_pos hc]
      exact ⟨[] :: front, last, rfl, rfl⟩
    · rw [if_neg hc, if_neg hc]
      cases front with
      | nil => exact ⟨[], c :: last, rfl, rfl⟩
      | cons piece front => exact ⟨(c :: piece) :: front, last, rfl, rfl⟩

theorem exists_cutAtEach (mark : α) (t : List α) :
    ∃ front last, cutAtEach mark t = front ++ [last] := by
  obtain ⟨front, last, hcut, -⟩ := exists_cutAtEach_append (show mark ∉ ([] : List α) by simp) t
  exact ⟨front, last, hcut⟩

/-- Behind a mark a new piece begins. -/
theorem cutAtEach_append_mark (mark : α) (s t : List α) :
    cutAtEach mark (s ++ mark :: t) = cutAtEach mark s ++ cutAtEach mark t := by
  induction s with
  | nil => simp [cutAtEach]
  | cons c s ih =>
    rw [List.cons_append, cutAtEach, cutAtEach, ih]
    by_cases hc : c = mark
    · rw [if_pos hc, if_pos hc, List.cons_append]
    · -- the first piece grows on both sides; there is one, however short
      rw [if_neg hc, if_neg hc]
      rcases exists_cutAtEach mark s with ⟨front, last, hs⟩
      rw [hs]
      cases front <;> rfl

theorem cutAtEach_eq_splitOn (mark : α) (t : List α) : cutAtEach mark t = t.splitOn mark := by
  induction t with
  | nil => rfl
  | cons c t ih =>
    rw [List.splitOn_eq_splitOnP] at ih ⊢
    rw [cutAtEach, ih, List.splitOnP_cons_eq_if_modifyHead]
    by_cases hc : c = mark
    · simp [hc]
    · -- there is a first piece to put the character on
      obtain ⟨piece, pieces, hpieces⟩ :=
        List.exists_cons_of_ne_nil (List.splitOnP_ne_nil (· == mark) t)
      simp [hc, hpieces]

/-! ## Cutting at the last mark -/

theorem cutAtLast?_append_mark {u : List α} (h : mark ∉ u) (s : List α) :
    cutAtLast? mark (s ++ mark :: u) = some (s, u) := by
  have hu : mark ∉ u.reverse := by rwa [List.mem_reverse]
  have hreverse : (s ++ mark :: u).reverse = u.reverse ++ mark :: s.reverse := by simp
  rw [cutAtLast?, hreverse, dropWhile_append_mark hu, takeWhile_append_mark hu]
  simp

theorem cutAtLast?_of_not_mem {t : List α} (h : mark ∉ t) :
    cutAtLast? mark t = none := by
  have ht : mark ∉ t.reverse := by rwa [List.mem_reverse]
  have hall : t.reverse.dropWhile (· != mark) = [] := by
    rw [← List.append_nil t.reverse, List.dropWhile_append_of_pos (bne_of_not_mem ht)]
    rfl
  rw [cutAtLast?, hall]

omit [DecidableEq α] in
/-- A text that holds a mark has a last one. -/
theorem exists_last_mark {t : List α} (h : mark ∈ t) :
    ∃ s u, t = s ++ mark :: u ∧ mark ∉ u := by
  obtain ⟨u, s, hcut, hu⟩ := List.eq_append_cons_of_mem (List.mem_reverse.2 h)
  refine ⟨s.reverse, u.reverse, ?_, by rwa [List.mem_reverse]⟩
  rw [← List.reverse_reverse t, hcut]
  simp

theorem cutAtLast?_eq_some_iff {t s u : List α} :
    cutAtLast? mark t = some (s, u) ↔ t = s ++ mark :: u ∧ mark ∉ u := by
  constructor
  · intro h
    by_cases hmem : mark ∈ t
    · obtain ⟨s', u', rfl, hu⟩ := exists_last_mark hmem
      rw [cutAtLast?_append_mark hu] at h
      obtain ⟨rfl, rfl⟩ : s' = s ∧ u' = u := by simpa using h
      exact ⟨rfl, hu⟩
    · rw [cutAtLast?_of_not_mem hmem] at h
      simp at h
  · intro h
    rw [h.1, cutAtLast?_append_mark h.2]

end

/-! ## Gaps -/

/-- A stretch of blanks. -/
def Gap (t : Text) : Prop := ∀ c ∈ t, isBlank c = true

theorem gap_nil : Gap [] := by simp [Gap]

theorem gap_space : Gap [' '] := by simp [Gap, isBlank_space]

theorem Gap.append {s t : Text} (hs : Gap s) (ht : Gap t) : Gap (s ++ t) := by
  intro c hc
  rcases List.mem_append.1 hc with h | h
  · exact hs c h
  · exact ht c h

theorem gap_replicate_space (n : Nat) : Gap (List.replicate n ' ') := by
  intro c hc
  rw [List.eq_of_mem_replicate hc]
  exact isBlank_space

theorem Gap.ink_eq_nil {t : Text} (ht : Gap t) : ink t = [] := by
  simpa [ink, Gap] using ht

/-- A visible character does not lie in a gap. -/
theorem Gap.not_mem {t : Text} (ht : Gap t) {c : Char} (hc : isBlank c = false) : c ∉ t := by
  intro h
  simp [ht c h] at hc

/-! ## Trimming one end -/

@[simp] theorem trimStart_nil : trimStart [] = [] := rfl

@[simp] theorem trimEnd_nil : trimEnd [] = [] := rfl

theorem trimStart_cons_of_not_blank {c : Char} (h : isBlank c = false) (t : Text) :
    trimStart (c :: t) = c :: t := by
  simp [trimStart, h]

theorem Gap.trimStart_append {gap : Text} (h : Gap gap) (t : Text) :
    trimStart (gap ++ t) = trimStart t :=
  List.dropWhile_append_of_pos h

theorem Gap.trimEnd_append {gap : Text} (h : Gap gap) (t : Text) :
    trimEnd (t ++ gap) = trimEnd t := by
  rw [trimEnd, trimEnd, List.reverse_append, List.dropWhile_append_of_pos]
  intro c hc
  exact h c (List.mem_reverse.1 hc)

/-- What is trimmed at the beginning is a gap. -/
theorem exists_gap_trimStart (t : Text) : ∃ gap, Gap gap ∧ t = gap ++ trimStart t := by
  refine ⟨t.takeWhile isBlank, ?_, ?_⟩
  · intro c hc
    exact List.all_eq_true.1 List.all_takeWhile c hc
  · exact List.takeWhile_append_dropWhile.symm

/-- What is trimmed at the end is a gap. -/
theorem exists_gap_trimEnd (t : Text) : ∃ gap, Gap gap ∧ t = trimEnd t ++ gap := by
  rcases exists_gap_trimStart t.reverse with ⟨gap, hgap, he⟩
  refine ⟨gap.reverse, ?_, ?_⟩
  · intro c hc
    exact hgap c (List.mem_reverse.1 hc)
  · have := congrArg List.reverse he
    rwa [List.reverse_reverse, List.reverse_append] at this

/-- Trimming takes a gap away from either end. -/
theorem exists_gaps_trim (t : Text) :
    ∃ front back, Gap front ∧ Gap back ∧ t = front ++ trim t ++ back := by
  rcases exists_gap_trimStart t with ⟨front, hfront, hf⟩
  rcases exists_gap_trimEnd (trimStart t) with ⟨back, hback, hb⟩
  refine ⟨front, back, hfront, hback, ?_⟩
  rw [List.append_assoc, trim, ← hb, ← hf]

theorem gap_of_trim_eq_nil {t : Text} (h : trim t = []) : Gap t := by
  obtain ⟨front, back, hfront, hback, ht⟩ := exists_gaps_trim t
  rw [ht, h, List.append_nil]
  exact hfront.append hback

/-! ## Tight texts -/

/-- A text that neither begins nor ends with a blank. -/
structure Tight (t : Text) : Prop where
  first : ∀ c ∈ t.head?, isBlank c = false
  last : ∀ c ∈ t.getLast?, isBlank c = false

theorem tight_nil : Tight [] := ⟨by simp, by simp⟩

theorem tight_singleton {c : Char} (h : isBlank c = false) : Tight [c] := ⟨by simp [h], by simp [h]⟩

/-- A tight text stays tight when a text is added that ends with a visible character. -/
theorem Tight.append {s t : Text} (hs : Tight s) (hne : s ≠ []) (ht : t ≠ [])
    (hlast : ∀ c ∈ t.getLast?, isBlank c = false) : Tight (s ++ t) := by
  refine ⟨?_, ?_⟩
  · intro c hc
    rcases List.exists_cons_of_ne_nil hne with ⟨d, rest, rfl⟩
    exact hs.first c (by simpa using hc)
  · intro c hc
    rw [getLast?_append_right ht] at hc
    exact hlast c hc

theorem head?_trimStart_not_blank (t : Text) : ∀ c ∈ (trimStart t).head?, isBlank c = false := by
  intro c hc
  have h := List.head?_dropWhile_not isBlank t
  rw [trimStart, Option.mem_def] at hc
  rw [hc] at h
  simpa using h

theorem getLast?_trimEnd_not_blank (t : Text) : ∀ c ∈ (trimEnd t).getLast?, isBlank c = false := by
  intro c hc
  rw [trimEnd, List.getLast?_reverse] at hc
  exact head?_trimStart_not_blank t.reverse c hc

theorem trimStart_eq_self {t : Text} (h : ∀ c ∈ t.head?, isBlank c = false) : trimStart t = t := by
  cases t with
  | nil => rfl
  | cons c t => exact trimStart_cons_of_not_blank (h c (by simp)) t

theorem trimEnd_eq_self {t : Text} (h : ∀ c ∈ t.getLast?, isBlank c = false) : trimEnd t = t := by
  have hr : trimStart t.reverse = t.reverse := trimStart_eq_self (by simpa using h)
  rw [trimEnd, ← trimStart, hr, List.reverse_reverse]

theorem Tight.trimStart {t : Text} (h : Tight t) : trimStart t = t := trimStart_eq_self h.first

theorem Tight.trimEnd {t : Text} (h : Tight t) : trimEnd t = t := trimEnd_eq_self h.last

theorem Tight.trim {t : Text} (h : Tight t) : trim t = t := by
  rw [Text.trim, h.trimStart, h.trimEnd]

/-- Trimming the end does not change how a text begins, unless nothing is left of it. -/
theorem head?_trimEnd {t : Text} (h : ∀ c ∈ t.head?, isBlank c = false) :
    (Text.trimEnd t).head? = t.head? := by
  cases t with
  | nil => rfl
  | cons c t =>
    rcases exists_gap_trimEnd (c :: t) with ⟨gap, hgap, he⟩
    cases hs : Text.trimEnd (c :: t) with
    | nil =>
      -- then the visible `c` would lie in the gap
      rw [hs, List.nil_append] at he
      have := hgap c (by rw [← he]; exact List.mem_cons_self)
      simp [h c (by simp)] at this
    | cons d rest =>
      rw [hs, List.cons_append, List.cons.injEq] at he
      simp [he.1]

theorem tight_trimEnd {t : Text} (h : ∀ c ∈ t.head?, isBlank c = false) :
    Tight (Text.trimEnd t) :=
  ⟨by rw [head?_trimEnd h]; exact h, getLast?_trimEnd_not_blank t⟩

theorem tight_trim (t : Text) : Tight (Text.trim t) := tight_trimEnd (head?_trimStart_not_blank t)

/-- Trimming takes away exactly the gaps around a tight text. -/
theorem trim_surround {front t back : Text} (hf : Gap front) (hb : Gap back) (ht : Tight t) :
    Text.trim (front ++ t ++ back) = t := by
  rw [List.append_assoc, Text.trim, hf.trimStart_append]
  cases t with
  | nil =>
    have hback : Text.trimStart back = [] := by
      simpa using hb.trimStart_append []
    rw [List.nil_append, hback, trimEnd_nil]
  | cons c t =>
    rw [List.cons_append, trimStart_cons_of_not_blank (ht.first c (by simp)), ← List.cons_append,
      hb.trimEnd_append, ht.trimEnd]

/-- A gap at the end does not change what is left. -/
theorem trim_append_gap {gap : Text} (h : Gap gap) (t : Text) :
    Text.trim (t ++ gap) = Text.trim t := by
  rcases exists_gaps_trim t with ⟨front, back, hfront, hback, hcut⟩
  have hall : t ++ gap = front ++ Text.trim t ++ (back ++ gap) := by
    rw [← List.append_assoc, ← hcut]
  rw [hall, trim_surround hfront (hback.append h) (tight_trim t)]

/-- A text that only has a gap in front of a tight text. -/
theorem trim_gap_append {gap t : Text} (h : Gap gap) (ht : Tight t) : Text.trim (gap ++ t) = t := by
  simpa using trim_surround h gap_nil ht

theorem Tight.eq_nil_of_ink {t : Text} (h : Tight t) (hi : ink t = []) : t = [] := by
  cases t with
  | nil => rfl
  | cons c t => simp [ink_cons, h.first c (by simp)] at hi

/-- A tight text with one visible character is that character. -/
theorem Tight.eq_singleton_of_ink {t : Text} {c : Char} (h : Tight t) (hi : ink t = [c]) :
    t = [c] := by
  cases t with
  | nil => simp at hi
  | cons d t =>
    rw [ink_cons, if_neg (by simp [h.first d (by simp)]), List.cons.injEq] at hi
    rcases hi with ⟨rfl, hi⟩
    cases ht : t.getLast? with
    | none => rw [List.getLast?_eq_none_iff.1 ht]
    | some e =>
      -- the last character would be visible as well
      rcases List.getLast?_eq_some_iff.1 ht with ⟨s, rfl⟩
      have he : isBlank e = false := by
        apply h.last
        rw [← List.cons_append]
        exact List.getLast?_concat
      simp [ink_append, ink_cons, he] at hi

/-! ## Items of a list -/

theorem joinWith_cons_cons {α : Type} (glue n m : List α) (ns : List (List α)) :
    joinWith glue (n :: m :: ns) = n ++ (glue ++ joinWith glue (m :: ns)) := by
  simp [joinWith, List.intersperse]

theorem mem_of_mem_joinWith {glue : Text} {pieces : List Text} {c : Char}
    (h : c ∈ joinWith glue pieces) : c ∈ glue ∨ ∃ piece ∈ pieces, c ∈ piece := by
  induction pieces with
  | nil => simp [joinWith] at h
  | cons piece pieces ih =>
    cases pieces with
    | nil => exact .inr ⟨piece, by simp, by simpa [joinWith] using h⟩
    | cons next pieces =>
      rw [joinWith_cons_cons, List.mem_append, List.mem_append] at h
      obtain h | h | h := h
      · exact .inr ⟨piece, by simp, h⟩
      · exact .inl h
      · obtain h | ⟨found, hfound, h⟩ := ih h
        · exact .inl h
        · exact .inr ⟨found, List.mem_cons_of_mem piece hfound, h⟩

/-- What is joined ends with its last piece. -/
theorem exists_joinWith_concat (glue : Text) (pieces : List Text) (last : Text) :
    ∃ front : Text, joinWith glue (pieces ++ [last]) = front ++ last := by
  induction pieces with
  | nil => exact ⟨[], by simp [joinWith]⟩
  | cons piece pieces ih =>
    obtain ⟨front, hfront⟩ := ih
    refine ⟨piece ++ (glue ++ front), ?_⟩
    rw [List.append_assoc, List.append_assoc, ← hfront]
    cases pieces with
    | nil => exact joinWith_cons_cons glue piece last []
    | cons next pieces => exact joinWith_cons_cons glue piece next (pieces ++ [last])

theorem listItems_append_mark (s t : Text) :
    listItems (s ++ ',' :: t) = listItems s ++ listItems t := by
  rw [listItems, cutAtEach_append_mark, List.map_append, List.filter_append]
  rfl

theorem mem_of_mem_cutAtEach {mark c : Char} {t piece : Text} (h : piece ∈ cutAtEach mark t)
    (hc : c ∈ piece) : c ∈ t := by
  induction t generalizing piece with
  | nil =>
    rw [cutAtEach, List.mem_singleton] at h
    rwa [h] at hc
  | cons d t ih =>
    obtain ⟨first, more, hcut⟩ : ∃ first more, cutAtEach mark t = first :: more := by
      obtain ⟨front, last, hcut⟩ := exists_cutAtEach mark t
      apply List.exists_cons_of_ne_nil
      simp [hcut]
    rw [cutAtEach, hcut] at h
    rw [hcut] at ih
    split at h
    · obtain rfl | h := List.mem_cons.1 h
      · simp at hc
      · exact List.mem_cons_of_mem d (ih h hc)
    · obtain rfl | h := List.mem_cons.1 h
      · obtain rfl | hc := List.mem_cons.1 hc
        · exact List.mem_cons_self
        · exact List.mem_cons_of_mem d (ih List.mem_cons_self hc)
      · exact List.mem_cons_of_mem d (ih (List.mem_cons_of_mem first h) hc)

/-- Items are made of the characters of their list. -/
theorem mem_of_mem_listItems {c : Char} {t item : Text} (h : item ∈ listItems t) (hc : c ∈ item) :
    c ∈ t := by
  obtain ⟨piece, hpiece, rfl⟩ := List.mem_map.1 (List.mem_filter.1 h).1
  obtain ⟨front, back, -, -, hcut⟩ := exists_gaps_trim piece
  apply mem_of_mem_cutAtEach hpiece
  rw [hcut]
  simp [hc]

end Text

/-! ## Names -/

/-- What is known of the characters of a name. -/
theorem isIdentifier_chars {symbol : Text} (h : isIdentifier symbol = true) :
    symbol ≠ [] ∧ ∀ c ∈ symbol, isNameChar c = true := by
  cases symbol with
  | nil => simp [isIdentifier] at h
  | cons first rest =>
    rw [isIdentifier, Bool.and_eq_true, List.all_eq_true] at h
    have hfirst : isNameChar first = true := by
      show (first.isAlpha || first.isDigit || first == '_') = true
      rcases Bool.or_eq_true_iff.1 h.1 with hletter | hunderscore
      · rw [hletter, Bool.true_or, Bool.true_or]
      · rw [hunderscore, Bool.or_true]
    refine ⟨by simp, ?_⟩
    intro c hc
    rcases List.mem_cons.1 hc with rfl | hc
    · exact hfirst
    · exact h.2 c hc

theorem not_mem_of_isIdentifier {symbol : Text} (h : isIdentifier symbol = true) {c : Char}
    (hc : isNameChar c = false) : c ∉ symbol := by
  intro hmem
  rw [(isIdentifier_chars h).2 c hmem] at hc
  exact absurd hc (by simp)

theorem tight_of_isIdentifier {symbol : Text} (h : isIdentifier symbol = true) : symbol.Tight := by
  have hall : ∀ c ∈ symbol, isBlank c = false := fun c hc =>
    isBlank_eq_false_of_isWord (isWord_of_isNameChar ((isIdentifier_chars h).2 c hc))
  exact ⟨fun c hc => hall c (List.mem_of_head? hc), fun c hc => hall c (List.mem_of_getLast? hc)⟩

end YapAssist
