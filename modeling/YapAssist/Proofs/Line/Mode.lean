import YapAssist.Line.Literal
import YapAssist.Proofs.Text.Trim

/-!
# Reading a line from left to right

Whether a quote delimits depends on the run of backslashes before it, and whether `//` starts a
comment on the number of delimiters before it. Both are known to a scan that carries two flags, a
`Line.Mode`:

* `Mode.next_of_before`, the scan agrees with the run of backslashes before a character;
* `Line.commentFree`, no comment starts in a text, with `Line.split_of_commentFree`,
  `Line.split_comment` and `Line.split_cases` for the cut into code and comment.
-/

namespace YapAssist.Line

/-- What a scan knows after some characters of a line. -/
structure Mode where
  /-- A string literal is open. -/
  quoted : Bool
  /-- An odd run of backslashes stands directly before. -/
  escaped : Bool
  deriving DecidableEq, Repr

namespace Mode

/-- Before the first character. -/
def start : Mode := ⟨false, false⟩

/-- Whether the character `c` opens or closes a literal here. -/
def delimits (m : Mode) (c : Char) : Bool := c == '"' && !m.escaped

/-- After one more character. -/
def next (m : Mode) (c : Char) : Mode := ⟨m.quoted ^^ m.delimits c, c == '\\' && !m.escaped⟩

/-- After the characters of a text. -/
def after (m : Mode) (t : Text) : Mode := t.foldl next m

@[simp] theorem after_nil (m : Mode) : m.after [] = m := rfl

@[simp] theorem after_cons (m : Mode) (c : Char) (t : Text) :
    m.after (c :: t) = (m.next c).after t := rfl

@[simp] theorem after_append (m : Mode) (s t : Text) : m.after (s ++ t) = (m.after s).after t := by
  simp [after]

/-! ## Characters that mean nothing to a scan -/

/-- A text without quotes, backslashes and slashes. -/
def Plain (t : Text) : Prop := ∀ c ∈ t, c ≠ '"' ∧ c ≠ '\\' ∧ c ≠ '/'

instance (t : Text) : Decidable (Plain t) := List.decidableBAll _ t

theorem Plain.append {s t : Text} (hs : Plain s) (ht : Plain t) : Plain (s ++ t) := by
  intro c hc
  rcases List.mem_append.1 hc with h | h
  · exact hs c h
  · exact ht c h

/-- Blanks mean nothing to a scan. -/
theorem plain_of_gap {t : Text} (h : t.Gap) : Plain t := by
  intro c hc
  have hb := h c hc
  refine ⟨?_, ?_, ?_⟩ <;> rintro rfl <;> revert hb <;> decide

theorem next_of_ne {m : Mode} {c : Char} (hq : c ≠ '"') (hb : c ≠ '\\') :
    m.next c = ⟨m.quoted, false⟩ := by
  simp [next, delimits, beq_false_of_ne hq, beq_false_of_ne hb]

theorem Plain.quoted_after {t : Text} (h : Plain t) (m : Mode) : (m.after t).quoted = m.quoted := by
  induction t generalizing m with
  | nil => rfl
  | cons c t ih =>
    have hc := h c List.mem_cons_self
    rw [after_cons, ih (fun d hd => h d (List.mem_cons_of_mem _ hd)), next_of_ne hc.1 hc.2.1]

/-- Where no backslash is pending a plain text changes nothing. -/
theorem Plain.after_of_not_escaped {t : Text} (h : Plain t) {m : Mode} (hm : m.escaped = false) :
    m.after t = m := by
  induction t with
  | nil => rfl
  | cons c t ih =>
    have hc := h c List.mem_cons_self
    have hstep : m.next c = m := by
      rw [next_of_ne hc.1 hc.2.1, ← hm]
    rw [after_cons, hstep, ih fun d hd => h d (List.mem_cons_of_mem _ hd)]

theorem Plain.after_start {t : Text} (h : Plain t) : start.after t = start :=
  h.after_of_not_escaped rfl

/-! ## Delimiting quotes -/

/-- The number of quotes of a text that delimit when it is read from the mode `m` on. -/
def quotes (m : Mode) : Text → Nat
  | [] => 0
  | c :: rest => (m.delimits c).toNat + quotes (m.next c) rest

theorem quotes_append (m : Mode) (s t : Text) :
    quotes m (s ++ t) = quotes m s + quotes (m.after s) t := by
  induction s generalizing m with
  | nil => simp [quotes]
  | cons c s ih => rw [List.cons_append, quotes, quotes, ih, after_cons, Nat.add_assoc]

/-- Whether quotes delimit does not depend on an open literal. -/
theorem quotes_eq_of_escaped {m n : Mode} (h : m.escaped = n.escaped) (t : Text) :
    quotes m t = quotes n t := by
  induction t generalizing m n with
  | nil => rfl
  | cons c t ih =>
    have hd : m.delimits c = n.delimits c := by rw [delimits, delimits, h]
    have he : (m.next c).escaped = (n.next c).escaped := by simp only [next, h]
    rw [quotes, quotes, hd, ih he]

theorem Plain.quotes {t : Text} (h : Plain t) (m : Mode) : quotes m t = 0 := by
  induction t generalizing m with
  | nil => rfl
  | cons c t ih =>
    have hc := h c List.mem_cons_self
    rw [Mode.quotes, ih fun d hd => h d (List.mem_cons_of_mem _ hd)]
    simp [delimits, beq_false_of_ne hc.1]

/-- Whether no quote of a text delimits when it is read from the mode `m` on. -/
def silent (m : Mode) : Text → Bool
  | [] => true
  | c :: rest => !m.delimits c && silent (m.next c) rest

theorem silent_eq (m : Mode) (t : Text) : silent m t = (quotes m t == 0) := by
  induction t generalizing m with
  | nil => rfl
  | cons c t ih =>
    rw [silent, quotes, ih]
    cases m.delimits c with
    | true => simp [Nat.add_eq_zero_iff]
    | false => simp

theorem silent_iff {m : Mode} {t : Text} : silent m t = true ↔ quotes m t = 0 := by
  rw [silent_eq, beq_iff_eq]

theorem silent_append (m : Mode) (s t : Text) :
    silent m (s ++ t) = (silent m s && silent (m.after s) t) := by
  induction s generalizing m with
  | nil => rfl
  | cons c s ih => rw [List.cons_append, silent, silent, ih, Bool.and_assoc, after_cons]

theorem silent_eq_of_escaped {m n : Mode} (h : m.escaped = n.escaped) (t : Text) :
    silent m t = silent n t := by
  rw [silent_eq, silent_eq, quotes_eq_of_escaped h]

theorem quoted_after_of_silent {m : Mode} {t : Text} (h : silent m t = true) :
    (m.after t).quoted = m.quoted := by
  induction t generalizing m with
  | nil => rfl
  | cons c t ih =>
    rw [silent, Bool.and_eq_true, Bool.not_eq_true'] at h
    rw [after_cons, ih h.2, next, h.1, Bool.xor_false]

theorem Plain.silent {t : Text} (h : Plain t) (m : Mode) : silent m t = true :=
  silent_iff.2 (h.quotes m)

/-! ## The scan and the run of backslashes -/

/-- Whether an odd run of backslashes ends directly before the next character. -/
def escapes (before : Text) : Bool := (before.takeWhile (· == '\\')).length % 2 == 1

theorem isDelimiter_eq (before : Text) (quoted : Bool) (c : Char) :
    isDelimiter before c = (⟨quoted, escapes before⟩ : Mode).delimits c := by
  have hpar := Nat.mod_two_eq_zero_or_one (before.takeWhile (· == '\\')).length
  rcases hpar with h | h <;> simp [isDelimiter, delimits, escapes, h]

theorem escapes_cons (before : Text) (c : Char) :
    escapes (c :: before) = (c == '\\' && !escapes before) := by
  by_cases hc : c = '\\'
  · have hpar := Nat.mod_two_eq_zero_or_one (before.takeWhile (· == '\\')).length
    rcases hpar with h | h <;> simp [escapes, hc, h, Nat.add_mod]
  · simp [escapes, hc]

theorem next_of_before (before : Text) (quoted : Bool) (c : Char) :
    (⟨quoted, escapes before⟩ : Mode).next c =
      ⟨quoted ^^ isDelimiter before c, escapes (c :: before)⟩ := by
  rw [next, isDelimiter_eq before quoted, escapes_cons]

end Mode

/-! ## Texts in which no comment starts -/

/-- Whether no comment starts in a text that is read from the mode `m` on. -/
def commentFree (m : Mode) : Text → Bool
  | [] => true
  | c :: rest =>
    !(!m.quoted && c == '/' && rest.head? == some '/') && commentFree (m.next c) rest

theorem commentFree_append_left {m : Mode} {s t : Text} (h : commentFree m (s ++ t) = true) :
    commentFree m s = true := by
  induction s generalizing m with
  | nil => rfl
  | cons c s ih =>
    rw [List.cons_append, commentFree, Bool.and_eq_true] at h
    rw [commentFree, ih h.2, Bool.and_true]
    -- with nothing behind it a slash starts no comment
    cases s with
    | nil => simp
    | cons d s => simpa using h.1

theorem commentFree_append_right {m : Mode} {s t : Text} (h : commentFree m (s ++ t) = true) :
    commentFree (m.after s) t = true := by
  induction s generalizing m with
  | nil => exact h
  | cons c s ih =>
    rw [List.cons_append, commentFree, Bool.and_eq_true] at h
    exact ih h.2

/-- No comment starts across the seam of two texts unless both have a slash there. -/
theorem commentFree_append {m : Mode} {s t : Text} (hs : commentFree m s = true)
    (ht : commentFree (m.after s) t = true)
    (hseam : s.getLast? ≠ some '/' ∨ t.head? ≠ some '/') : commentFree m (s ++ t) = true := by
  induction s generalizing m with
  | nil => exact ht
  | cons c s ih =>
    rw [commentFree, Bool.and_eq_true] at hs
    rw [List.cons_append, commentFree, Bool.and_eq_true]
    cases s with
    | nil =>
      -- `c` is the character at the seam
      refine ⟨?_, ht⟩
      rcases hseam with h | h
      · have hc : c ≠ '/' := by simpa using h
        simp [beq_false_of_ne hc]
      · simp [beq_false_of_ne h]
    | cons d s =>
      have hseam' : (d :: s).getLast? ≠ some '/' ∨ t.head? ≠ some '/' := by simpa using hseam
      exact ⟨by simpa using hs.1, ih hs.2 ht hseam'⟩

theorem Mode.Plain.commentFree {t : Text} (h : Mode.Plain t) (m : Mode) :
    commentFree m t = true := by
  induction t generalizing m with
  | nil => rfl
  | cons c t ih =>
    have hc := h c List.mem_cons_self
    rw [Line.commentFree, ih (fun d hd => h d (List.mem_cons_of_mem _ hd)), Bool.and_true]
    simp [beq_false_of_ne hc.2.2]

theorem Mode.Plain.getLast?_ne {t : Text} (h : Mode.Plain t) : t.getLast? ≠ some '/' := by
  intro hl
  exact (h '/' (List.mem_of_getLast? hl)).2.2 rfl

theorem Mode.Plain.head?_ne {t : Text} (h : Mode.Plain t) : t.head? ≠ some '/' := by
  intro hl
  exact (h '/' (List.mem_of_head? hl)).2.2 rfl

/-! ## The cut into code and comment -/

theorem cutFrom?_eq_none {before : Text} {quoted : Bool} {t : Text}
    (h : commentFree ⟨quoted, Mode.escapes before⟩ t = true) : cutFrom? before quoted t = none := by
  induction t generalizing before quoted with
  | nil => rfl
  | cons c t ih =>
    rw [commentFree, Bool.and_eq_true, Mode.next_of_before] at h
    unfold cutFrom?
    cases hd : isDelimiter before c with
    | true =>
      rw [hd, Bool.xor_true] at h
      exact ih h.2
    | false =>
      rw [hd, Bool.xor_false] at h
      have hfirst : (!quoted && c == '/' && t.head? == some '/') = false := by
        rw [← Bool.not_eq_true']
        exact h.1
      simp only [Bool.false_eq_true, if_false, hfirst]
      exact ih h.2

/-- The scan stops at the first `//` outside a literal. -/
theorem cutFrom?_eq_some {before : Text} {quoted : Bool} {s : Text} (t : Text)
    (h : commentFree ⟨quoted, Mode.escapes before⟩ (s ++ ['/']) = true)
    (hq : ((⟨quoted, Mode.escapes before⟩ : Mode).after s).quoted = false) :
    cutFrom? before quoted (s ++ '/' :: '/' :: t) =
      some (s.reverse ++ before, '/' :: '/' :: t) := by
  induction s generalizing before quoted with
  | nil =>
    have hquoted : quoted = false := hq
    have hd : isDelimiter before '/' = false := by simp [isDelimiter]
    rw [List.nil_append, cutFrom?]
    simp [hd, hquoted]
  | cons c s ih =>
    rw [List.cons_append, commentFree, Bool.and_eq_true, Mode.next_of_before] at h
    rw [Mode.after_cons, Mode.next_of_before] at hq
    rw [List.cons_append, cutFrom?]
    cases hd : isDelimiter before c with
    | true =>
      rw [hd, Bool.xor_true] at h hq
      simpa using ih h.2 hq
    | false =>
      rw [hd, Bool.xor_false] at h hq
      -- what stands behind `c` begins as it does in the text that is free of comments
      have hhead : (s ++ '/' :: '/' :: t).head? = (s ++ ['/']).head? := by cases s <;> rfl
      have hfirst : (!quoted && c == '/' && (s ++ '/' :: '/' :: t).head? == some '/') = false := by
        rw [hhead, ← Bool.not_eq_true']
        exact h.1
      simp only [Bool.false_eq_true, if_false, hfirst]
      simpa using ih h.2 hq

/-- Every text is comment free or has a first comment. -/
theorem exists_comment_of_not_commentFree {m : Mode} {t : Text} (h : commentFree m t = false) :
    ∃ s rest, t = s ++ '/' :: '/' :: rest ∧ commentFree m (s ++ ['/']) = true ∧
      (m.after s).quoted = false := by
  induction t generalizing m with
  | nil => simp [commentFree] at h
  | cons c t ih =>
    rw [commentFree, Bool.and_eq_false_iff] at h
    by_cases hfirst : (!m.quoted && c == '/' && t.head? == some '/') = true
    · -- the comment starts right here
      simp only [Bool.and_eq_true, Bool.not_eq_true', beq_iff_eq] at hfirst
      rcases hfirst with ⟨⟨hq, rfl⟩, hhead⟩
      rcases List.head?_eq_some_iff.1 hhead with ⟨rest, rfl⟩
      exact ⟨[], rest, rfl, by simp [commentFree], hq⟩
    · have hrest : commentFree (m.next c) t = false := by
        rcases h with h | h
        · exact absurd (by simpa using h) hfirst
        · exact h
      rcases ih hrest with ⟨s, rest, rfl, hs, hq⟩
      refine ⟨c :: s, rest, rfl, ?_, hq⟩
      have hhead : (s ++ ['/']).head? = (s ++ '/' :: '/' :: rest).head? := by cases s <;> rfl
      rw [List.cons_append, commentFree, hs, Bool.and_true, hhead, Bool.not_eq_true',
        ← Bool.not_eq_true]
      exact hfirst

theorem split_of_commentFree {line : Text} (h : commentFree .start line = true) :
    split line = ⟨line.trimEnd, []⟩ := by
  rw [split, cutFrom?_eq_none h]

theorem split_comment {s : Text} (t : Text) (h : commentFree .start (s ++ ['/']) = true)
    (hq : (Mode.start.after s).quoted = false) :
    split (s ++ '/' :: '/' :: t) = ⟨s.trimEnd, Text.trimEnd ('/' :: '/' :: t)⟩ := by
  have hcut : cutFrom? [] false (s ++ '/' :: '/' :: t) = some (s.reverse ++ [], '/' :: '/' :: t) :=
    cutFrom?_eq_some t h hq
  rw [split, hcut, List.append_nil]
  simp

/-- A line is free of comments, or it is cut at its first one. -/
theorem split_cases (line : Text) :
    (commentFree .start line = true ∧ split line = ⟨line.trimEnd, []⟩) ∨
      ∃ s t, line = s ++ '/' :: '/' :: t ∧ commentFree .start (s ++ ['/']) = true ∧
        (Mode.start.after s).quoted = false ∧
        split line = ⟨s.trimEnd, Text.trimEnd ('/' :: '/' :: t)⟩ := by
  cases h : commentFree .start line with
  | true => exact .inl ⟨rfl, split_of_commentFree h⟩
  | false =>
    rcases exists_comment_of_not_commentFree h with ⟨s, t, rfl, hs, hq⟩
    exact .inr ⟨s, t, rfl, hs, hq, split_comment t hs hq⟩

/-! ## Code and comments that come apart again -/

/-- A code text and a comment that `attach` joins and `split` cuts apart again. -/
structure Separable (cut : Line) : Prop where
  tight : cut.code.Tight
  free : commentFree .start cut.code = true
  closed : cut.comment ≠ [] → (Mode.start.after cut.code).quoted = false
  comment_tight : cut.comment.Tight
  comment_lead : cut.comment = [] ∨ ∃ rest, cut.comment = '/' :: '/' :: rest

theorem isBlank_slash : isBlank '/' = false := by decide

/-- Nothing that trimming takes away at the end changes the open literal. -/
theorem quoted_after_trimEnd (t : Text) :
    (Mode.start.after t.trimEnd).quoted = (Mode.start.after t).quoted := by
  rcases Text.exists_gap_trimEnd t with ⟨gap, hgap, he⟩
  conv => rhs; rw [he, Mode.after_append, (Mode.plain_of_gap hgap).quoted_after]

theorem commentFree_trimEnd {m : Mode} {t : Text} (h : commentFree m t = true) :
    commentFree m t.trimEnd = true := by
  rcases Text.exists_gap_trimEnd t with ⟨gap, -, he⟩
  rw [he] at h
  exact commentFree_append_left h

theorem tight_comment (t : Text) : (Text.trimEnd ('/' :: '/' :: t)).Tight := by
  apply Text.tight_trimEnd
  intro c hc
  have : '/' = c := by simpa using hc
  rw [← this]
  exact isBlank_slash

theorem exists_comment_trimEnd (t : Text) :
    ∃ rest, Text.trimEnd ('/' :: '/' :: t) = '/' :: '/' :: rest := by
  rcases Text.exists_gap_trimEnd ('/' :: '/' :: t) with ⟨gap, hgap, he⟩
  have hslash : '/' ∉ gap := hgap.not_mem isBlank_slash
  -- neither slash lies in the gap at the end
  match hs : Text.trimEnd ('/' :: '/' :: t) with
  | [] =>
    rw [hs, List.nil_append] at he
    exact absurd (by rw [← he]; simp) hslash
  | [c] =>
    rw [hs, List.singleton_append, List.cons.injEq] at he
    exact absurd (by rw [← he.2]; simp) hslash
  | c :: d :: rest =>
    rw [hs, List.cons_append, List.cons_append, List.cons.injEq, List.cons.injEq] at he
    exact ⟨rest, by rw [← he.1, ← he.2.1]⟩

/-- What a trimmed line is cut into comes apart again. -/
theorem separable_split {line : Text} (h : line.Tight) : Separable (split line) := by
  rcases split_cases line with ⟨hfree, he⟩ | ⟨s, t, rfl, hfree, hq, he⟩
  · rw [he]
    refine ⟨?_, ?_, by simp, Text.tight_nil, .inl rfl⟩
    · exact Text.tight_trimEnd h.first
    · exact commentFree_trimEnd hfree
  · rw [he]
    refine ⟨?_, ?_, ?_, tight_comment t, .inr (exists_comment_trimEnd t)⟩
    · apply Text.tight_trimEnd
      intro c hc
      exact h.first c (by simp [Option.mem_def.1 hc])
    · exact commentFree_trimEnd (commentFree_append_left hfree)
    · intro _
      rw [quoted_after_trimEnd, hq]

@[simp] theorem attach_nil (code : Text) : attach code [] = code := rfl

theorem split_attach {code comment : Text} (h : Separable ⟨code, comment⟩) :
    split (attach code comment) = ⟨code, comment⟩ := by
  rcases h.comment_lead with hnil | ⟨rest, hlead⟩
  · have hc : comment = [] := hnil
    subst hc
    rw [attach_nil, split_of_commentFree h.free, h.tight.trimEnd]
  · have hc : comment = '/' :: '/' :: rest := hlead
    have hq : (Mode.start.after code).quoted = false := h.closed (by simp [hc])
    have htrim : Text.trimEnd ('/' :: '/' :: rest) = '/' :: '/' :: rest := by
      rw [← hc]
      exact h.comment_tight.trimEnd
    have hspace : Mode.Plain [' '] := Mode.plain_of_gap Text.gap_space
    -- the blank keeps a slash that ends the code apart from those of the comment
    have hfree : commentFree .start (code ++ [' '] ++ ['/']) = true := by
      apply commentFree_append
      · exact commentFree_append h.free (hspace.commentFree _) (.inr hspace.head?_ne)
      · simp [commentFree]
      · exact .inl (by simp)
    have hspaced : (Mode.start.after (code ++ [' '])).quoted = false := by
      rw [Mode.after_append, hspace.quoted_after, hq]
    have hattach : attach code comment = code ++ [' '] ++ '/' :: '/' :: rest := by
      simp [attach, hc]
    rw [hattach, split_comment rest hfree hspaced, Text.gap_space.trimEnd_append, h.tight.trimEnd,
      htrim, hc]

theorem tight_attach {code comment : Text} (hcode : code.Tight) (htight : comment.Tight)
    (hne : code ≠ []) : (attach code comment).Tight := by
  unfold attach
  split
  · exact hcode
  · next hc =>
    have hcomment : comment ≠ [] := by simpa using hc
    apply hcode.append hne (by simp)
    intro d hd
    rw [← List.nil_append (' ' :: comment), Text.getLast?_append_cons ' ' hcomment] at hd
    exact htight.last d hd

theorem Separable.tight_attach {code comment : Text} (h : Separable ⟨code, comment⟩)
    (hne : code ≠ []) : (attach code comment).Tight :=
  Line.tight_attach h.tight h.comment_tight hne

theorem feed_not_mem_attach {code comment : Text} (hcode : '\n' ∉ code)
    (hcomment : '\n' ∉ comment) : '\n' ∉ attach code comment := by
  unfold attach
  split
  · exact hcode
  · simp [hcode, hcomment]

/-- What a single line is cut into are single lines. -/
theorem feed_not_mem_split {line : Text} (h : '\n' ∉ line) :
    '\n' ∉ (split line).code ∧ '\n' ∉ (split line).comment := by
  have htrim : ∀ t : Text, '\n' ∉ t → '\n' ∉ t.trimEnd := by
    intro t ht hn
    rcases Text.exists_gap_trimEnd t with ⟨gap, -, he⟩
    rw [he] at ht
    exact ht (List.mem_append_left _ hn)
  rcases split_cases line with ⟨-, he⟩ | ⟨s, t, rfl, -, -, he⟩
  · rw [he]
    exact ⟨htrim line h, by simp⟩
  · rw [he]
    exact ⟨htrim s fun hn => h (List.mem_append_left _ hn),
      htrim _ fun hn => h (List.mem_append_right _ hn)⟩

theorem ink_attach (code comment : Text) :
    (attach code comment).ink = code.ink ++ comment.ink := by
  unfold attach
  split
  · next h => simp [List.isEmpty_iff.1 h]
  · rw [Text.ink_append, Text.ink_cons, if_pos isBlank_space]

/-- Cutting a line apart keeps its visible characters. -/
theorem ink_split (line : Text) : (split line).code.ink ++ (split line).comment.ink = line.ink := by
  rcases split_cases line with ⟨-, he⟩ | ⟨s, t, rfl, -, -, he⟩
  · rw [he]
    simp
  · rw [he, Text.ink_append]
    simp only [Text.ink_trimEnd]

end YapAssist.Line
