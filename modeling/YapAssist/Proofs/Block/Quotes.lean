import YapAssist.Proofs.Block.Parts

/-!
# Cutting lines and string literals

Headers are spaced and lines are cut without a look at string literals, so a cut can fall inside
one. Reading on after a cut gives what reading the whole line gave, as long as the literal is never
closed on that line: the parts are separate (`separate`). They are when every header ends outside
literals (`HeadersOutside`), or at least outside those that are closed (`HeadersClear`).

Main statements: `Block.commentFree_or_silent_of_mem_parts`, no part of a line shows a comment that
the line did not show, unless no quote of the part delimits; `Block.quoted_after_of_getLast?_parts`,
a line that leaves no literal open ends in a part that leaves none open.
-/

namespace YapAssist

open Line

/-! ## Spellings of a header to a scan -/

namespace Header

theorem plain_tail (header : Header) {gap : Text} (h : gap.Gap) :
    Mode.Plain (header.stop ++ (gap ++ ['{'])) := by
  have hstop : Mode.Plain header.stop := by
    cases header <;> simp only [stop] <;> decide
  have hbrace : Mode.Plain ['{'] := by decide
  exact hstop.append ((Mode.plain_of_gap h).append hbrace)

/-- Behind a header only an open literal of its condition counts. -/
theorem Spelled.after_start {header : Header} {raw : Text} (h : header.Spelled raw) :
    Mode.start.after raw = ⟨(Mode.start.after header.inner).quoted, false⟩ := by
  rcases h with ⟨lead, gap, hlead, hgap, rfl⟩
  have hfront : Mode.Plain (header.stop ++ gap) := by
    have hall := header.plain_tail hgap
    rw [← List.append_assoc] at hall
    exact fun c hc => hall c (List.mem_append_left _ hc)
  -- the brace is neither quote nor backslash: behind it only the open literal counts
  have hcut : lead ++ (header.inner ++ (header.stop ++ (gap ++ ['{']))) =
      lead ++ (header.inner ++ ((header.stop ++ gap) ++ ['{'])) := by simp
  rw [hcut, Mode.after_append, hlead.after_start, Mode.after_append, Mode.after_append,
    Mode.after_cons, Mode.after_nil, Mode.next_of_ne (by decide) (by decide), hfront.quoted_after]

theorem Spelled.commentFree {header : Header} {raw : Text} (h : header.Spelled raw) :
    commentFree .start raw = true ↔ commentFree .start header.inner = true := by
  rcases h with ⟨lead, gap, hlead, hgap, rfl⟩
  have htail := header.plain_tail hgap
  constructor
  · intro hfree
    have hinner := commentFree_append_right hfree
    rw [hlead.after_start] at hinner
    exact commentFree_append_left hinner
  · intro hfree
    refine commentFree_append (hlead.commentFree _) ?_ (.inl hlead.getLast?_ne)
    rw [hlead.after_start]
    exact commentFree_append hfree (htail.commentFree _) (.inr htail.head?_ne)

theorem Spelled.quotes {header : Header} {raw : Text} (h : header.Spelled raw) :
    Mode.quotes .start raw = Mode.quotes .start header.inner := by
  rcases h with ⟨lead, gap, hlead, hgap, rfl⟩
  have htail := header.plain_tail hgap
  rw [Mode.quotes_append, Mode.quotes_append, hlead.quotes, hlead.after_start, htail.quotes,
    Nat.zero_add, Nat.add_zero]

/-- A header that ends inside a literal has its closing parenthesis there as well. -/
theorem Spelled.exists_paren {header : Header} {raw : Text} (h : header.Spelled raw)
    (hq : (Mode.start.after raw).quoted = true) :
    ∃ s gap : Text, raw = s ++ ')' :: (gap ++ ['{']) ∧ gap.Gap ∧
      (Mode.start.after s).quoted = true := by
  rw [h.after_start] at hq
  rcases h with ⟨lead, gap, hlead, hgap, rfl⟩
  refine ⟨lead ++ header.inner, gap, ?_, hgap, ?_⟩
  · -- `else` has nothing in which a literal could be open
    cases header with
    | elseThen => exact absurd hq (by decide)
    | ifThen condition => simp [stop]
    | elseIf condition => simp [stop]
    | whileDo condition => simp [stop]
    | function exported name parameters => simp [stop]
  · rw [Mode.after_append, hlead.after_start]
    exact hq

theorem Spelled.getLast?_ne {header : Header} {raw : Text} (h : header.Spelled raw) :
    raw.getLast? ≠ some '/' := by
  rcases h.exists_concat with ⟨front, rfl⟩
  simp

end Header

/-! ## Spacing to a scan -/

theorem commentFree_plain_append {lead : Text} (h : Mode.Plain lead) (t : Text) :
    commentFree .start (lead ++ t) = true ↔ commentFree .start t = true := by
  constructor
  · intro hfree
    have := commentFree_append_right hfree
    rwa [h.after_start] at this
  · intro hfree
    refine commentFree_append (h.commentFree _) ?_ (.inl h.getLast?_ne)
    rwa [h.after_start]

theorem commentFree_write_append {header : Header} {raw body : Text} (hraw : header.Spelled raw)
    (hwrite : header.Spelled header.write) (h : commentFree .start (raw ++ body) = true) :
    commentFree .start (header.write ++ body) = true := by
  have hfirst := commentFree_append_left h
  have hrest := commentFree_append_right h
  rw [hraw.commentFree, ← hwrite.commentFree] at hfirst
  rw [hraw.after_start, ← hwrite.after_start] at hrest
  exact commentFree_append hfirst hrest (.inl hwrite.getLast?_ne)

theorem plain_closing_space : Mode.Plain ['}', ' '] := by decide

/-- Spacing a line does not change what a scan knows behind it. -/
theorem after_of_respaced {line out : Text} (h : Respaced line out) :
    Mode.start.after out = Mode.start.after line := by
  cases h with
  | same => rfl
  | header hraw hwrite =>
    rw [Mode.after_append, Mode.after_append, hraw.after_start, hwrite.after_start]
  | @behind header gap raw body hgap hraw hwrite =>
    show Mode.start.after (['}', ' '] ++ (header.write ++ body)) =
      Mode.start.after (('}' :: gap) ++ (raw ++ body))
    rw [Mode.after_append, plain_closing_space.after_start, Mode.after_append _ ('}' :: gap),
      (Block.plain_closing_gap hgap).after_start, Mode.after_append, Mode.after_append,
      hraw.after_start, hwrite.after_start]
  | @loneElse gap after hgap =>
    show Mode.start.after (['}', ' '] ++ (['e', 'l', 's', 'e'] ++ after)) =
      Mode.start.after (('}' :: gap) ++ (['e', 'l', 's', 'e'] ++ after))
    rw [Mode.after_append, plain_closing_space.after_start, Mode.after_append _ ('}' :: gap),
      (Block.plain_closing_gap hgap).after_start]

/-- Spacing a line does not start a comment in it. -/
theorem commentFree_of_respaced {line out : Text} (h : Respaced line out)
    (hfree : commentFree .start line = true) : commentFree .start out = true := by
  cases h with
  | same => exact hfree
  | header hraw hwrite => exact commentFree_write_append hraw hwrite hfree
  | @behind header gap raw body hgap hraw hwrite =>
    show commentFree .start (['}', ' '] ++ (header.write ++ body)) = true
    rw [commentFree_plain_append plain_closing_space]
    apply commentFree_write_append hraw hwrite
    rwa [← commentFree_plain_append (Block.plain_closing_gap hgap)]
  | @loneElse gap after hgap =>
    show commentFree .start (['}', ' '] ++ (['e', 'l', 's', 'e'] ++ after)) = true
    rw [commentFree_plain_append plain_closing_space]
    rwa [← commentFree_plain_append (Block.plain_closing_gap hgap)]

/-- Spaced code keeps apart from a comment as the code does. -/
theorem Line.Separable.respace {code comment : Text} (h : Separable ⟨code, comment⟩) :
    Separable ⟨respace code, comment⟩ := by
  have hspaced := respaced_respace code
  refine ⟨tight_respace h.tight, commentFree_of_respaced hspaced h.free, ?_, h.comment_tight,
    h.comment_lead⟩
  intro hcomment
  show (Mode.start.after (YapAssist.respace code)).quoted = false
  rw [after_of_respaced hspaced]
  exact h.closed hcomment

theorem quotes_plain_append {lead : Text} (h : Mode.Plain lead) (t : Text) :
    Mode.quotes .start (lead ++ t) = Mode.quotes .start t := by
  rw [Mode.quotes_append, h.quotes, h.after_start, Nat.zero_add]

theorem silent_plain_append {lead : Text} (h : Mode.Plain lead) (t : Text) :
    Mode.silent .start (lead ++ t) = Mode.silent .start t := by
  rw [Mode.silent_eq, Mode.silent_eq, quotes_plain_append h]

theorem quotes_spelled_append {header : Header} {raw raw' : Text} (h : header.Spelled raw)
    (h' : header.Spelled raw') (t : Text) :
    Mode.quotes .start (raw ++ t) = Mode.quotes .start (raw' ++ t) := by
  rw [Mode.quotes_append, Mode.quotes_append, h.quotes, h'.quotes, h.after_start, h'.after_start]

/-- Spacing a line keeps the number of its delimiting quotes. -/
theorem quotes_of_respaced {line out : Text} (h : Respaced line out) :
    Mode.quotes .start out = Mode.quotes .start line := by
  cases h with
  | same => rfl
  | header hraw hwrite => exact quotes_spelled_append hwrite hraw _
  | @behind header gap raw body hgap hraw hwrite =>
    show Mode.quotes .start (['}', ' '] ++ (header.write ++ body)) =
      Mode.quotes .start (('}' :: gap) ++ (raw ++ body))
    rw [quotes_plain_append plain_closing_space,
      quotes_plain_append (Block.plain_closing_gap hgap), quotes_spelled_append hwrite hraw]
  | @loneElse gap after hgap =>
    show Mode.quotes .start (['}', ' '] ++ (['e', 'l', 's', 'e'] ++ after)) =
      Mode.quotes .start (('}' :: gap) ++ (['e', 'l', 's', 'e'] ++ after))
    rw [quotes_plain_append plain_closing_space,
      quotes_plain_append (Block.plain_closing_gap hgap)]

/-! ## Where headers end -/

namespace Block

/-- Every header end with code behind it lies outside string literals. -/
def HeadersOutside (line : Text) : Prop :=
  ∀ s gap t : Text, line = s ++ ')' :: (gap ++ '{' :: t) → gap.Gap → ¬ t.Gap →
    (Mode.start.after s).quoted = false

/-- A header end with code behind it lies outside string literals, or in one that is not closed. -/
def HeadersClear (line : Text) : Prop :=
  ∀ s gap t : Text, line = s ++ ')' :: (gap ++ '{' :: t) → gap.Gap → ¬ t.Gap →
    (Mode.start.after s).quoted = true → Mode.silent .start t = true

theorem HeadersOutside.clear {line : Text} (h : HeadersOutside line) : HeadersClear line := by
  intro s gap t he hgap ht hq
  rw [h s gap t he hgap ht] at hq
  exact absurd hq (by simp)

/-- Both conditions pass to a stretch of the line that a scan enters as it enters a line. -/
theorem HeadersOutside.stretch {front t back : Text} (h : HeadersOutside (front ++ (t ++ back)))
    (hfront : Mode.start.after front = .start) : HeadersOutside t := by
  intro s gap rest he hgap hrest
  have hwhole : front ++ (t ++ back) = (front ++ s) ++ ')' :: (gap ++ '{' :: (rest ++ back)) := by
    rw [he]
    simp
  have hq := h (front ++ s) gap (rest ++ back) hwhole hgap fun hb =>
    hrest fun c hc => hb c (List.mem_append_left _ hc)
  rwa [Mode.after_append, hfront] at hq

theorem HeadersClear.stretch {front t back : Text} (h : HeadersClear (front ++ (t ++ back)))
    (hfront : Mode.start.after front = .start) : HeadersClear t := by
  intro s gap rest he hgap hrest hq
  have hwhole : front ++ (t ++ back) = (front ++ s) ++ ')' :: (gap ++ '{' :: (rest ++ back)) := by
    rw [he]
    simp
  have hinside : (Mode.start.after (front ++ s)).quoted = true := by
    rw [Mode.after_append, hfront, hq]
  have hsilent := h (front ++ s) gap (rest ++ back) hwhole hgap (fun hb =>
    hrest fun c hc => hb c (List.mem_append_left _ hc)) hinside
  rw [Mode.silent_append, Bool.and_eq_true] at hsilent
  exact hsilent.1

theorem not_gap_of_behind {after body : Text} {closed : Bool}
    (h : InlineBody.Behind after body closed) : ¬ after.Gap := by
  intro hgap
  have hink := hgap.ink_eq_nil
  rw [ink_of_behind h] at hink
  cases h with
  | closed => simp at hink
  | opened _ _ ht hne => exact hne (ht.eq_nil_of_ink (List.append_eq_nil_iff.1 hink).1)

/-- What an inlined line looks like to a scan: plain text, a spelling of the header, a gap, the body
and plain text. -/
theorem Inlined.exists_stretches {front : List Text} {b : InlineBody} {line : Text}
    (h : Inlined front b line) : ∃ (header : Header) (lead raw gap back : Text),
      line = lead ++ (raw ++ (gap ++ (b.body ++ back))) ∧ Mode.Plain lead ∧ header.Spelled raw ∧
      header.Spelled b.header ∧ gap.Gap ∧ Mode.Plain back ∧ ¬ (gap ++ (b.body ++ back)).Gap ∧
      (b.closed = false → b.body ≠ [] ∧ back.Gap) := by
  cases h with
  | @intro lead raw after header _ hlead hspelled hread hheader hbehind =>
    have hb : header.Spelled b.header := by
      rcases hheader with he | ⟨he, -⟩
      · rw [he]
        exact Header.spelled_write hread
      · rwa [he]
    have hvisible := not_gap_of_behind hbehind
    generalize b.body = body at hbehind ⊢
    generalize b.closed = closed at hbehind ⊢
    cases hbehind with
    | @closed g₁ body g₂ g₃ h₁ h₂ h₃ ht =>
      refine ⟨header, lead, raw, g₁, g₂ ++ '}' :: g₃, rfl, hlead, hspelled, hb, h₁, ?_, hvisible,
        by simp⟩
      exact (Mode.plain_of_gap h₂).append (plain_closing_gap h₃)
    | @opened g₁ body g₂ h₁ h₂ ht hne =>
      exact ⟨header, lead, raw, g₁, g₂, rfl, hlead, hspelled, hb, h₁, Mode.plain_of_gap h₂,
        hvisible, fun _ => ⟨hne, h₂⟩⟩

/-- A header that leaves a literal open ends inside it. -/
theorem exists_header_end {header : Header} {lead raw : Text} (hlead : Mode.Plain lead)
    (hraw : header.Spelled raw) (hq : (Mode.start.after raw).quoted = true) (after : Text) :
    ∃ s gap : Text, lead ++ (raw ++ after) = s ++ ')' :: (gap ++ '{' :: after) ∧ gap.Gap ∧
      (Mode.start.after s).quoted = true := by
  rcases hraw.exists_paren hq with ⟨s, gap, hs, hgap, hinside⟩
  refine ⟨lead ++ s, gap, by simp [hs], hgap, ?_⟩
  rw [Mode.after_append, hlead.after_start, hinside]

theorem HeadersOutside.quoted_eq_false {header : Header} {lead raw after : Text}
    (h : HeadersOutside (lead ++ (raw ++ after))) (hlead : Mode.Plain lead)
    (hraw : header.Spelled raw) (hafter : ¬ after.Gap) :
    (Mode.start.after raw).quoted = false := by
  rw [← Bool.not_eq_true]
  intro hq
  rcases exists_header_end hlead hraw hq after with ⟨s, gap, hcut, hgap, hinside⟩
  rw [h s gap after hcut hgap hafter] at hinside
  exact absurd hinside (by simp)

theorem HeadersClear.silent_behind {header : Header} {lead raw after : Text}
    (h : HeadersClear (lead ++ (raw ++ after))) (hlead : Mode.Plain lead)
    (hraw : header.Spelled raw) (hafter : ¬ after.Gap)
    (hq : (Mode.start.after raw).quoted = true) : Mode.silent .start after = true := by
  rcases exists_header_end hlead hraw hq after with ⟨s, gap, hcut, hgap, hinside⟩
  exact h s gap after hcut hgap hafter hinside

/-- Behind a header that leaves no literal open a scan starts afresh. -/
theorem after_eq_start {header : Header} {lead raw gap : Text} (hlead : Mode.Plain lead)
    (hraw : header.Spelled raw) (hgap : gap.Gap) (hq : (Mode.start.after raw).quoted = false) :
    Mode.start.after (lead ++ raw ++ gap) = .start := by
  rw [hraw.after_start] at hq
  rw [Mode.after_append, Mode.after_append, hlead.after_start, hraw.after_start,
    show (Mode.start.after header.inner).quoted = false from hq]
  exact (Mode.plain_of_gap hgap).after_start

/-! ## The parts to a scan -/

theorem silent_closing : Mode.silent .start ['}'] = true := by decide

theorem silent_of_mem_closingOf {b : InlineBody} :
    ∀ part ∈ closingOf b, Mode.silent .start part = true := by
  intro part hp
  rw [eq_of_mem_closingOf hp, silent_closing]

theorem commentFree_closing : commentFree .start ['}'] = true := by decide

theorem quoted_after_closing : (Mode.start.after ['}']).quoted = false := by decide

/-- Behind a header no backslash is pending, so a scan that only looks for delimiting quotes reads
on as it reads a line. -/
theorem quotes_behind {header : Header} {lead raw : Text} (hlead : Mode.Plain lead)
    (hraw : header.Spelled raw) (t : Text) :
    Mode.quotes (Mode.start.after (lead ++ raw)) t = Mode.quotes .start t := by
  apply Mode.quotes_eq_of_escaped
  rw [Mode.after_append, hlead.after_start, hraw.after_start]
  rfl

theorem silent_behind {header : Header} {lead raw : Text} (hlead : Mode.Plain lead)
    (hraw : header.Spelled raw) (t : Text) :
    Mode.silent (Mode.start.after (lead ++ raw)) t = Mode.silent .start t := by
  rw [Mode.silent_eq, Mode.silent_eq, quotes_behind hlead hraw]

/-- The delimiting quotes of a list of parts, each read as a line. -/
def quotesIn : List Text → Nat
  | [] => 0
  | part :: parts => Mode.quotes .start part + quotesIn parts

theorem quotesIn_append (s t : List Text) : quotesIn (s ++ t) = quotesIn s + quotesIn t := by
  induction s with
  | nil => simp [quotesIn]
  | cons part s ih => rw [List.cons_append, quotesIn, quotesIn, ih, Nat.add_assoc]

theorem quotesIn_eq_zero_iff {parts : List Text} :
    quotesIn parts = 0 ↔ ∀ part ∈ parts, Mode.silent .start part = true := by
  induction parts with
  | nil => simp [quotesIn]
  | cons part parts ih =>
    rw [quotesIn, Nat.add_eq_zero_iff, ih, List.forall_mem_cons, Mode.silent_iff]

/-- The parts of a line have its delimiting quotes, wherever the cuts fall. -/
theorem quotesIn_parts (line : Text) : quotesIn (parts line) = Mode.quotes .start line := by
  induction line using parts_induction with
  | leaf line _ => simp [quotesIn, quotes_of_respaced (respaced_respace line)]
  | block line front b hi hb ih =>
    have hin := inlined_of_inline? hi hb
    rcases hin.exists_stretches with
      ⟨header, lead, raw, gap, back, rfl, hlead, hraw, hheader, hgap, hback, -, -⟩
    have hbody : quotesIn (bodyOf b) = Mode.quotes .start b.body := by
      by_cases hne : b.body = []
      · simp [bodyOf, hne, quotesIn, Mode.quotes]
      · rw [bodyOf_of_ne_nil hne, ih hne]
    have hfront : quotesIn front = 0 := by
      rw [quotesIn_eq_zero_iff]
      intro part hp
      rw [hin.eq_of_mem_front hp, silent_closing]
    have hclosing : quotesIn (closingOf b) = 0 := quotesIn_eq_zero_iff.2 silent_of_mem_closingOf
    rw [quotesIn_append, quotesIn, quotesIn_append, hfront, hbody, hclosing, Nat.zero_add,
      Nat.add_zero, hheader.quotes, ← hraw.quotes]
    rw [← List.append_assoc, Mode.quotes_append, quotes_behind hlead hraw,
      quotes_plain_append hlead, quotes_plain_append (Mode.plain_of_gap hgap), Mode.quotes_append,
      hback.quotes, Nat.add_zero]

/-- No quote of a line delimits if and only if none of its parts does. -/
theorem silent_iff_parts (line : Text) :
    Mode.silent .start line = true ↔ ∀ part ∈ parts line, Mode.silent .start part = true := by
  rw [Mode.silent_iff, ← quotesIn_parts, quotesIn_eq_zero_iff]

/-- Whether parts can be read one by one: behind a part that leaves a literal open no quote delimits
any more. -/
def separate : List Text → Bool
  | [] => true
  | part :: rest =>
    (!(Mode.start.after part).quoted || rest.all (Mode.silent .start)) && separate rest

theorem separate_of_silent {parts : List Text}
    (h : ∀ part ∈ parts, Mode.silent .start part = true) : separate parts = true := by
  induction parts with
  | nil => rfl
  | cons part rest ih =>
    have hrest : ∀ p ∈ rest, Mode.silent .start p = true :=
      fun p hp => h p (List.mem_cons_of_mem _ hp)
    rw [separate, ih hrest, List.all_eq_true.2 hrest]
    simp

theorem separate_append_closing (parts : List Text) (b : InlineBody) :
    separate (parts ++ closingOf b) = separate parts := by
  have hall : (closingOf b).all (Mode.silent .start) = true :=
    List.all_eq_true.2 silent_of_mem_closingOf
  induction parts with
  | nil =>
    rw [List.nil_append, separate_of_silent silent_of_mem_closingOf]
    rfl
  | cons part rest ih =>
    rw [List.cons_append, separate, separate, ih, List.all_append, hall, Bool.and_true]

/-- An inlined line is cut into separate parts when its body is, and its header leaves no literal
open that the body would close. -/
theorem separate_inlined {front : List Text} {b : InlineBody} {line : Text}
    (h : Inlined front b line) :
    separate (front ++ b.header :: (bodyOf b ++ closingOf b)) = true ↔
      ((Mode.start.after b.header).quoted = true → Mode.silent .start b.body = true) ∧
        separate (bodyOf b) = true := by
  -- the closing brace before the header leaves no literal open
  have hfront : ∀ (rest : List Text), separate (front ++ rest) = separate rest := by
    intro rest
    have hall : ∀ part ∈ front, part = ['}'] := fun part hp => h.eq_of_mem_front hp
    clear h
    induction front with
    | nil => rfl
    | cons part front ih =>
      rw [List.cons_append, separate, hall part List.mem_cons_self, quoted_after_closing,
        ih fun p hp => hall p (List.mem_cons_of_mem _ hp)]
      rfl
  have hbody : (bodyOf b ++ closingOf b).all (Mode.silent .start) = Mode.silent .start b.body := by
    rw [Bool.eq_iff_iff, List.all_eq_true, List.forall_mem_append]
    by_cases hne : b.body = []
    · simpa [bodyOf, hne, Mode.silent] using silent_of_mem_closingOf (b := b)
    · rw [silent_iff_parts b.body, bodyOf_of_ne_nil hne]
      exact ⟨fun hboth => hboth.1, fun hparts => ⟨hparts, silent_of_mem_closingOf⟩⟩
  rw [hfront, separate, hbody, separate_append_closing, Bool.and_eq_true]
  cases (Mode.start.after b.header).quoted <;> simp

/-- A line whose headers end outside closed literals is cut into separate parts. -/
theorem separate_of_headersClear {line : Text} (h : HeadersClear line) :
    separate (parts line) = true := by
  induction line using parts_induction with
  | leaf line _ => simp [separate]
  | block line front b hi hb ih =>
    have hin := inlined_of_inline? hi hb
    rw [separate_inlined hin]
    rcases hin.exists_stretches with
      ⟨header, lead, raw, gap, back, rfl, hlead, hraw, hheader, hgap, -, hvisible, -⟩
    rw [hheader.after_start, ← hraw.after_start]
    have hsilent : (Mode.start.after raw).quoted = true → Mode.silent .start b.body = true := by
      intro hq
      have hafter := h.silent_behind hlead hraw hvisible hq
      rw [silent_plain_append (Mode.plain_of_gap hgap), Mode.silent_append, Bool.and_eq_true]
        at hafter
      exact hafter.1
    refine ⟨hsilent, ?_⟩
    by_cases hne : b.body = []
    · simp [bodyOf, hne, separate]
    · rw [bodyOf_of_ne_nil hne]
      by_cases hq : (Mode.start.after raw).quoted = true
      · -- nothing is left to close the literal, so the cuts behind it do no harm
        exact separate_of_silent ((silent_iff_parts b.body).1 (hsilent hq))
      · have hcut : lead ++ (raw ++ (gap ++ (b.body ++ back))) =
            (lead ++ raw ++ gap) ++ (b.body ++ back) := by simp
        rw [hcut] at h
        exact ih hne (h.stretch (after_eq_start hlead hraw hgap (by simpa using hq)))

/-- No part of a line shows a comment that the line does not show. Behind a cut inside a literal
that is never closed a comment may show, but then no quote delimits any more. -/
theorem commentFree_or_silent_of_mem_parts {line : Text} (hsep : separate (parts line) = true)
    (hfree : commentFree .start line = true) :
    ∀ part ∈ parts line, commentFree .start part = true ∨
      Mode.silent .start part = true ∧ ¬ HeadersOutside line := by
  induction line using parts_induction with
  | leaf line _ =>
    intro part hp
    rw [List.mem_singleton.1 hp]
    exact .inl (commentFree_of_respaced (respaced_respace line) hfree)
  | block line front b hi hb ih =>
    have hin := inlined_of_inline? hi hb
    rw [separate_inlined hin] at hsep
    rcases hin.exists_stretches with
      ⟨header, lead, raw, gap, back, rfl, hlead, hraw, hheader, hgap, hback, hvisible, -⟩
    rw [hheader.after_start, ← hraw.after_start] at hsep
    have hrest : commentFree .start (raw ++ (gap ++ (b.body ++ back))) = true := by
      rwa [← commentFree_plain_append hlead]
    intro part hp
    rcases hin.mem_cases hp with rfl | rfl | ⟨hbody, hp⟩
    · exact .inl commentFree_closing
    · left
      rw [hheader.commentFree, ← hraw.commentFree]
      exact commentFree_append_left hrest
    · rw [bodyOf_of_ne_nil hbody] at hsep
      by_cases hq : (Mode.start.after raw).quoted = true
      · -- the header ends inside a literal that nothing behind it closes
        right
        refine ⟨(silent_iff_parts b.body).1 (hsep.1 hq) part hp, ?_⟩
        intro hout
        rw [hout.quoted_eq_false hlead hraw hvisible] at hq
        exact absurd hq (by simp)
      · -- the body is read as a line of its own
        have hfresh := after_eq_start hlead hraw hgap (by simpa using hq)
        have hcut : lead ++ (raw ++ (gap ++ (b.body ++ back))) =
            (lead ++ raw ++ gap) ++ (b.body ++ back) := by simp
        rw [hcut] at hfree ⊢
        have hbodyFree := commentFree_append_right hfree
        rw [hfresh] at hbodyFree
        rcases ih hbody hsep.2 (commentFree_append_left hbodyFree) part hp with h | ⟨h, hout⟩
        · exact .inl h
        · exact .inr ⟨h, fun hall => hout (hall.stretch hfresh)⟩

/-- A line that leaves no literal open ends in a part that leaves none open. -/
theorem quoted_after_of_getLast?_parts {line : Text} (hsep : separate (parts line) = true)
    (hq : (Mode.start.after line).quoted = false) :
    ∀ last ∈ (parts line).getLast?, (Mode.start.after last).quoted = false := by
  induction line using parts_induction with
  | leaf line _ =>
    intro last hl
    have : respace line = last := by simpa using hl
    rw [← this, after_of_respaced (respaced_respace line), hq]
  | block line front b hi hb ih =>
    have hin := inlined_of_inline? hi hb
    rw [separate_inlined hin] at hsep
    rcases hin.exists_stretches with
      ⟨header, lead, raw, gap, back, rfl, hlead, hraw, hheader, hgap, hback, hvisible, hopen⟩
    rw [hheader.after_start, ← hraw.after_start] at hsep
    intro last hl
    cases hc : b.closed with
    | true =>
      -- the last part is the closing brace
      have hsnoc : front ++ b.header :: (bodyOf b ++ closingOf b) =
          (front ++ b.header :: bodyOf b) ++ [['}']] := by simp [closingOf, hc]
      rw [hsnoc, List.getLast?_concat, Option.mem_some] at hl
      rw [← hl, quoted_after_closing]
    | false =>
      have hbody := (hopen hc).1
      have hne : parts b.body ≠ [] := parts_ne_nil b.body
      have hparts := bodyOf_of_ne_nil hbody
      have hlast : last ∈ (parts b.body).getLast? := by
        rwa [closingOf, hc, if_neg (by simp), List.append_nil, hparts,
          Text.getLast?_append_cons b.header hne] at hl
      by_cases hinside : (Mode.start.after raw).quoted = true
      · -- the literal that is open behind the header would still be open at the end
        exfalso
        have hafter : Mode.silent (Mode.start.after (lead ++ raw)) (gap ++ (b.body ++ back)) =
            true := by
          rw [silent_behind hlead hraw, silent_plain_append (Mode.plain_of_gap hgap),
            Mode.silent_append, hsep.1 hinside, hback.silent]
          rfl
        rw [← List.append_assoc, Mode.after_append, Mode.quoted_after_of_silent hafter,
          Mode.after_append, hlead.after_start, hinside] at hq
        exact absurd hq (by simp)
      · have hfresh := after_eq_start hlead hraw hgap (by simpa using hinside)
        have hcut : lead ++ (raw ++ (gap ++ (b.body ++ back))) =
            (lead ++ raw ++ gap) ++ (b.body ++ back) := by simp
        rw [hcut, Mode.after_append, hfresh, Mode.after_append, hback.quoted_after] at hq
        rw [hparts] at hsep
        exact ih hbody hsep.2 hq last hlast

/-- A part that shows no comment keeps apart from what is put behind it: nothing, or behind the last
part the comment of the line. -/
theorem separable_part {cut : Line} (hcut : Separable cut)
    (hsep : separate (parts cut.code) = true) {part behind : Text} (htight : part.Tight)
    (hfree : commentFree .start part = true)
    (hbehind : behind = [] ∨ behind = cut.comment ∧ part ∈ (parts cut.code).getLast?) :
    Separable ⟨part, behind⟩ := by
  rcases hbehind with rfl | ⟨rfl, hlast⟩
  · exact ⟨htight, hfree, fun hcomment => absurd rfl hcomment, Text.tight_nil, .inl rfl⟩
  · refine ⟨htight, hfree, ?_, hcut.comment_tight, hcut.comment_lead⟩
    intro hcomment
    exact quoted_after_of_getLast?_parts hsep (hcut.closed hcomment) part hlast

end Block

end YapAssist
