import YapAssist.Block.Parts
import YapAssist.Proofs.Block.Spacing

/-!
# What the parts of a line look like

Cutting is inverted once, and every property of the parts of a line follows from the inversions of
spacing and cutting by one induction:

* `Block.Inlined`, what a line with an inline body looks like;
* `Block.parts_induction`, the induction along the recursion of `Block.parts`;
* `Block.parts_of_mem_parts`, a part is its own only part. A header behind a closing brace is spaced
  only if it may follow one, so this asks that no `while`, `fn` or `export` stands there.
-/

namespace YapAssist

open Line

/-! ## Inline bodies -/

/-- What stands behind the brace of a header: a body, and the brace that closes it if it is closed,
with gaps around them. -/
inductive InlineBody.Behind : (after body : Text) → (closed : Bool) → Prop
  | closed {g₁ body g₂ g₃ : Text} : g₁.Gap → g₂.Gap → g₃.Gap → body.Tight →
      Behind (g₁ ++ (body ++ (g₂ ++ '}' :: g₃))) body true
  | opened {g₁ body g₂ : Text} : g₁.Gap → g₂.Gap → body.Tight → body ≠ [] →
      Behind (g₁ ++ (body ++ g₂)) body false

theorem before?_eq_some_iff {tail t front : Text} :
    Text.before? tail t = some front ↔ t = front ++ tail := by
  rw [Text.before?, Option.map_eq_some_iff]
  constructor
  · rintro ⟨rest, hr, rfl⟩
    rw [Text.after?_eq_some_iff] at hr
    have := congrArg List.reverse hr
    simpa using this
  · rintro rfl
    exact ⟨front.reverse, by rw [Text.after?_eq_some_iff]; simp, by simp⟩

/-- What is read as an inline body. -/
theorem InlineBody.exists_of_of? {line : Text} {b : InlineBody} (h : InlineBody.of? line = some b) :
    ∃ header after, Header.read? line = some (header, after) ∧ line = b.header ++ after ∧
      InlineBody.Behind after b.body b.closed := by
  unfold InlineBody.of? at h
  split at h
  · simp at h
  · next header after hr =>
    refine ⟨header, after, hr, ?_⟩
    rcases Header.exists_spelled_of_read? hr with ⟨raw, hline, -⟩
    have htake : line.take (line.length - after.length) = raw := by
      rw [hline, List.length_append, Nat.add_sub_cancel, List.take_left]
    rcases Text.exists_gaps_trim after with ⟨front, back, hfront, hback, hafter⟩
    have htight := Text.tight_trim after
    simp only [htake] at h
    split at h
    · simp at h
    · next hne =>
      split at h
      · next inner hclosed =>
        rcases Option.some.inj h with rfl
        refine ⟨hline, ?_⟩
        -- the closing brace is visible, so it ends the trimmed text
        rcases Text.exists_gaps_trim inner with ⟨f, g, hf, hg, hinner⟩
        have hcut : after = front ++ f ++ (inner.trim ++ (g ++ '}' :: back)) := by
          rw [before?_eq_some_iff] at hclosed
          rw [hafter, hclosed]
          conv => lhs; rw [hinner]
          simp
        rw [hcut]
        exact .closed (hfront.append hf) hg hback (Text.tight_trim inner)
      · rcases Option.some.inj h with rfl
        refine ⟨hline, ?_⟩
        rw [hafter, List.append_assoc]
        have hne' : after.trim ≠ [] := by simpa using hne
        have hsame : (front ++ (after.trim ++ back)).trim = after.trim := by
          rw [← List.append_assoc]
          exact Text.trim_surround hfront hback htight
        simp only [hsame]
        exact .opened hfront hback htight hne'

namespace Block

/-- What a line with an inline body looks like. The closing brace before its header is a part of
its own, and the header is written as spacing writes it unless it may not stand there. -/
inductive Inlined (front : List Text) (b : InlineBody) : Text → Prop
  | intro {lead raw after : Text} {header : Header} : (∀ part ∈ front, part = ['}']) →
      Mode.Plain lead → header.Spelled raw →
      Header.read? (raw ++ after) = some (header, after) →
      (b.header = header.write ∨
        b.header = raw ∧ keywordBehindBrace (lead ++ (raw ++ after)) = true) →
      InlineBody.Behind after b.body b.closed → Inlined front b (lead ++ (raw ++ after))

theorem Inlined.eq_of_mem_front {front : List Text} {b : InlineBody} {line part : Text}
    (h : Inlined front b line) (hp : part ∈ front) : part = ['}'] := by
  cases h with
  | intro hfront => exact hfront part hp

/-- The body is a stretch of the line. -/
theorem Inlined.exists_body {front : List Text} {b : InlineBody} {line : Text}
    (h : Inlined front b line) : ∃ s t, line = s ++ (b.body ++ t) := by
  cases h with
  | @intro lead raw after header _ _ _ _ _ hbehind =>
    generalize b.body = body at hbehind ⊢
    generalize b.closed = closed at hbehind
    cases hbehind with
    | @closed g₁ body g₂ g₃ _ _ _ _ => exact ⟨lead ++ (raw ++ g₁), g₂ ++ '}' :: g₃, by simp⟩
    | @opened g₁ body g₂ _ _ _ _ => exact ⟨lead ++ (raw ++ g₁), g₂, by simp⟩

theorem plain_closing_gap {gap : Text} (h : gap.Gap) : Mode.Plain ('}' :: gap) := by
  have hbrace : Mode.Plain ['}'] := by decide
  exact hbrace.append (Mode.plain_of_gap h)

theorem trimStart_respaceBehindBrace_of_read? {rest : Text} {header : Header} {body : Text}
    (h : Header.read? rest.trimStart = some (header, body)) :
    Text.trimStart (respaceBehindBrace rest) =
      if header.mayFollowBrace then header.write ++ body else rest.trimStart := by
  rw [respaceBehindBrace_of_read? h]
  split
  · exact trimStart_space_write header body
  · rfl

theorem trimStart_respaceBehindBrace_of_none {rest : Text}
    (h : Header.read? rest.trimStart = none) :
    Text.trimStart (respaceBehindBrace rest) = rest.trimStart := by
  rw [respaceBehindBrace, h]
  simp only
  split
  · next after he =>
    have := Text.gap_space.trimStart_append (['e', 'l', 's', 'e'] ++ after)
    rw [(afterWord?_eq_some_iff.1 he).1]
    rw [List.singleton_append] at this
    exact this.trans (Text.trimStart_cons_of_not_blank (by decide) _)
  · rfl

/-- A line that begins with a header. -/
theorem inlined_of_read? {line body : Text} {header : Header} {b : InlineBody}
    (hr : Header.read? line = some (header, body))
    (h : InlineBody.of? (header.write ++ body) = some b) : Inlined [] b line := by
  rcases Header.exists_spelled_of_read? hr with ⟨raw, hraw, hspelled⟩
  rcases InlineBody.exists_of_of? h with ⟨header', after, hread, hcut, hbehind⟩
  -- the written header is read again, so the body begins where it did
  rw [Header.read?_write_append hr, Option.some.injEq, Prod.mk.injEq] at hread
  rcases hread with ⟨rfl, rfl⟩
  rw [List.append_cancel_right_eq] at hcut
  have hnone : Mode.Plain [] := by decide
  rw [hraw] at hr ⊢
  show Inlined [] b ([] ++ (raw ++ body))
  exact .intro (by simp) hnone hspelled hr (.inl hcut.symm) hbehind

/-- A line that begins with a closing brace and has a header behind it. -/
theorem inlined_of_closing {rest : Text} {b : InlineBody}
    (h : InlineBody.of? (Text.trimStart (respaceBehindBrace rest)) = some b) :
    Inlined [['}']] b ('}' :: rest) := by
  rcases InlineBody.exists_of_of? h with ⟨header', after', hread, hcut, hbehind⟩
  rcases Text.exists_gap_trimStart rest with ⟨gap, hgap, hrest⟩
  cases hr : Header.read? rest.trimStart with
  | none =>
    rw [trimStart_respaceBehindBrace_of_none hr, hr] at hread
    simp at hread
  | some found =>
    rcases found with ⟨header, body⟩
    rcases Header.exists_spelled_of_read? hr with ⟨raw, hraw, hspelled⟩
    have hshape : '}' :: rest = ('}' :: gap) ++ (raw ++ body) := by
      rw [← hraw, List.cons_append, ← hrest]
    have hraw' : Header.read? (raw ++ body) = some (header, body) := by rw [← hraw, hr]
    rw [trimStart_respaceBehindBrace_of_read? hr] at hread hcut
    cases hm : header.mayFollowBrace with
    | true =>
      rw [hm, if_pos rfl] at hread hcut
      rw [Header.read?_write_append hr, Option.some.injEq, Prod.mk.injEq] at hread
      rcases hread with ⟨rfl, rfl⟩
      rw [List.append_cancel_right_eq] at hcut
      rw [hshape]
      exact .intro (by simp) (plain_closing_gap hgap) hspelled hraw' (.inl hcut.symm) hbehind
    | false =>
      -- the header is left as it is, which only a loose keyword can bring about
      rw [hm, if_neg (by simp)] at hread hcut
      rw [hr, Option.some.injEq, Prod.mk.injEq] at hread
      rcases hread with ⟨rfl, rfl⟩
      have hheader : b.header = raw := by
        rw [hraw, List.append_cancel_right_eq] at hcut
        exact hcut.symm
      have hloose : keywordBehindBrace ('}' :: rest) = true := by
        rw [keywordBehindBrace, Header.startsWith_of_not_mayFollowBrace hr hm]
        rfl
      rw [hshape] at hloose ⊢
      exact .intro (by simp) (plain_closing_gap hgap) hspelled hraw' (.inr ⟨hheader, hloose⟩)
        hbehind

/-- The inversion of `inline?` on a spaced line. -/
theorem inlined_of_inline? {line : Text} {front : List Text} {b : InlineBody}
    (hi : isImport line = false) (h : inline? (respace line) = some (front, b)) :
    Inlined front b line := by
  cases hb : Text.after? ['}'] line with
  | some rest =>
    have hline : line = '}' :: rest := Text.after?_eq_some_iff.1 hb
    rw [hline] at hi h ⊢
    rw [respace_closing hi, inline?, after?_closing] at h
    rcases Option.map_eq_some_iff.1 h with ⟨b', hof, he⟩
    rcases Prod.mk.inj he with ⟨rfl, rfl⟩
    exact inlined_of_closing hof
  | none =>
    cases hr : Header.read? line with
    | none =>
      rw [respace_of_read?_eq_none hb hr, inline?, hb] at h
      rcases Option.map_eq_some_iff.1 h with ⟨b', hof, -⟩
      rcases InlineBody.exists_of_of? hof with ⟨header, after, hread, -⟩
      simp [hr] at hread
    | some found =>
      rw [respace_of_read? hi hb hr, inline?, after?_closing_write] at h
      rcases Option.map_eq_some_iff.1 h with ⟨b', hof, he⟩
      rcases Prod.mk.inj he with ⟨rfl, rfl⟩
      exact inlined_of_read? hr hof

/-! ## The recursion of `parts` -/

/-- The parts of an inline body. -/
def bodyOf (b : InlineBody) : List Text := if b.body.isEmpty then [] else parts b.body

/-- The closing brace of an inline body, a part of its own. -/
def closingOf (b : InlineBody) : List Text := if b.closed then [['}']] else []

theorem parts_of_isImport {line : Text} (h : isImport line = true) : parts line = [line] := by
  rw [parts, if_pos h]

theorem parts_of_none {line : Text} (h : inline? (respace line) = none) :
    parts line = [respace line] := by
  cases hi : isImport line with
  | true => rw [parts_of_isImport hi, respace_of_isImport hi]
  | false =>
    rw [parts, if_neg (by simp [hi])]
    split
    · rfl
    · next he => simp [h] at he

theorem parts_of_some {line : Text} {front : List Text} {b : InlineBody}
    (hi : isImport line = false) (h : inline? (respace line) = some (front, b)) :
    parts line = front ++ b.header :: (bodyOf b ++ closingOf b) := by
  rw [parts, if_neg (by simp [hi])]
  split
  · next he => simp [h] at he
  · next front' b' he =>
    rw [h, Option.some.injEq, Prod.mk.injEq] at he
    rcases he with ⟨rfl, rfl⟩
    rfl

/-- Induction along the recursion of `parts`: a line that stays whole, or a header with the parts of
its body. -/
theorem parts_induction {motive : Text → List Text → Prop}
    (leaf : ∀ line, isImport line = true ∨ inline? (respace line) = none →
      motive line [respace line])
    (block : ∀ line front b, isImport line = false → inline? (respace line) = some (front, b) →
      (b.body ≠ [] → motive b.body (parts b.body)) →
      motive line (front ++ b.header :: (bodyOf b ++ closingOf b)))
    (line : Text) : motive line (parts line) := by
  induction hn : line.ink.length using Nat.strongRecOn generalizing line with
  | _ n ih =>
    cases hi : isImport line with
    | true =>
      rw [parts_of_isImport hi]
      have hleaf := leaf line (.inl hi)
      rwa [respace_of_isImport hi] at hleaf
    | false =>
      cases h : inline? (respace line) with
      | none =>
        rw [parts_of_none h]
        exact leaf line (.inr h)
      | some found =>
        rcases found with ⟨front, b⟩
        rw [parts_of_some hi h]
        apply block line front b hi h
        intro _
        -- the body has fewer visible characters than the line
        have hlt := length_ink_lt_of_inline? h
        rw [ink_respace, hn] at hlt
        exact ih _ hlt b.body rfl

theorem parts_ne_nil (line : Text) : parts line ≠ [] := by
  induction line using parts_induction with
  | leaf line _ => simp
  | block line front b _ _ _ => simp

theorem bodyOf_of_ne_nil {b : InlineBody} (h : b.body ≠ []) : bodyOf b = parts b.body := by
  rw [bodyOf, if_neg (by simpa using h)]

theorem mem_bodyOf {b : InlineBody} {part : Text} (h : part ∈ bodyOf b) :
    b.body ≠ [] ∧ part ∈ parts b.body := by
  unfold bodyOf at h
  split at h
  · simp at h
  · next hne => exact ⟨by simpa using hne, h⟩

theorem eq_of_mem_closingOf {b : InlineBody} {part : Text} (h : part ∈ closingOf b) :
    part = ['}'] := by
  unfold closingOf at h
  split at h
  · simpa using h
  · simp at h

/-- A part of an inlined line is a closing brace, the header or a part of the body. -/
theorem Inlined.mem_cases {front : List Text} {b : InlineBody} {line part : Text}
    (h : Inlined front b line) (hp : part ∈ front ++ b.header :: (bodyOf b ++ closingOf b)) :
    part = ['}'] ∨ part = b.header ∨ b.body ≠ [] ∧ part ∈ parts b.body := by
  rw [List.mem_append, List.mem_cons, List.mem_append] at hp
  rcases hp with hp | hp | hp | hp
  · exact .inl (h.eq_of_mem_front hp)
  · exact .inr (.inl hp)
  · exact .inr (.inr (mem_bodyOf hp))
  · exact .inl (eq_of_mem_closingOf hp)

/-! ## Visible characters of the parts -/

theorem ink_of_behind {after body : Text} {closed : Bool}
    (h : InlineBody.Behind after body closed) :
    after.ink = body.ink ++ if closed then ['}'] else [] := by
  cases h with
  | closed h₁ h₂ h₃ _ =>
    simp only [Text.ink_append, Text.ink_cons, h₁.ink_eq_nil, h₂.ink_eq_nil, h₃.ink_eq_nil,
      isBlank_closing]
    simp
  | opened h₁ h₂ _ _ =>
    simp only [Text.ink_append, h₁.ink_eq_nil, h₂.ink_eq_nil]
    simp

/-- The visible characters of a line with an inline body. -/
theorem ink_of_inline? {line : Text} {front : List Text} {b : InlineBody}
    (h : inline? line = some (front, b)) :
    line.ink = front.flatMap Text.ink ++
      (b.header.ink ++ (b.body.ink ++ if b.closed then ['}'] else [])) := by
  unfold inline? at h
  split at h
  · next rest hb =>
    rcases Option.map_eq_some_iff.1 h with ⟨b', hof, he⟩
    rcases Prod.mk.inj he with ⟨rfl, rfl⟩
    rcases InlineBody.exists_of_of? hof with ⟨header, after, -, hcut, hbehind⟩
    have hline : line = '}' :: rest := Text.after?_eq_some_iff.1 hb
    have hrest := congrArg Text.ink hcut
    rw [Text.ink_trimStart, Text.ink_append, ink_of_behind hbehind] at hrest
    rw [hline, Text.ink_cons, if_neg (by decide), hrest]
    rfl
  · rcases Option.map_eq_some_iff.1 h with ⟨b', hof, he⟩
    rcases Prod.mk.inj he with ⟨rfl, rfl⟩
    rcases InlineBody.exists_of_of? hof with ⟨header, after, -, hcut, hbehind⟩
    rw [hcut, Text.ink_append, ink_of_behind hbehind]
    rfl

theorem flatMap_ink_closingOf (b : InlineBody) :
    (closingOf b).flatMap Text.ink = if b.closed then ['}'] else [] := by
  unfold closingOf
  split
  · rfl
  · rfl

/-- The parts of a line have its visible characters. -/
theorem flatMap_ink_parts (line : Text) : (parts line).flatMap Text.ink = line.ink := by
  induction line using parts_induction with
  | leaf line _ => simp [ink_respace]
  | block line front b _ h ih =>
    have hbody : (bodyOf b).flatMap Text.ink = b.body.ink := by
      by_cases hne : b.body = []
      · simp [bodyOf, hne]
      · rw [bodyOf_of_ne_nil hne, ih hne]
    rw [← ink_respace line, ink_of_inline? h, List.flatMap_append, List.flatMap_cons,
      List.flatMap_append, hbody, flatMap_ink_closingOf]

/-! ## Parts are tight -/

/-- A header is read from a text that begins with a letter. -/
theorem exists_cons_of_read? {t : Text} {header : Header} {body : Text}
    (h : Header.read? t = some (header, body)) : ∃ c rest, t = c :: rest ∧ isWord c = true := by
  cases Header.reads_of_read? h with
  | ifThen => exact ⟨'i', _, rfl, by decide⟩
  | elseIf => exact ⟨'e', _, rfl, by decide⟩
  | elseThen => exact ⟨'e', _, rfl, by decide⟩
  | whileDo => exact ⟨'w', _, rfl, by decide⟩
  | function hsig =>
    rcases Header.exists_gaps_of_signature? hsig with ⟨-, g₁, g₂, g₃, -, -, -, rfl⟩
    exact ⟨'f', _, rfl, by decide⟩
  | exported => exact ⟨'e', _, rfl, by decide⟩

/-- A spelling that begins with a letter is tight: it ends with its brace. -/
theorem tight_of_spelled {header : Header} {raw : Text} (h : header.Spelled raw)
    (hfirst : ∀ c ∈ raw.head?, isWord c = true) : raw.Tight ∧ raw ≠ [] := by
  rcases h.exists_concat with ⟨front, rfl⟩
  refine ⟨⟨?_, ?_⟩, by simp⟩
  · intro c hc
    exact isBlank_eq_false_of_isWord (hfirst c hc)
  · intro c hc
    have : '{' = c := by simpa using hc
    rw [← this]
    exact isBlank_brace

/-- The header of an inlined line spells a header and begins with a letter. -/
theorem Inlined.exists_spelled {front : List Text} {b : InlineBody} {line : Text}
    (h : Inlined front b line) : ∃ header : Header, header.Spelled b.header ∧
      ∀ c ∈ b.header.head?, isWord c = true := by
  cases h with
  | @intro lead raw after header _ _ hspelled hread hheader _ =>
    refine ⟨header, ?_⟩
    rcases hheader with he | ⟨he, -⟩
    · rw [he]
      refine ⟨Header.spelled_write hread, ?_⟩
      rcases header.exists_cons_write with ⟨c, rest, hwrite, hc⟩
      simp [hwrite, hc]
    · rw [he]
      refine ⟨hspelled, ?_⟩
      intro c hc
      rcases exists_cons_of_read? hread with ⟨d, rest, hcons, hd⟩
      have hhead : (raw ++ after).head? = some c := by simp [Option.mem_def.1 hc]
      rw [hcons, List.head?_cons, Option.some.injEq] at hhead
      rw [← hhead, hd]

theorem Inlined.tight_header {front : List Text} {b : InlineBody} {line : Text}
    (h : Inlined front b line) : b.header.Tight ∧ b.header ≠ [] := by
  rcases h.exists_spelled with ⟨header, hspelled, hfirst⟩
  exact tight_of_spelled hspelled hfirst

theorem Inlined.getLast?_header {front : List Text} {b : InlineBody} {line : Text}
    (h : Inlined front b line) : b.header.getLast? = some '{' := by
  rcases h.exists_spelled with ⟨header, hspelled, -⟩
  rcases hspelled.exists_concat with ⟨s, hs⟩
  rw [hs, List.getLast?_concat]

theorem Inlined.header_ne_brace {front : List Text} {b : InlineBody} {line : Text}
    (h : Inlined front b line) : b.header ≠ ['{'] := by
  rcases h.exists_spelled with ⟨header, -, hfirst⟩
  intro he
  have hword := hfirst '{' (by rw [he]; rfl)
  exact absurd hword (by decide)

theorem tight_of_behind {after body : Text} {closed : Bool}
    (h : InlineBody.Behind after body closed) : body.Tight := by
  cases h with
  | closed _ _ _ ht => exact ht
  | opened _ _ ht _ => exact ht

/-- The parts of a trimmed line are trimmed, and none of them is empty. -/
theorem tight_of_mem_parts {line : Text} (h : line.Tight) (hne : line ≠ []) :
    ∀ part ∈ parts line, part.Tight ∧ part ≠ [] := by
  induction line using parts_induction with
  | leaf line _ =>
    intro part hp
    rw [List.mem_singleton] at hp
    subst hp
    refine ⟨tight_respace h, ?_⟩
    -- spacing keeps the visible characters, and a tight text that is not empty has some
    intro hnil
    have hink := ink_respace line
    rw [hnil] at hink
    exact hne (h.eq_nil_of_ink hink.symm)
  | block line front b hi hb ih =>
    have hin := inlined_of_inline? hi hb
    intro part hp
    rcases hin.mem_cases hp with rfl | rfl | ⟨hbody, hp⟩
    · exact ⟨Text.tight_singleton isBlank_closing, by simp⟩
    · exact hin.tight_header
    · cases hin with
      | intro _ _ _ _ _ hbehind => exact ih hbody (tight_of_behind hbehind) hbody part hp

/-- The parts of a single line are single lines. -/
theorem feed_not_mem_of_mem_parts {line : Text} (h : '\n' ∉ line) :
    ∀ part ∈ parts line, '\n' ∉ part := by
  induction line using parts_induction with
  | leaf line _ =>
    intro part hp
    rw [List.mem_singleton.1 hp]
    exact feed_not_mem_of_respaced (respaced_respace line) h
  | block line front b hi hb ih =>
    intro part hp
    have hin := inlined_of_inline? hi hb
    rcases hin.mem_cases hp with rfl | rfl | ⟨hbody, hp⟩
    · decide
    · cases hin with
      | @intro lead raw after header _ _ _ hread hheader _ =>
        have hrest : '\n' ∉ raw ++ after := fun hn => h (List.mem_append_right _ hn)
        rcases hheader with he | ⟨he, -⟩
        · rw [he]
          exact Header.feed_not_mem_write hread hrest
        · rw [he]
          exact fun hn => hrest (List.mem_append_left _ hn)
    · refine ih hbody ?_ part hp
      rcases hin.exists_body with ⟨s, t, rfl⟩
      exact fun hn => h (by simp [hn])

/-! ## Parts are their own parts -/

theorem parts_closing : parts ['}'] = [['}']] := by
  have hsame : respace ['}'] = ['}'] := by decide +kernel
  have hnone : inline? (respace ['}']) = none := by decide +kernel
  rw [parts_of_none hnone, hsame]

/-- A written header is its own only part. -/
theorem parts_write {t : Text} {header : Header} {body : Text}
    (h : Header.read? t = some (header, body)) : parts header.write = [header.write] := by
  cases hi : isImport header.write with
  | true => exact parts_of_isImport hi
  | false =>
    have hread := Header.read?_write_append h []
    have hopen := after?_closing_write header []
    rw [List.append_nil] at hread hopen
    have hsame : respace header.write = header.write := by
      rw [respace_of_read? hi hopen hread, List.append_nil]
    -- nothing stands behind the brace, so there is no inline body
    have hnone : inline? header.write = none := by
      rw [inline?, hopen]
      simp [InlineBody.of?, hread, Text.trim]
    have hparts : inline? (respace header.write) = none := by rw [hsame, hnone]
    rw [parts_of_none hparts, hsame]

/-- A line that stays whole stays so when it is spaced again. -/
theorem parts_respace_of_leaf {line : Text}
    (h : isImport line = true ∨ inline? (respace line) = none) :
    parts (respace line) = [respace line] := by
  rcases h with h | h
  · rw [respace_of_isImport h, parts_of_isImport h]
  · have hagain : inline? (respace (respace line)) = none := by rw [respace_respace, h]
    rw [parts_of_none hagain, respace_respace]

theorem keywordBehindBrace_of_behind {after body : Text} {closed : Bool}
    (h : InlineBody.Behind after body closed) (hk : keywordBehindBrace after = false) :
    keywordBehindBrace body = false := by
  cases h with
  | closed => exact keywordBehindBrace_append_left (keywordBehindBrace_append_right hk)
  | opened => exact keywordBehindBrace_append_left (keywordBehindBrace_append_right hk)

/-- A part of a line is its own only part, if no `while`, `fn` or `export` stands behind a closing
brace of the line. -/
theorem parts_of_mem_parts {line : Text} (hk : keywordBehindBrace line = false) :
    ∀ part ∈ parts line, parts part = [part] := by
  induction line using parts_induction with
  | leaf line h =>
    intro part hp
    rw [List.mem_singleton] at hp
    rw [hp]
    exact parts_respace_of_leaf h
  | block line front b hi hb ih =>
    have hin := inlined_of_inline? hi hb
    intro part hp
    have hcases := hin.mem_cases hp
    cases hin with
    | @intro lead raw after header _ _ _ hread hheader hbehind =>
      rcases hcases with rfl | rfl | ⟨hbody, hp⟩
      · exact parts_closing
      · -- the header was spaced, since nothing forbade it
        rcases hheader with he | ⟨-, hloose⟩
        · rw [he]
          exact parts_write hread
        · rw [hloose] at hk
          exact absurd hk (by simp)
      · have hafter := keywordBehindBrace_append_right (keywordBehindBrace_append_right hk)
        exact ih hbody (keywordBehindBrace_of_behind hbehind hafter) part hp

/-- A line and its spaced form have the same parts. -/
theorem parts_respace {line : Text} (h : isImport line = false) :
    parts (respace line) = parts line := by
  cases hb : inline? (respace line) with
  | none => rw [parts_respace_of_leaf (.inr hb), parts_of_none hb]
  | some found =>
    have hagain : inline? (respace (respace line)) = some found := by rw [respace_respace, hb]
    rw [parts_of_some h hb, parts_of_some (isImport_respace h) hagain]

/-! ## The end of the last part -/

/-- The last visible character of a tight text is its last one. -/
theorem getLast?_ink {t : Text} (h : t.Tight) : t.ink.getLast? = t.getLast? := by
  cases hl : t.getLast? with
  | none => rw [List.getLast?_eq_none_iff.1 hl]; rfl
  | some c =>
    rcases List.getLast?_eq_some_iff.1 hl with ⟨s, rfl⟩
    have hc : isBlank c = false := h.last c hl
    rw [Text.ink_append, Text.ink_cons, hc, if_neg (by simp), Text.ink_nil, List.getLast?_concat]

/-- The last part of a line ends as the line does. -/
theorem getLast?_of_getLast?_parts {line last : Text} (ht : line.Tight) (hne : line ≠ [])
    (h : last ∈ (parts line).getLast?) : last.getLast? = line.getLast? := by
  rcases List.getLast?_eq_some_iff.1 h with ⟨front, hparts⟩
  have hmem : last ∈ parts line := by simp [hparts]
  rcases tight_of_mem_parts ht hne last hmem with ⟨htight, hlast⟩
  have hink := flatMap_ink_parts line
  rw [hparts, List.flatMap_append, List.flatMap_singleton] at hink
  -- both texts end with a visible character, and the parts have the visible characters of the line
  have hvisible : last.ink ≠ [] := fun hnil => hlast (htight.eq_nil_of_ink hnil)
  rw [← getLast?_ink ht, ← getLast?_ink htight, ← hink, Text.getLast?_append_right hvisible]

end Block

end YapAssist
