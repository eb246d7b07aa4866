import YapAssist.Block.Spacing
import YapAssist.Proofs.Block.Header

/-!
# What spacing does to a line

Spacing is inverted once, and what it keeps follows from that inversion:

* `Respaced`, what spacing may do to a line;
* `respace_respace`, spacing twice is spacing once;
* `keywordBehindBrace`, whether a closing brace has a header behind it that spacing leaves alone.
-/

namespace YapAssist

open Line

/-! ## Spacing -/

theorem respace_of_isImport {line : Text} (h : isImport line = true) : respace line = line := by
  rw [respace, if_pos h]

theorem after?_closing (rest : Text) : Text.after? ['}'] ('}' :: rest) = some rest := by
  simp [Text.after?]

theorem after?_closing_write (header : Header) (rest : Text) :
    Text.after? ['}'] (header.write ++ rest) = none := by
  rcases header.exists_cons_write with ⟨c, more, hwrite, hc⟩
  have hne : '}' ≠ c := by
    rintro rfl
    exact absurd hc (by decide)
  simp [hwrite, Text.after?, hne]

theorem respace_closing {rest : Text} (h : isImport ('}' :: rest) = false) :
    respace ('}' :: rest) = '}' :: respaceBehindBrace rest := by
  rw [respace, if_neg (by simp [h]), after?_closing]

theorem respace_of_read? {line : Text} {header : Header} {body : Text}
    (hi : isImport line = false) (hb : Text.after? ['}'] line = none)
    (h : Header.read? line = some (header, body)) : respace line = header.write ++ body := by
  rw [respace, if_neg (by simp [hi]), hb, h]

theorem respace_of_read?_eq_none {line : Text} (hb : Text.after? ['}'] line = none)
    (h : Header.read? line = none) : respace line = line := by
  rw [respace, hb, h]
  split <;> rfl

theorem respaceBehindBrace_of_read? {rest : Text} {header : Header} {body : Text}
    (h : Header.read? rest.trimStart = some (header, body)) :
    respaceBehindBrace rest =
      if header.mayFollowBrace then ' ' :: (header.write ++ body) else rest := by
  simp [respaceBehindBrace, h]

theorem trimStart_space_write (header : Header) (body : Text) :
    Text.trimStart (' ' :: (header.write ++ body)) = header.write ++ body := by
  have hgap := Text.gap_space.trimStart_append (header.write ++ body)
  rwa [List.singleton_append, Header.trimStart_write_append] at hgap

/-- Behind a closing brace, spacing twice is spacing once. -/
theorem respaceBehindBrace_respaceBehindBrace (rest : Text) :
    respaceBehindBrace (respaceBehindBrace rest) = respaceBehindBrace rest := by
  cases hr : Header.read? rest.trimStart with
  | some found =>
    rcases found with ⟨header, body⟩
    cases hm : header.mayFollowBrace with
    | true =>
      -- the written header is read again, and so it is written again
      have hagain : Header.read? (Text.trimStart (' ' :: (header.write ++ body))) =
          some (header, body) := by
        rw [trimStart_space_write, Header.read?_write_append hr]
      rw [respaceBehindBrace_of_read? hr, if_pos hm, respaceBehindBrace_of_read? hagain, if_pos hm]
    | false =>
      have hsame : respaceBehindBrace rest = rest := by simp [respaceBehindBrace_of_read? hr, hm]
      rw [hsame, hsame]
  | none =>
    cases he : afterWord? ['e', 'l', 's', 'e'] rest.trimStart with
    | some after =>
      have hspaced : respaceBehindBrace rest = ' ' :: (['e', 'l', 's', 'e'] ++ after) := by
        simp [respaceBehindBrace, hr, he]
      -- the second time the same text stands behind the gap
      have htrim : Text.trimStart (' ' :: (['e', 'l', 's', 'e'] ++ after)) = rest.trimStart := by
        have := Text.gap_space.trimStart_append (['e', 'l', 's', 'e'] ++ after)
        rw [List.singleton_append] at this
        rw [this, (afterWord?_eq_some_iff.1 he).1]
        exact Text.trimStart_cons_of_not_blank (by decide) _
      rw [hspaced, respaceBehindBrace, htrim, hr, he]
      rfl
    | none =>
      have hsame : respaceBehindBrace rest = rest := by simp [respaceBehindBrace, hr, he]
      rw [hsame, hsame]

/-- Spacing twice is spacing once. -/
theorem respace_respace (line : Text) : respace (respace line) = respace line := by
  cases hi : isImport line with
  | true => rw [respace_of_isImport hi, respace_of_isImport hi]
  | false =>
    cases hb : Text.after? ['}'] line with
    | some rest =>
      have hline : line = '}' :: rest := Text.after?_eq_some_iff.1 hb
      subst hline
      rw [respace_closing hi]
      cases hi' : isImport ('}' :: respaceBehindBrace rest) with
      | true => exact respace_of_isImport hi'
      | false => rw [respace_closing hi', respaceBehindBrace_respaceBehindBrace]
    | none =>
      cases hr : Header.read? line with
      | some found =>
        rcases found with ⟨header, body⟩
        rw [respace_of_read? hi hb hr]
        cases hi' : isImport (header.write ++ body) with
        | true => exact respace_of_isImport hi'
        | false =>
          exact respace_of_read? hi' (after?_closing_write header body)
            (Header.read?_write_append hr body)
      | none => rw [respace_of_read?_eq_none hb hr, respace_of_read?_eq_none hb hr]

/-- What spacing may do to a line. -/
inductive Respaced : Text → Text → Prop
  | same (line : Text) : Respaced line line
  | header {header : Header} {raw body : Text} : header.Spelled raw → header.Spelled header.write →
      Header.read? (raw ++ body) = some (header, body) →
      Respaced (raw ++ body) (header.write ++ body)
  | behind {header : Header} {gap raw body : Text} : gap.Gap → header.Spelled raw →
      header.Spelled header.write → Header.read? (raw ++ body) = some (header, body) →
      Respaced ('}' :: (gap ++ (raw ++ body))) ('}' :: ' ' :: (header.write ++ body))
  | loneElse {gap after : Text} : gap.Gap →
      Respaced ('}' :: (gap ++ (['e', 'l', 's', 'e'] ++ after)))
        ('}' :: ' ' :: (['e', 'l', 's', 'e'] ++ after))

theorem respaced_respaceBehindBrace (rest : Text) :
    Respaced ('}' :: rest) ('}' :: respaceBehindBrace rest) := by
  rcases Text.exists_gap_trimStart rest with ⟨gap, hgap, hrest⟩
  unfold respaceBehindBrace
  split
  · next header body hr =>
    split
    · rcases Header.exists_spelled_of_read? hr with ⟨raw, he, hraw⟩
      have hwrite := Header.spelled_write hr
      rw [he] at hr
      rw [hrest, he, List.cons_append]
      exact .behind hgap hraw hwrite hr
    · exact .same _
  · split
    · next after he =>
      rw [hrest, (afterWord?_eq_some_iff.1 he).1]
      exact .loneElse hgap
    · exact .same _

theorem respaced_respace (line : Text) : Respaced line (respace line) := by
  cases hi : isImport line with
  | true =>
    rw [respace_of_isImport hi]
    exact .same line
  | false =>
    cases hb : Text.after? ['}'] line with
    | some rest =>
      have hline : line = '}' :: rest := Text.after?_eq_some_iff.1 hb
      subst hline
      rw [respace_closing hi]
      exact respaced_respaceBehindBrace rest
    | none =>
      cases hr : Header.read? line with
      | some found =>
        rcases found with ⟨header, body⟩
        rcases Header.exists_spelled_of_read? hr with ⟨raw, he, hraw⟩
        have hwrite := Header.spelled_write hr
        rw [respace_of_read? hi hb hr]
        rw [he] at hr ⊢
        exact .header hraw hwrite hr
      | none =>
        rw [respace_of_read?_eq_none hb hr]
        exact .same line

/-- Spacing keeps a single line a single line. -/
theorem feed_not_mem_of_respaced {line out : Text} (h : Respaced line out) (hline : '\n' ∉ line) :
    '\n' ∉ out := by
  have hwritten : ∀ {header : Header} {raw body : Text},
      Header.read? (raw ++ body) = some (header, body) → '\n' ∉ raw ++ body →
      '\n' ∉ header.write ++ body := by
    intro header raw body hread hcut
    have hwrite := Header.feed_not_mem_write hread hcut
    have hbody : '\n' ∉ body := fun hn => hcut (List.mem_append_right _ hn)
    simp [hwrite, hbody]
  cases h with
  | same => exact hline
  | header _ _ hread => exact hwritten hread hline
  | @behind header gap raw body _ _ _ hread =>
    have hcut : '\n' ∉ raw ++ body := by
      intro hn
      exact hline (List.mem_cons_of_mem _ (List.mem_append_right _ hn))
    simpa using hwritten hread hcut
  | @loneElse gap after _ =>
    have hafter : '\n' ∉ after := by
      intro hn
      exact hline (by simp [hn])
    simpa using hafter

/-! ## Keywords behind a closing brace -/

/-- The keywords whose headers are not spaced behind a closing brace. -/
def looseKeywords : List Text :=
  [['w', 'h', 'i', 'l', 'e'], ['f', 'n'], ['e', 'x', 'p', 'o', 'r', 't']]

/-- Whether some closing brace of a text has `while`, `fn` or `export` behind it, blanks aside. -/
def keywordBehindBrace : Text → Bool
  | [] => false
  | c :: rest =>
    (c == '}' && looseKeywords.any (Text.trimStart rest).startsWith) ||
      keywordBehindBrace rest

theorem startsWith_iff {t lead : Text} : t.startsWith lead = true ↔ ∃ rest, t = lead ++ rest := by
  rw [Text.startsWith, Option.isSome_iff_exists]
  simp only [Text.after?_eq_some_iff]

theorem keywordBehindBrace_append_right {s t : Text} (h : keywordBehindBrace (s ++ t) = false) :
    keywordBehindBrace t = false := by
  induction s with
  | nil => exact h
  | cons c s ih =>
    rw [List.cons_append, keywordBehindBrace, Bool.or_eq_false_iff] at h
    exact ih h.2

theorem keywordBehindBrace_append_left {s t : Text} (h : keywordBehindBrace (s ++ t) = false) :
    keywordBehindBrace s = false := by
  induction s with
  | nil => rfl
  | cons c s ih =>
    rw [List.cons_append, keywordBehindBrace, Bool.or_eq_false_iff] at h
    rw [keywordBehindBrace, ih h.2, Bool.or_false]
    have hnone := h.1
    rw [Bool.and_eq_false_iff] at hnone ⊢
    refine hnone.imp id ?_
    intro hnone
    rw [List.any_eq_false] at hnone ⊢
    intro word hword hstart
    apply hnone word hword
    -- a keyword found in `s` is found with more text behind it
    rcases startsWith_iff.1 hstart with ⟨rest, hrest⟩
    rcases Text.exists_gap_trimStart s with ⟨gap, hgap, hs⟩
    have hvisible : ∀ more : Text, Text.trimStart (word ++ more) = word ++ more := by
      intro more
      simp only [looseKeywords, List.mem_cons, List.not_mem_nil, or_false] at hword
      rcases hword with rfl | rfl | rfl <;> exact Text.trimStart_cons_of_not_blank (by decide) _
    rw [startsWith_iff]
    refine ⟨rest ++ t, ?_⟩
    rw [hs, hrest, List.append_assoc, List.append_assoc, hgap.trimStart_append, hvisible]

/-- A header that may not follow a closing brace begins with one of those keywords. -/
theorem Header.startsWith_of_not_mayFollowBrace {t : Text} {header : Header} {body : Text}
    (h : Header.read? t = some (header, body)) (hm : header.mayFollowBrace = false) :
    looseKeywords.any t.startsWith = true := by
  rw [List.any_eq_true]
  cases Header.reads_of_read? h with
  | ifThen => simp [Header.mayFollowBrace] at hm
  | elseIf => simp [Header.mayFollowBrace] at hm
  | elseThen => simp [Header.mayFollowBrace] at hm
  | whileDo => exact ⟨['w', 'h', 'i', 'l', 'e'], by decide, startsWith_iff.2 ⟨_, rfl⟩⟩
  | function hsig =>
    rcases Header.exists_gaps_of_signature? hsig with ⟨-, g₁, g₂, g₃, -, -, -, he⟩
    exact ⟨['f', 'n'], by decide, startsWith_iff.2 ⟨_, he⟩⟩
  | exported => exact ⟨['e', 'x', 'p', 'o', 'r', 't'], by decide, startsWith_iff.2 ⟨_, rfl⟩⟩

/-! ## Both ends of a spaced line -/

/-- A text behind a header ends as it does behind the header's brace alone. -/
theorem getLast?_spelled_append {header : Header} {raw : Text} (h : header.Spelled raw)
    (body : Text) : (raw ++ body).getLast? = ('{' :: body).getLast? := by
  rcases h.exists_concat with ⟨front, rfl⟩
  rw [List.append_assoc, List.singleton_append, Text.getLast?_append_right (by simp)]

/-- Spacing does not change how a line ends. -/
theorem getLast?_of_respaced {line out : Text} (h : Respaced line out) :
    out.getLast? = line.getLast? := by
  cases h with
  | same => rfl
  | header hraw hwrite => rw [getLast?_spelled_append hraw, getLast?_spelled_append hwrite]
  | @behind header gap raw body _ hraw hwrite =>
    -- neither text behind the closing brace is empty, so they decide how the lines end
    have hne : raw ++ body ≠ [] := by
      rcases hraw.exists_concat with ⟨front, rfl⟩
      simp
    have hne' : header.write ++ body ≠ [] := by
      rcases hwrite.exists_concat with ⟨front, he⟩
      simp [he]
    show (['}', ' '] ++ (header.write ++ body)).getLast? = (('}' :: gap) ++ (raw ++ body)).getLast?
    rw [Text.getLast?_append_right hne, Text.getLast?_append_right hne',
      getLast?_spelled_append hraw, getLast?_spelled_append hwrite]
  | @loneElse gap after _ =>
    have hne : ['e', 'l', 's', 'e'] ++ after ≠ [] := by simp
    show (['}', ' '] ++ (['e', 'l', 's', 'e'] ++ after)).getLast? =
      (('}' :: gap) ++ (['e', 'l', 's', 'e'] ++ after)).getLast?
    rw [Text.getLast?_append_right hne, Text.getLast?_append_right hne]

theorem head?_of_respaced {line out : Text} (h : Respaced line out)
    (hline : ∀ c ∈ line.head?, isBlank c = false) : ∀ c ∈ out.head?, isBlank c = false := by
  intro c hc
  cases h with
  | same => exact hline c hc
  | @header header raw body hraw hwrite =>
    rcases header.exists_cons_write with ⟨d, rest, he, hd⟩
    have : d = c := by simpa [he] using hc
    rw [← this]
    exact isBlank_eq_false_of_isWord hd
  | behind =>
    have : '}' = c := by simpa using hc
    rw [← this]
    exact isBlank_closing
  | loneElse =>
    have : '}' = c := by simpa using hc
    rw [← this]
    exact isBlank_closing

theorem tight_respace {line : Text} (h : line.Tight) : (respace line).Tight := by
  refine ⟨head?_of_respaced (respaced_respace line) h.first, ?_⟩
  rw [getLast?_of_respaced (respaced_respace line)]
  exact h.last

/-! ## Import lines -/

theorem exists_of_isImport {line : Text} (h : isImport line = true) :
    ∃ gap rest : Text, gap.Gap ∧ line = gap ++ (['i', 'm', 'p', 'o', 'r', 't'] ++ rest) := by
  rw [isImport, Option.isSome_iff_exists] at h
  rcases h with ⟨rest, hrest⟩
  rcases Text.exists_gaps_trim line with ⟨front, back, hfront, -, hline⟩
  refine ⟨front, rest ++ back, hfront, ?_⟩
  rw [hline, (afterWord?_eq_some_iff.1 hrest).1]
  simp

/-- An import line that begins with a visible character begins with `import`. -/
theorem exists_of_isImport_cons {c : Char} {rest : Text} (hblank : isBlank c = false)
    (h : isImport (c :: rest) = true) :
    ∃ more, c :: rest = ['i', 'm', 'p', 'o', 'r', 't'] ++ more := by
  rcases exists_of_isImport h with ⟨gap, more, hgap, he⟩
  cases gap with
  | nil => exact ⟨more, he⟩
  | cons d gap =>
    rw [List.cons_append, List.cons.injEq] at he
    have hd := hgap d List.mem_cons_self
    rw [← he.1, hblank] at hd
    exact absurd hd (by simp)

theorem isImport_cons_eq_false {c : Char} (hblank : isBlank c = false) (hc : c ≠ 'i')
    (rest : Text) : isImport (c :: rest) = false := by
  rw [← Bool.not_eq_true]
  intro h
  rcases exists_of_isImport_cons hblank h with ⟨more, he⟩
  rw [List.cons_append, List.cons.injEq] at he
  exact hc he.1

theorem isImport_write_append (header : Header) (body : Text) :
    isImport (header.write ++ body) = false := by
  rcases header.exists_cons_write with ⟨c, rest, hwrite, hword⟩
  have hblank := isBlank_eq_false_of_isWord hword
  by_cases hc : c = 'i'
  · -- of all headers only `if` begins with that letter, and `import` goes on with another one
    cases header with
    | ifThen condition =>
      rw [← Bool.not_eq_true]
      intro h
      rw [hwrite, List.cons_append] at h
      rcases exists_of_isImport_cons hblank h with ⟨more, he⟩
      rw [← List.cons_append, ← hwrite] at he
      simp [Header.write] at he
    | elseIf condition => simp [Header.write, hc] at hwrite
    | elseThen => simp [Header.write, hc] at hwrite
    | whileDo condition => simp [Header.write, hc] at hwrite
    | function exported name parameters => cases exported <;> simp [Header.write, hc] at hwrite
  · rw [hwrite, List.cons_append]
    exact isImport_cons_eq_false hblank hc _

theorem isImport_respace {line : Text} (h : isImport line = false) :
    isImport (respace line) = false := by
  cases hb : Text.after? ['}'] line with
  | some rest =>
    have hline : line = '}' :: rest := Text.after?_eq_some_iff.1 hb
    rw [hline] at h ⊢
    rw [respace_closing h]
    exact isImport_cons_eq_false isBlank_closing (by decide) _
  | none =>
    cases hr : Header.read? line with
    | some found =>
      rw [respace_of_read? h hb hr]
      exact isImport_write_append found.1 found.2
    | none => rw [respace_of_read?_eq_none hb hr, h]

/-- A brace behind a line does not make it an import. -/
theorem isImport_append_brace {code : Text} (ht : code.Tight) (hne : code ≠ [])
    (h : isImport code = false) : isImport (code ++ [' ', '{']) = false := by
  have hspaced : (code ++ [' ', '{']).Tight :=
    ht.append hne (by simp) (by simp [isBlank_brace])
  rw [← Bool.not_eq_true]
  intro himport
  rw [isImport, hspaced.trim, Option.isSome_iff_exists] at himport
  rcases himport with ⟨rest, hrest⟩
  rw [afterWord?_eq_some_iff, List.append_eq_append_iff] at hrest
  rcases hrest with ⟨⟨mid, hword, htail⟩ | ⟨mid, hcode, htail⟩, hend⟩
  · -- the blank before the brace would lie within the word
    cases mid with
    | nil =>
      have hcode : code = ['i', 'm', 'p', 'o', 'r', 't'] := by simpa using hword.symm
      rw [hcode] at h
      exact absurd h (by decide)
    | cons d mid =>
      rw [List.cons_append, List.cons.injEq] at htail
      have : ' ' ∈ ['i', 'm', 'p', 'o', 'r', 't'] := by
        rw [hword, htail.1]
        simp
      exact absurd this (by decide)
  · -- then the line was an import before
    have hends : endsWord mid = true := by
      cases mid with
      | nil => rfl
      | cons d mid =>
        rw [htail] at hend
        simpa [endsWord] using hend
    have hbefore : isImport code = true := by
      rw [isImport, ht.trim, afterWord?_eq_some_iff.2 ⟨hcode, hends⟩]
      rfl
    rw [h] at hbefore
    exact absurd hbefore (by simp)

theorem isHeader_eq_false_of_isImport {line : Text} (h : isImport line = true) :
    isHeader line = false := by
  rw [isImport, Option.isSome_iff_exists] at h
  rcases h with ⟨rest, hrest⟩
  have htrim := (afterWord?_eq_some_iff.1 hrest).1
  simp [isHeader, htrim, afterWord?, beginsExportedFn, Text.after?]

end YapAssist
