import YapAssist.Block.Header
import YapAssist.Proofs.Line.Mode

/-!
# Headers are read back as they are written

A header leaves its gaps open when it is read and fixes them when it is written. Two facts say
what that means for the text it stands in:

* `Header.exists_spelled_of_read?`, a text a header was read from spells that header: plain words,
  the text in its parentheses, and gaps;
* `Header.read?_write_append`, a header that was read is read again from its written form, with
  anything behind it. The condition stays the shortest one since no earlier parenthesis of it had
  a brace behind it.
-/

namespace YapAssist

open Line

/-- A word means nothing to a scan. -/
theorem plain_of_word {t : Text} (h : ∀ c ∈ t, isWord c = true) : Mode.Plain t := by
  intro c hc
  have hw := h c hc
  refine ⟨?_, ?_, ?_⟩ <;> rintro rfl <;> revert hw <;> decide

namespace Header

/-! ## What the readers take from a text -/

theorem afterBrace?_gap_append {gap : Text} (h : gap.Gap) (body : Text) :
    afterBrace? (gap ++ '{' :: body) = some body := by
  rw [afterBrace?, h.trimStart_append, Text.trimStart_cons_of_not_blank isBlank_brace]
  rfl

theorem exists_gap_of_afterBrace? {t body : Text} (h : afterBrace? t = some body) :
    ∃ gap : Text, gap.Gap ∧ t = gap ++ '{' :: body := by
  rcases Text.exists_gap_trimStart t with ⟨gap, hgap, he⟩
  rw [afterBrace?, Text.after?_eq_some_iff] at h
  exact ⟨gap, hgap, by rw [he, h, List.singleton_append]⟩

theorem exists_gap_of_afterGap? {t rest : Text} (h : afterGap? t = some rest) :
    ∃ gap : Text, gap.Gap ∧ t = gap ++ rest := by
  unfold afterGap? at h
  split at h
  · rcases Text.exists_gap_trimStart t with ⟨gap, hgap, he⟩
    rcases Option.some.inj h with rfl
    exact ⟨gap, hgap, he⟩
  · simp at h

theorem afterGap?_space {t : Text} (h : ∀ c ∈ t.head?, isBlank c = false) :
    afterGap? (' ' :: t) = some t := by
  have hspace : Text.trimStart (' ' :: t) = t := by
    have hgap := Text.gap_space.trimStart_append t
    rw [List.singleton_append] at hgap
    rw [hgap, Text.trimStart_eq_self h]
  rw [afterGap?, hspace]
  simp [isBlank_space]

/-- Whether a brace follows is settled before the next parenthesis. -/
theorem afterBrace?_append_paren (s x y : Text) :
    afterBrace? (s ++ ')' :: x) = none ↔ afterBrace? (s ++ ')' :: y) = none := by
  induction s with
  | nil =>
    have hparen : ∀ z : Text, afterBrace? (')' :: z) = none := by
      intro z
      rw [afterBrace?, Text.trimStart_cons_of_not_blank (by decide)]
      rfl
    simp [hparen]
  | cons c s ih =>
    cases hc : isBlank c with
    | true =>
      have hskip : ∀ z : Text, afterBrace? (c :: z) = afterBrace? z := by
        intro z
        simp [afterBrace?, Text.trimStart, hc]
      rw [List.cons_append, List.cons_append, hskip, hskip, ih]
    | false =>
      rw [List.cons_append, List.cons_append, afterBrace?, afterBrace?,
        Text.trimStart_cons_of_not_blank hc, Text.trimStart_cons_of_not_blank hc]
      simp [Text.after?]

theorem exists_gap_of_condition? {t condition body : Text}
    (h : condition? t = some (condition, body)) :
    ∃ gap : Text, gap.Gap ∧ t = condition ++ ')' :: (gap ++ '{' :: body) := by
  induction t generalizing condition with
  | nil => simp [condition?] at h
  | cons c t ih =>
    unfold condition? at h
    split at h
    · next found hb =>
      simp only [Option.some.injEq, Prod.mk.injEq] at h
      rcases h with ⟨rfl, rfl⟩
      split at hb
      · next hc =>
        rcases exists_gap_of_afterBrace? hb with ⟨gap, hgap, rfl⟩
        exact ⟨gap, hgap, by rw [hc, List.nil_append]⟩
      · simp at hb
    · split at h
      · simp at h
      · rcases Option.map_eq_some_iff.1 h with ⟨⟨condition', body'⟩, hr, he⟩
        rcases Prod.mk.inj he with ⟨rfl, rfl⟩
        rcases ih hr with ⟨gap, hgap, rfl⟩
        exact ⟨gap, hgap, by rw [List.cons_append]⟩

/-- A condition that was read is read again with one blank before the brace. -/
theorem condition?_write {t condition body : Text} (h : condition? t = some (condition, body))
    (rest : Text) :
    condition? (condition ++ ')' :: ' ' :: '{' :: rest) = some (condition, rest) := by
  have hhere : afterBrace? (' ' :: '{' :: rest) = some rest :=
    afterBrace?_gap_append Text.gap_space rest
  induction t generalizing condition with
  | nil => simp [condition?] at h
  | cons c t ih =>
    unfold condition? at h
    split at h
    · next found hb =>
      simp only [Option.some.injEq, Prod.mk.injEq] at h
      rcases h with ⟨rfl, rfl⟩
      rw [List.nil_append, condition?, if_pos rfl, hhere]
    · next hnone =>
      split at h
      · simp at h
      · next hfeed =>
        rcases Option.map_eq_some_iff.1 h with ⟨⟨condition', body'⟩, hr, he⟩
        rcases Prod.mk.inj he with ⟨rfl, rfl⟩
        rcases exists_gap_of_condition? hr with ⟨gap, -, ht⟩
        -- the parenthesis `c`, if it is one, still has no brace behind it
        have hstill : (if c = ')' then afterBrace? (condition' ++ ')' :: ' ' :: '{' :: rest)
            else none) = none := by
          by_cases hc : c = ')'
          · rw [if_pos hc, ht] at hnone
            rw [if_pos hc, afterBrace?_append_paren]
            exact hnone
          · rw [if_neg hc]
        rw [List.cons_append, condition?, hstill, if_neg hfeed, ih hr]
        rfl

theorem exists_gaps_of_guard? {t condition body : Text} (h : guard? t = some (condition, body)) :
    ∃ front gap : Text, front.Gap ∧ gap.Gap ∧
      t = front ++ '(' :: (condition ++ ')' :: (gap ++ '{' :: body)) := by
  rcases Option.bind_eq_some_iff.1 h with ⟨rest, ha, hr⟩
  rcases Text.exists_gap_trimStart t with ⟨front, hfront, hf⟩
  rcases exists_gap_of_condition? hr with ⟨gap, hgap, rfl⟩
  rw [Text.after?_eq_some_iff] at ha
  exact ⟨front, gap, hfront, hgap, by rw [hf, ha, List.singleton_append]⟩

theorem guard?_write {t condition body : Text} (h : guard? t = some (condition, body))
    (rest : Text) :
    guard? (' ' :: '(' :: (condition ++ ')' :: ' ' :: '{' :: rest)) = some (condition, rest) := by
  rcases Option.bind_eq_some_iff.1 h with ⟨found, -, hr⟩
  have hopen : Text.trimStart (' ' :: '(' :: (condition ++ ')' :: ' ' :: '{' :: rest)) =
      '(' :: (condition ++ ')' :: ' ' :: '{' :: rest) := by
    simp [Text.trimStart, isBlank_space, show isBlank '(' = false by decide]
  rw [guard?, hopen]
  exact condition?_write hr rest

/-- The characters of a name and what stands between its parentheses. -/
structure Signature (name parameters : Text) : Prop where
  name_ne_nil : name ≠ []
  word : ∀ c ∈ name, isWord c = true
  no_paren : ')' ∉ parameters

theorem exists_gaps_of_signature? {t name parameters body : Text}
    (h : signature? t = some (name, parameters, body)) :
    Signature name parameters ∧ ∃ g₁ g₂ g₃ : Text, g₁.Gap ∧ g₂.Gap ∧ g₃.Gap ∧
      t = ['f', 'n'] ++
        (g₁ ++ (name ++ (g₂ ++ '(' :: (parameters ++ ')' :: (g₃ ++ '{' :: body))))) := by
  rcases Option.bind_eq_some_iff.1 h with ⟨t₁, h₁, h⟩
  rcases Option.bind_eq_some_iff.1 h₁ with ⟨t₀, h₀, h₁⟩
  rcases exists_gap_of_afterGap? h₁ with ⟨g₁, hg₁, rfl⟩
  rw [Text.after?_eq_some_iff] at h₀
  simp only at h
  split at h
  · simp at h
  · next hne =>
    -- `t₁` begins with the name, `t₂` with the parameters, `t₃` follows their parenthesis
    rcases Option.bind_eq_some_iff.1 h with ⟨t₂, h₂, h⟩
    rcases Option.map_eq_some_iff.1 h with ⟨t₄, h₄, h⟩
    rcases Option.bind_eq_some_iff.1 h₄ with ⟨t₃, h₃, h₄⟩
    simp only [Prod.mk.injEq] at h
    rcases h with ⟨rfl, rfl, rfl⟩
    rcases Text.exists_gap_trimStart (t₁.dropWhile isWord) with ⟨g₂, hg₂, hcut⟩
    rcases exists_gap_of_afterBrace? h₄ with ⟨g₃, hg₃, rfl⟩
    rw [Text.after?_eq_some_iff] at h₂ h₃
    refine ⟨⟨by simpa using hne, ?_, ?_⟩, g₁, g₂, g₃, hg₁, hg₂, hg₃, ?_⟩
    · intro c hc
      exact List.all_eq_true.1 List.all_takeWhile c hc
    · intro hc
      have := List.all_eq_true.1 (List.all_takeWhile (l := t₂) (p := (· != ')'))) ')' hc
      simp at this
    · have hparameters : t₂ = t₂.takeWhile (· != ')') ++ ')' :: (g₃ ++ '{' :: t₄) := by
        rw [← List.singleton_append, ← h₃, List.takeWhile_append_dropWhile]
      have hname : t₁ = t₁.takeWhile isWord ++ (g₂ ++ '(' :: t₂) := by
        rw [← List.singleton_append, ← h₂, ← hcut, List.takeWhile_append_dropWhile]
      rw [h₀, ← hparameters, ← hname]

theorem signature?_write {name parameters : Text} (h : Signature name parameters) (rest : Text) :
    signature? (['f', 'n', ' '] ++ (name ++ '(' :: (parameters ++ ')' :: ' ' :: '{' :: rest))) =
      some (name, parameters, rest) := by
  have hparen : isWord '(' = false := by decide
  have hbrace : afterBrace? (' ' :: '{' :: rest) = some rest :=
    afterBrace?_gap_append Text.gap_space rest
  have hinside := Text.takeWhile_append_mark h.no_paren (' ' :: '{' :: rest)
  have hbehind := Text.dropWhile_append_mark h.no_paren (' ' :: '{' :: rest)
  generalize hlist : parameters ++ ')' :: ' ' :: '{' :: rest = list at hinside hbehind
  -- the blank behind `fn` is the whole gap, since a name begins with a visible character
  have hgap : afterGap? (' ' :: (name ++ '(' :: list)) = some (name ++ '(' :: list) := by
    apply afterGap?_space
    intro c hc
    rcases List.exists_cons_of_ne_nil h.name_ne_nil with ⟨first, more, hname⟩
    have hfirst : first = c := by simpa [hname] using hc
    rw [← hfirst]
    exact isBlank_eq_false_of_isWord (h.word first (by simp [hname]))
  have htake : (name ++ '(' :: list).takeWhile isWord = name := by
    rw [List.takeWhile_append_of_pos h.word, List.takeWhile_cons_of_neg (by simp [hparen]),
      List.append_nil]
  have hdrop : (name ++ '(' :: list).dropWhile isWord = '(' :: list := by
    rw [List.dropWhile_append_of_pos h.word, List.dropWhile_cons_of_neg (by simp [hparen])]
  have hfn : Text.after? ['f', 'n'] (['f', 'n', ' '] ++ (name ++ '(' :: list)) =
      some (' ' :: (name ++ '(' :: list)) := by
    simp [Text.after?]
  rw [signature?, hfn, Option.bind_some, hgap, Option.bind_some]
  simp only [htake, hdrop]
  rw [if_neg (by simp [h.name_ne_nil]), Text.trimStart_cons_of_not_blank (by decide)]
  simp [Text.after?, hinside, hbehind, hbrace]

/-! ## The text that a header was read from -/

/-- What a text looks like from which a header was read, with `body` behind the brace. -/
inductive Reads (body : Text) : Header → Text → Prop
  | ifThen {condition t : Text} : guard? t = some (condition, body) →
      Reads body (.ifThen condition) (['i', 'f'] ++ t)
  | elseIf {condition gap t : Text} : gap.Gap → guard? t = some (condition, body) →
      Reads body (.elseIf condition) (['e', 'l', 's', 'e'] ++ (gap ++ (['i', 'f'] ++ t)))
  | elseThen {gap : Text} : gap.Gap →
      Reads body .elseThen (['e', 'l', 's', 'e'] ++ (gap ++ '{' :: body))
  | whileDo {condition t : Text} : guard? t = some (condition, body) →
      Reads body (.whileDo condition) (['w', 'h', 'i', 'l', 'e'] ++ t)
  | function {name parameters t : Text} : signature? t = some (name, parameters, body) →
      Reads body (.function false name parameters) t
  | exported {name parameters gap t : Text} : gap.Gap →
      signature? t = some (name, parameters, body) →
      Reads body (.function true name parameters) (['e', 'x', 'p', 'o', 'r', 't'] ++ (gap ++ t))

theorem reads_of_read? {t : Text} {header : Header} {body : Text}
    (h : read? t = some (header, body)) : Reads body header t := by
  rw [read?, Option.or_eq_some_iff, Option.or_eq_some_iff, Option.or_eq_some_iff,
    Option.or_eq_some_iff] at h
  rcases h with h | ⟨_, h | ⟨_, h | ⟨_, h | ⟨_, h⟩⟩⟩⟩
  · rcases Option.map_eq_some_iff.1 h with ⟨⟨condition, rest⟩, h₁, he⟩
    rcases Option.bind_eq_some_iff.1 h₁ with ⟨t₀, h₀, hguard⟩
    rcases Prod.mk.inj he with ⟨rfl, rfl⟩
    rw [Text.after?_eq_some_iff.1 h₀]
    exact .ifThen hguard
  · rcases Option.map_eq_some_iff.1 h with ⟨⟨condition, rest⟩, h₁, he⟩
    rcases Option.bind_eq_some_iff.1 h₁ with ⟨t₂, h₂, hguard⟩
    rcases Option.bind_eq_some_iff.1 h₂ with ⟨t₁, h₃, hif⟩
    rcases Option.bind_eq_some_iff.1 h₃ with ⟨t₀, helse, hgap⟩
    rcases Prod.mk.inj he with ⟨rfl, rfl⟩
    rcases exists_gap_of_afterGap? hgap with ⟨gap, hg, hcut⟩
    rw [Text.after?_eq_some_iff.1 helse, hcut, Text.after?_eq_some_iff.1 hif]
    exact .elseIf hg hguard
  · rcases Option.map_eq_some_iff.1 h with ⟨rest, h₁, he⟩
    rcases Option.bind_eq_some_iff.1 h₁ with ⟨t₀, helse, hbrace⟩
    rcases Prod.mk.inj he with ⟨rfl, rfl⟩
    rcases exists_gap_of_afterBrace? hbrace with ⟨gap, hg, hcut⟩
    rw [Text.after?_eq_some_iff.1 helse, hcut]
    exact .elseThen hg
  · rcases Option.map_eq_some_iff.1 h with ⟨⟨condition, rest⟩, h₁, he⟩
    rcases Option.bind_eq_some_iff.1 h₁ with ⟨t₀, h₀, hguard⟩
    rcases Prod.mk.inj he with ⟨rfl, rfl⟩
    rw [Text.after?_eq_some_iff.1 h₀]
    exact .whileDo hguard
  · unfold readFunction? at h
    split at h
    · next rest h₀ =>
      rcases Option.map_eq_some_iff.1 h with ⟨⟨name, parameters, body'⟩, h₁, he⟩
      rcases Option.bind_eq_some_iff.1 h₁ with ⟨t₁, hgap, hsig⟩
      rcases Prod.mk.inj he with ⟨rfl, rfl⟩
      rcases exists_gap_of_afterGap? hgap with ⟨gap, hg, hcut⟩
      rw [Text.after?_eq_some_iff.1 h₀, hcut]
      exact .exported hg hsig
    · rcases Option.map_eq_some_iff.1 h with ⟨⟨name, parameters, body'⟩, hsig, he⟩
      rcases Prod.mk.inj he with ⟨rfl, rfl⟩
      exact .function hsig

/-! ## Spellings of a header -/

/-- What stands between the parentheses of a header. -/
def inner : Header → Text
  | ifThen condition | elseIf condition | whileDo condition => condition
  | elseThen => []
  | function _ _ parameters => parameters

/-- The parenthesis that closes a header; `else` has none. -/
def stop : Header → Text
  | elseThen => []
  | _ => [')']

/-- A text that spells a header: plain words up to the opening parenthesis, what stands inside, and
a gap before the brace. -/
def Spelled (header : Header) (t : Text) : Prop :=
  ∃ lead gap : Text, Mode.Plain lead ∧ gap.Gap ∧
    t = lead ++ (header.inner ++ (header.stop ++ (gap ++ ['{'])))

/-- A guard behind plain words spells the header it belongs to. -/
theorem exists_spelled_of_guard? {header : Header} {lead t condition body : Text}
    (hlead : Mode.Plain lead) (h : guard? t = some (condition, body))
    (hinner : header.inner = condition) (hstop : header.stop = [')']) :
    ∃ raw, lead ++ t = raw ++ body ∧ Spelled header raw := by
  rcases exists_gaps_of_guard? h with ⟨front, gap, hfront, hgap, rfl⟩
  refine ⟨lead ++ (front ++ ['(']) ++ (condition ++ ([')'] ++ (gap ++ ['{']))), by simp,
    lead ++ (front ++ ['(']), gap, ?_, hgap, ?_⟩
  · exact hlead.append ((Mode.plain_of_gap hfront).append (by decide))
  · rw [hinner, hstop]

theorem exists_spelled_of_signature? {lead t name parameters body : Text} (exported : Bool)
    (hlead : Mode.Plain lead) (h : signature? t = some (name, parameters, body)) :
    ∃ raw, lead ++ t = raw ++ body ∧ Spelled (function exported name parameters) raw := by
  rcases exists_gaps_of_signature? h with ⟨hsig, g₁, g₂, g₃, hg₁, hg₂, hg₃, rfl⟩
  refine ⟨lead ++ (['f', 'n'] ++ (g₁ ++ (name ++ (g₂ ++ ['('])))) ++
    (parameters ++ ([')'] ++ (g₃ ++ ['{']))), by simp,
    lead ++ (['f', 'n'] ++ (g₁ ++ (name ++ (g₂ ++ ['('])))), g₃, ?_, hg₃, rfl⟩
  have hname : Mode.Plain name := plain_of_word hsig.word
  have hclose : Mode.Plain (g₂ ++ ['(']) := (Mode.plain_of_gap hg₂).append (by decide)
  have hwords : Mode.Plain (['f', 'n'] ++ (g₁ ++ (name ++ (g₂ ++ ['('])))) :=
    Mode.Plain.append (by decide) ((Mode.plain_of_gap hg₁).append (hname.append hclose))
  exact hlead.append hwords

/-- A text that a header was read from spells that header. -/
theorem exists_spelled_of_read? {t : Text} {header : Header} {body : Text}
    (h : read? t = some (header, body)) : ∃ raw, t = raw ++ body ∧ Spelled header raw := by
  cases reads_of_read? h with
  | ifThen hguard => exact exists_spelled_of_guard? (by decide) hguard rfl rfl
  | @elseIf condition gap rest hgap hguard =>
    have hlead : Mode.Plain (['e', 'l', 's', 'e'] ++ (gap ++ ['i', 'f'])) :=
      Mode.Plain.append (by decide) ((Mode.plain_of_gap hgap).append (by decide))
    have hspelled : ∃ raw, ['e', 'l', 's', 'e'] ++ (gap ++ ['i', 'f']) ++ rest = raw ++ body ∧
        Spelled (elseIf condition) raw :=
      exists_spelled_of_guard? hlead hguard rfl rfl
    simpa using hspelled
  | @elseThen gap hgap =>
    exact ⟨['e', 'l', 's', 'e'] ++ (gap ++ ['{']), by simp, ['e', 'l', 's', 'e'], gap, by decide,
      hgap, rfl⟩
  | whileDo hguard => exact exists_spelled_of_guard? (by decide) hguard rfl rfl
  | function hsig =>
    have hnone : Mode.Plain [] := by decide
    exact exists_spelled_of_signature? false hnone hsig
  | @exported name parameters gap rest hgap hsig =>
    have hlead : Mode.Plain (['e', 'x', 'p', 'o', 'r', 't'] ++ gap) :=
      Mode.Plain.append (by decide) (Mode.plain_of_gap hgap)
    simpa using exists_spelled_of_signature? true hlead hsig

/-! ## Reading back what was written -/

theorem readFunction?_write {name parameters : Text} (h : Signature name parameters)
    (exported : Bool) (rest : Text) :
    readFunction? (write (function exported name parameters) ++ rest) =
      some (function exported name parameters, rest) := by
  have hsig := signature?_write h rest
  cases exported with
  | false =>
    have hnone : Text.after? ['e', 'x', 'p', 'o', 'r', 't'] (['f', 'n', ' '] ++
        (name ++ '(' :: (parameters ++ ')' :: ' ' :: '{' :: rest))) = none := by
      simp [Text.after?]
    have hwrite : write (function false name parameters) ++ rest = ['f', 'n', ' '] ++
        (name ++ '(' :: (parameters ++ ')' :: ' ' :: '{' :: rest)) := by
      simp [write]
    rw [hwrite, readFunction?, hnone, hsig]
    rfl
  | true =>
    have hwrite : write (function true name parameters) ++ rest =
        ['e', 'x', 'p', 'o', 'r', 't'] ++ (' ' :: (['f', 'n', ' '] ++
          (name ++ '(' :: (parameters ++ ')' :: ' ' :: '{' :: rest)))) := by
      simp [write]
    have hgap : afterGap? (' ' :: (['f', 'n', ' '] ++
        (name ++ '(' :: (parameters ++ ')' :: ' ' :: '{' :: rest)))) =
        some (['f', 'n', ' '] ++ (name ++ '(' :: (parameters ++ ')' :: ' ' :: '{' :: rest))) := by
      apply afterGap?_space
      intro c hc
      have : 'f' = c := by simpa using hc
      rw [← this]
      decide
    have hexport := Text.after?_eq_some_iff.2 hwrite
    rw [readFunction?, hexport]
    simp only [hgap, Option.bind_some, hsig, Option.map_some]

/-- A header that was read is read again from its written form, with anything behind it. -/
theorem read?_write_append {t : Text} {header : Header} {body : Text}
    (h : read? t = some (header, body)) (rest : Text) :
    read? (write header ++ rest) = some (header, rest) := by
  -- an earlier reader takes a written header only if it begins with that reader's word
  cases reads_of_read? h with
  | @ifThen condition _ hguard =>
    have hif : readIf? (write (ifThen condition) ++ rest) = some (ifThen condition, rest) := by
      simp [readIf?, write, Text.after?, guard?_write hguard]
    rw [read?, hif, Option.some_or]
  | @elseIf condition gap _ hgap hguard =>
    have hif : readIf? (write (elseIf condition) ++ rest) = none := by
      simp [readIf?, write, Text.after?]
    have hspace : afterGap? (' ' :: 'i' :: 'f' :: ' ' :: '(' ::
        (condition ++ ')' :: ' ' :: '{' :: rest)) =
        some ('i' :: 'f' :: ' ' :: '(' :: (condition ++ ')' :: ' ' :: '{' :: rest)) :=
      afterGap?_space (by simp; decide)
    have helse : readElseIf? (write (elseIf condition) ++ rest) =
        some (elseIf condition, rest) := by
      simp [readElseIf?, write, Text.after?, hspace, guard?_write hguard]
    rw [read?, hif, Option.none_or, helse, Option.some_or]
  | elseThen =>
    have hif : readIf? (write elseThen ++ rest) = none := by simp [readIf?, write, Text.after?]
    -- `else if` shares its first word, so it fails only at the second
    have hspace : afterGap? (' ' :: '{' :: rest) = some ('{' :: rest) :=
      afterGap?_space (by simp [isBlank_brace])
    have helseIf : readElseIf? (write elseThen ++ rest) = none := by
      simp [readElseIf?, write, Text.after?, hspace]
    have hbrace : afterBrace? (' ' :: '{' :: rest) = some rest :=
      afterBrace?_gap_append Text.gap_space rest
    have helse : readElse? (write elseThen ++ rest) = some (elseThen, rest) := by
      simp [readElse?, write, Text.after?, hbrace]
    rw [read?, hif, helseIf, Option.none_or, Option.none_or, helse, Option.some_or]
  | @whileDo condition _ hguard =>
    have hif : readIf? (write (whileDo condition) ++ rest) = none := by
      simp [readIf?, write, Text.after?]
    have helseIf : readElseIf? (write (whileDo condition) ++ rest) = none := by
      simp [readElseIf?, write, Text.after?]
    have helse : readElse? (write (whileDo condition) ++ rest) = none := by
      simp [readElse?, write, Text.after?]
    have hwhile : readWhile? (write (whileDo condition) ++ rest) =
        some (whileDo condition, rest) := by
      simp [readWhile?, write, Text.after?, guard?_write hguard]
    rw [read?, hif, helseIf, helse, Option.none_or, Option.none_or, Option.none_or, hwhile,
      Option.some_or]
  | @function name parameters _ hsig =>
    have hfunction := readFunction?_write (exists_gaps_of_signature? hsig).1 false rest
    rw [read?, hfunction]
    simp [readIf?, readElseIf?, readElse?, readWhile?, write, Text.after?]
  | @exported name parameters gap _ hgap hsig =>
    have hfunction := readFunction?_write (exists_gaps_of_signature? hsig).1 true rest
    rw [read?, hfunction]
    simp [readIf?, readElseIf?, readElse?, readWhile?, write, Text.after?]

/-- The written form spells the header. -/
theorem spelled_write {t : Text} {header : Header} {body : Text}
    (h : read? t = some (header, body)) : Spelled header (write header) := by
  rcases exists_spelled_of_read? (read?_write_append h []) with ⟨raw, he, hraw⟩
  rw [List.append_nil, List.append_nil] at he
  rwa [he]

/-- A header read from a single line is written as a single line. -/
theorem feed_not_mem_write {t : Text} {header : Header} {body : Text}
    (h : read? t = some (header, body)) (ht : '\n' ∉ t) : '\n' ∉ write header := by
  have hinner : '\n' ∉ header.inner := by
    rcases exists_spelled_of_read? h with ⟨raw, rfl, lead, gap, -, -, rfl⟩
    intro hn
    exact ht (by simp [hn])
  have hname : ∀ {name parameters : Text}, Signature name parameters → '\n' ∉ name := by
    intro name parameters hsig hn
    exact absurd (hsig.word _ hn) (by decide)
  cases reads_of_read? h with
  | ifThen => simpa [write, inner] using hinner
  | elseIf => simpa [write, inner] using hinner
  | elseThen => decide
  | whileDo => simpa [write, inner] using hinner
  | function hsig =>
    simpa [write, inner, hname (exists_gaps_of_signature? hsig).1] using hinner
  | exported _ hsig =>
    simpa [write, inner, hname (exists_gaps_of_signature? hsig).1] using hinner

/-- A written header begins with a letter. -/
theorem exists_cons_write (header : Header) :
    ∃ c rest, write header = c :: rest ∧ isWord c = true := by
  cases header with
  | ifThen condition => exact ⟨'i', _, rfl, by decide⟩
  | elseIf condition => exact ⟨'e', _, rfl, by decide⟩
  | elseThen => exact ⟨'e', _, rfl, by decide⟩
  | whileDo condition => exact ⟨'w', _, rfl, by decide⟩
  | function exported name parameters =>
    cases exported with
    | false => exact ⟨'f', _, rfl, by decide⟩
    | true => exact ⟨'e', _, rfl, by decide⟩

/-- A header ends with its brace. -/
theorem Spelled.exists_concat {header : Header} {raw : Text} (h : Spelled header raw) :
    ∃ front, raw = front ++ ['{'] := by
  rcases h with ⟨lead, gap, -, -, rfl⟩
  exact ⟨lead ++ (header.inner ++ (header.stop ++ gap)), by simp⟩

theorem trimStart_write_append (header : Header) (rest : Text) :
    Text.trimStart (write header ++ rest) = write header ++ rest := by
  rcases exists_cons_write header with ⟨c, more, hwrite, hc⟩
  rw [hwrite, List.cons_append,
    Text.trimStart_cons_of_not_blank (isBlank_eq_false_of_isWord hc)]

end Header

end YapAssist
