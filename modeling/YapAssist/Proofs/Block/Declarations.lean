import YapAssist.Proofs.Block.Quotes
import YapAssist.Proofs.Symbol.Declaration

/-!
# Spacing, cutting and declarations

A header ends with a brace, and its condition or its parameters stand in parentheses. No declaration
reaches across these characters, so what a header declares does not depend on its gaps or on what
stands behind it:

* `Header.declares_append`, what a line declares that begins with a header;
* `declares_respace`, spacing a line keeps what it declares;
* `Block.any_declares_parts`, the parts of a line declare what the line declares, if every header
  ends outside string literals.
-/

namespace YapAssist

open Line Declaration

namespace Declaration

theorem Scan.after_start_gap {lead gap : Text} (hlead : Mode.Plain lead) (hne : gap ≠ [])
    (hgap : gap.Gap) : Scan.start.after (lead ++ gap) = .start := by
  have hmode : (Scan.start.after (lead ++ gap)).mode = .start := by
    rw [mode_after]
    exact (hlead.append (Mode.plain_of_gap hgap)).after_start
  have hword : (Scan.start.after (lead ++ gap)).inWord = false := by
    rw [inWord_after, Text.getLast?_append_right hne, List.getLast?_eq_some_getLast hne]
    exact isWord_eq_false_of_isBlank (hgap _ (List.getLast_mem hne))
  exact Scan.ext hmode hword

theorem declares_closing (name t : Text) : declares name ('}' :: t) = declares name t := by
  unfold declares
  rw [declaresFrom_cons (by decide), Scan.next_of_plain (by decide) (by decide)]
  rfl

/-- Words before a parenthesis other than `fn` declare nothing. -/
theorem declaresFrom_word_gap {word gap : Text} (h : ∀ c ∈ word, isWord c = true)
    (hf : word.head? ≠ some 'f') (hgap : gap.Gap) (name : Text) (p : Scan) :
    declaresFrom name p (word ++ gap) = false := by
  rw [declaresFrom_word h hf, declaresFrom_gap hgap]

section
variable {name : Text} (hname : isIdentifier name = true)
include hname

/-- A single word declares nothing. -/
theorem declaresFrom_of_word {word : Text} (h : ∀ c ∈ word, isWord c = true) (p : Scan) :
    declaresFrom name p word = false := by
  induction word generalizing p with
  | nil => rfl
  | cons c word ih =>
    have hnone : (afterFn? name (c :: word)).isSome = false := by
      rw [← Bool.not_eq_true, Option.isSome_iff_exists]
      rintro ⟨rest, hrest⟩
      rcases (afterFn?_eq_some_iff hname).1 hrest with ⟨gap, hne, hgap, hcut, -⟩
      rcases List.exists_cons_of_ne_nil hne with ⟨b, more, rfl⟩
      have hword := h b (by rw [hcut]; simp)
      rw [isWord_eq_false_of_isBlank (hgap b List.mem_cons_self)] at hword
      exact absurd hword (by simp)
    rw [declaresFrom, hnone, ih fun d hd => h d (List.mem_cons_of_mem _ hd)]
    simp

/-- The word behind `fn` is the name that is declared. -/
theorem isSome_afterFn?_word {word gap : Text} (hne : word ≠ [])
    (hword : ∀ c ∈ word, isWord c = true) (hgapne : gap ≠ []) (hgap : gap.Gap) :
    (afterFn? name (['f', 'n'] ++ (gap ++ word))).isSome = (word == name) := by
  have hvisible : ∀ {w rest : Text}, w ≠ [] → (∀ c ∈ w, isWord c = true) →
      Text.trimStart (w ++ rest) = w ++ rest := by
    intro w rest hw hall
    rcases List.exists_cons_of_ne_nil hw with ⟨c, more, rfl⟩
    exact Text.trimStart_cons_of_not_blank
      (isBlank_eq_false_of_isWord (hall c List.mem_cons_self)) _
  rw [Bool.eq_iff_iff, Option.isSome_iff_exists, beq_iff_eq]
  simp only [afterFn?_eq_some_iff hname]
  constructor
  · rintro ⟨rest, gap', -, hgap', hcut, hend⟩
    have hsame := congrArg Text.trimStart (List.append_cancel_left hcut)
    rw [hgap.trimStart_append, hgap'.trimStart_append,
      hvisible (isIdentifier_chars hname).1 (isWord_of_mem_name hname)] at hsame
    have hself := @hvisible word [] hne hword
    rw [List.append_nil] at hself
    rw [hself] at hsame
    -- what is left of the word behind the name would go on with it
    cases rest with
    | nil => rw [hsame, List.append_nil]
    | cons c rest =>
      have hc := hword c (by rw [hsame]; simp)
      simp [endsWord, hc] at hend
  · rintro rfl
    exact ⟨[], gap, hgapne, hgap, by simp, rfl⟩

/-- What stands before the parameters of a function declares its name. -/
theorem declares_function {word g₁ g₂ : Text} (hne : word ≠ [])
    (hword : ∀ c ∈ word, isWord c = true) (h₁ne : g₁ ≠ []) (h₁ : g₁.Gap) (h₂ : g₂.Gap) :
    declares name (['f', 'n'] ++ (g₁ ++ (word ++ g₂))) = (word == name) := by
  have hcut : ['f', 'n'] ++ (g₁ ++ (word ++ g₂)) = (['f', 'n'] ++ (g₁ ++ word)) ++ g₂ := by simp
  rw [hcut, declares_append_gap hname h₂]
  have hhere := isSome_afterFn?_word hname hne hword h₁ne h₁
  unfold declares
  rw [List.cons_append] at hhere ⊢
  rw [declaresFrom, hhere]
  have hrest : declaresFrom name (Scan.start.next 'f') (['n'] ++ (g₁ ++ word)) = false := by
    rw [List.singleton_append, declaresFrom_cons (by decide), declaresFrom_gap_append h₁,
      declaresFrom_of_word hname hword]
  rw [hrest, Bool.or_false]
  rfl

/-- A text in parentheses behind plain words is scanned as a line of its own. -/
theorem declares_parentheses {front gap : Text} (hfront : Mode.Plain front) (hgap : gap.Gap)
    (inner rest : Text) :
    declares name (front ++ '(' :: (inner ++ ')' :: (gap ++ '{' :: rest))) =
      (declares name front || (declares name inner ||
        declaresFrom name ⟨⟨(Mode.start.after inner).quoted, false⟩, false⟩ rest)) := by
  have hopen : Stops ('(' :: (inner ++ ')' :: (gap ++ '{' :: rest))) :=
    stops_cons (by decide) (by decide) _
  have hclose : Stops (')' :: (gap ++ '{' :: rest)) := stops_cons (by decide) (by decide) _
  have hinside : (Scan.start.after front).next '(' = .start := by
    rw [Scan.next_of_plain (by decide) (by decide), Scan.mode_after, hfront.quoted_after]
    rfl
  have hbehind : (((Scan.start.after inner).next ')').after gap).next '{' =
      ⟨⟨(Mode.start.after inner).quoted, false⟩, false⟩ := by
    rw [Scan.next_of_plain (c := ')') (by decide) (by decide), Scan.after_gap hgap,
      Scan.next_of_plain (by decide) (by decide), Scan.mode_after]
    rfl
  unfold declares
  rw [declaresFrom_append hname hopen, declaresFrom_cons (by decide), hinside,
    declaresFrom_append hname hclose, declaresFrom_cons (by decide), declaresFrom_gap_append hgap,
    declaresFrom_cons (by decide), hbehind]

end

end Declaration

namespace Header

/-! ## What a header declares -/

/-- Whether a header is that of the function `name`. -/
def names (name : Text) : Header → Bool
  | function _ f _ => f == name
  | _ => false

/-- What a scan knows behind the brace of a header. -/
def behind (header : Header) : Scan := ⟨⟨(Mode.start.after header.inner).quoted, false⟩, false⟩

theorem afterGap?_eq_none {t : Text} (h : ∀ c ∈ t.head?, isBlank c = false) :
    afterGap? t = none := by
  unfold afterGap?
  rw [if_neg]
  rw [Option.any_eq_true]
  rintro ⟨c, hc, hblank⟩
  rw [h c hc] at hblank
  exact absurd hblank (by simp)

/-- A gap stands behind `fn`. -/
theorem gap_ne_nil_of_signature? {gap t name parameters body : Text}
    (h : signature? (['f', 'n'] ++ (gap ++ t)) = some (name, parameters, body))
    (ht : ∀ c ∈ t.head?, isBlank c = false) : gap ≠ [] := by
  rintro rfl
  have hfn : Text.after? ['f', 'n'] (['f', 'n'] ++ t) = some t := Text.after?_eq_some_iff.2 rfl
  rw [List.nil_append, signature?, hfn, Option.bind_some, afterGap?_eq_none ht] at h
  simp at h

/-- A gap stands behind `export`. -/
theorem gap_ne_nil_of_exported {gap t body : Text} {header : Header}
    (h : read? (['e', 'x', 'p', 'o', 'r', 't'] ++ (gap ++ t)) = some (header, body))
    (ht : ∀ c ∈ t.head?, isBlank c = false) : gap ≠ [] := by
  rintro rfl
  simp [read?, readIf?, readElseIf?, readElse?, readWhile?, readFunction?, Text.after?,
    afterGap?_eq_none ht] at h

section
variable {name : Text} (hname : isIdentifier name = true)
include hname

/-- A guard behind plain words that declare nothing. -/
theorem declares_guard {lead t condition body : Text} (hlead : Mode.Plain lead)
    (hnone : ∀ gap : Text, gap.Gap → declares name (lead ++ gap) = false)
    (h : guard? t = some (condition, body)) :
    ∃ raw, lead ++ t = raw ++ body ∧ ∀ rest, declares name (raw ++ rest) =
      (declares name condition ||
        declaresFrom name ⟨⟨(Mode.start.after condition).quoted, false⟩, false⟩ rest) := by
  rcases exists_gaps_of_guard? h with ⟨front, gap, hfront, hgap, rfl⟩
  refine ⟨lead ++ front ++ '(' :: (condition ++ ')' :: (gap ++ ['{'])), by simp, ?_⟩
  intro rest
  have hplain : Mode.Plain (lead ++ front) := hlead.append (Mode.plain_of_gap hfront)
  have hcut : lead ++ front ++ '(' :: (condition ++ ')' :: (gap ++ ['{'])) ++ rest =
      (lead ++ front) ++ '(' :: (condition ++ ')' :: (gap ++ '{' :: rest)) := by simp
  rw [hcut, declares_parentheses hname hplain hgap, hnone front hfront, Bool.false_or]

/-- A signature behind plain words with a gap, or behind nothing. -/
theorem declares_signature {lead t f parameters body : Text} (hlead : Mode.Plain lead)
    (hnone : ∀ u, declares name (lead ++ u) = declares name u)
    (h : signature? t = some (f, parameters, body)) :
    ∃ raw, lead ++ t = raw ++ body ∧ ∀ rest, declares name (raw ++ rest) =
      ((f == name) || (declares name parameters ||
        declaresFrom name ⟨⟨(Mode.start.after parameters).quoted, false⟩, false⟩ rest)) := by
  rcases exists_gaps_of_signature? h with ⟨hsig, g₁, g₂, g₃, h₁, h₂, h₃, rfl⟩
  have h₁ne : g₁ ≠ [] := by
    apply gap_ne_nil_of_signature? h
    intro c hc
    rcases List.exists_cons_of_ne_nil hsig.name_ne_nil with ⟨d, more, rfl⟩
    have hd : d = c := by simpa using hc
    rw [← hd]
    exact isBlank_eq_false_of_isWord (hsig.word d List.mem_cons_self)
  have hwords : Mode.Plain (['f', 'n'] ++ (g₁ ++ (f ++ g₂))) :=
    Mode.Plain.append (by decide) ((Mode.plain_of_gap h₁).append
      ((plain_of_word hsig.word).append (Mode.plain_of_gap h₂)))
  refine ⟨lead ++ (['f', 'n'] ++ (g₁ ++ (f ++ g₂))) ++
    '(' :: (parameters ++ ')' :: (g₃ ++ ['{'])), by simp, ?_⟩
  intro rest
  have hcut : lead ++ (['f', 'n'] ++ (g₁ ++ (f ++ g₂))) ++
      '(' :: (parameters ++ ')' :: (g₃ ++ ['{'])) ++ rest =
      (lead ++ (['f', 'n'] ++ (g₁ ++ (f ++ g₂)))) ++
        '(' :: (parameters ++ ')' :: (g₃ ++ '{' :: rest)) := by simp
  rw [hcut, declares_parentheses hname (hlead.append hwords) h₃, hnone,
    declares_function hname hsig.name_ne_nil hsig.word h₁ne h₁ h₂]

/-- A line that begins with a header declares its function, what stands in its parentheses and what
follows its brace. -/
theorem declares_append {raw body : Text} {header : Header}
    (h : read? (raw ++ body) = some (header, body)) (rest : Text) :
    declares name (raw ++ rest) =
      (header.names name || (declares name header.inner ||
        declaresFrom name header.behind rest)) := by
  -- the shape of `raw` does not depend on what stands behind it
  have hkeep : ∀ {t : Text} {value : Text → Bool}, t = raw ++ body →
      (∃ raw', t = raw' ++ body ∧ ∀ rest, declares name (raw' ++ rest) = value rest) →
      declares name (raw ++ rest) = value rest := by
    rintro t value ht ⟨raw', hraw', hall⟩
    rw [ht] at hraw'
    rw [List.append_cancel_right hraw', hall]
  generalize ht : raw ++ body = t at h
  cases reads_of_read? h with
  | ifThen hguard =>
    refine hkeep ht.symm (declares_guard hname (by decide) ?_ hguard)
    intro gap hgap
    exact declaresFrom_word_gap (List.all_eq_true.1 (by decide)) (by decide) hgap name .start
  | @elseIf condition gap u hgap hguard =>
    have hlead : Mode.Plain (['e', 'l', 's', 'e'] ++ (gap ++ ['i', 'f'])) :=
      Mode.Plain.append (by decide) ((Mode.plain_of_gap hgap).append (by decide))
    have hcut : ['e', 'l', 's', 'e'] ++ (gap ++ (['i', 'f'] ++ u)) =
        ['e', 'l', 's', 'e'] ++ (gap ++ ['i', 'f']) ++ u := by simp
    refine hkeep (hcut.symm.trans ht.symm) (declares_guard hname hlead ?_ hguard)
    intro front hfront
    rw [List.append_assoc, List.append_assoc]
    unfold declares
    rw [declaresFrom_word (List.all_eq_true.1 (by decide)) (by decide),
      declaresFrom_gap_append hgap,
      declaresFrom_word_gap (List.all_eq_true.1 (by decide)) (by decide) hfront]
  | @elseThen gap hgap =>
    apply hkeep ht.symm
    refine ⟨['e', 'l', 's', 'e'] ++ (gap ++ ['{']), by simp, ?_⟩
    intro rest
    have hcut : ['e', 'l', 's', 'e'] ++ (gap ++ ['{']) ++ rest =
        ['e', 'l', 's', 'e'] ++ (gap ++ '{' :: rest) := by simp
    have hstart : Mode.Plain (['e', 'l', 's', 'e'] ++ gap) :=
      Mode.Plain.append (by decide) (Mode.plain_of_gap hgap)
    have hbehind : ((Scan.start.after ['e', 'l', 's', 'e']).after gap).next '{' =
        behind elseThen := by
      rw [← Scan.after_append, Scan.next_of_plain (by decide) (by decide), Scan.mode_after,
        hstart.quoted_after]
      rfl
    rw [hcut]
    unfold declares
    rw [declaresFrom_word (List.all_eq_true.1 (by decide)) (by decide),
      declaresFrom_gap_append hgap,
      declaresFrom_cons (by decide), hbehind]
    rfl
  | whileDo hguard =>
    refine hkeep ht.symm (declares_guard hname (by decide) ?_ hguard)
    intro gap hgap
    exact declaresFrom_word_gap (List.all_eq_true.1 (by decide)) (by decide) hgap name .start
  | function hsig =>
    have hnone : Mode.Plain [] := by decide
    exact hkeep ht.symm (declares_signature hname hnone (fun _ => rfl) hsig)
  | @exported f parameters gap u hgap hsig =>
    have hlead : Mode.Plain (['e', 'x', 'p', 'o', 'r', 't'] ++ gap) :=
      Mode.Plain.append (by decide) (Mode.plain_of_gap hgap)
    have hne : gap ≠ [] := by
      apply gap_ne_nil_of_exported h
      rcases exists_gaps_of_signature? hsig with ⟨-, _, _, _, -, -, -, rfl⟩
      intro c hc
      have hf : 'f' = c := by simpa using hc
      rw [← hf]
      decide
    have hcut : ['e', 'x', 'p', 'o', 'r', 't'] ++ (gap ++ u) =
        ['e', 'x', 'p', 'o', 'r', 't'] ++ gap ++ u := by simp
    refine hkeep (hcut.symm.trans ht.symm) (declares_signature hname hlead ?_ hsig)
    intro v
    have hstart : Scan.start.after (['e', 'x', 'p', 'o', 'r', 't'] ++ gap) = .start :=
      Scan.after_start_gap (by decide) hne hgap
    rw [Scan.after_append] at hstart
    rw [List.append_assoc]
    unfold declares
    rw [declaresFrom_word (List.all_eq_true.1 (by decide)) (by decide),
      declaresFrom_gap_append hgap, hstart]

/-- A header alone declares its function and what stands in its parentheses. -/
theorem declares_raw {raw body : Text} {header : Header}
    (h : read? (raw ++ body) = some (header, body)) :
    declares name raw = (header.names name || declares name header.inner) := by
  have hall := declares_append hname h []
  rwa [List.append_nil, declaresFrom, Bool.or_false] at hall

end

end Header

/-! ## Spacing -/

section
variable {name : Text} (hname : isIdentifier name = true)
include hname

theorem declares_of_respaced {line out : Text} (h : Respaced line out) :
    declares name out = declares name line := by
  cases h with
  | same => rfl
  | @header header raw body _ _ hread =>
    rw [Header.declares_append hname (Header.read?_write_append hread body),
      Header.declares_append hname hread]
  | @behind header gap raw body hgap _ _ hread =>
    have hspace : declares name (' ' :: (header.write ++ body)) =
        declares name (header.write ++ body) := declares_gap_append Text.gap_space name _
    rw [declares_closing, declares_closing, declares_gap_append hgap, hspace,
      Header.declares_append hname (Header.read?_write_append hread body),
      Header.declares_append hname hread]
  | @loneElse gap after hgap =>
    have hspace : declares name (' ' :: (['e', 'l', 's', 'e'] ++ after)) =
        declares name (['e', 'l', 's', 'e'] ++ after) := declares_gap_append Text.gap_space name _
    rw [declares_closing, declares_closing, declares_gap_append hgap, hspace]

/-- Spacing a line keeps what it declares. -/
theorem declares_respace (line : Text) : declares name (respace line) = declares name line :=
  declares_of_respaced hname (respaced_respace line)

end

/-! ## Cutting -/

namespace Block

/-- What stands before the body of a spaced line: a closing brace, if it begins with one, and a
header. -/
theorem exists_header_of_inline? {line : Text} {front : List Text} {b : InlineBody}
    (h : inline? line = some (front, b)) : ∃ header after,
      Header.read? (b.header ++ after) = some (header, after) ∧
      InlineBody.Behind after b.body b.closed ∧
      (line = b.header ++ after ∨
        ∃ gap : Text, gap.Gap ∧ line = '}' :: (gap ++ (b.header ++ after))) := by
  unfold inline? at h
  split at h
  · next rest hclosing =>
    rcases Option.map_eq_some_iff.1 h with ⟨b', hof, he⟩
    rcases Prod.mk.inj he with ⟨-, rfl⟩
    rcases InlineBody.exists_of_of? hof with ⟨header, after, hread, hcut, hbehind⟩
    rcases Text.exists_gap_trimStart rest with ⟨gap, hgap, hrest⟩
    rw [hcut] at hread hrest
    refine ⟨header, after, hread, hbehind, .inr ⟨gap, hgap, ?_⟩⟩
    rw [Text.after?_eq_some_iff.1 hclosing, hrest]
    rfl
  · rcases Option.map_eq_some_iff.1 h with ⟨b', hof, he⟩
    rcases Prod.mk.inj he with ⟨-, rfl⟩
    rcases InlineBody.exists_of_of? hof with ⟨header, after, hread, hcut, hbehind⟩
    rw [hcut] at hread
    exact ⟨header, after, hread, hbehind, .inl hcut⟩

section
variable {name : Text} (hname : isIdentifier name = true)
include hname

/-- The gaps and the closing brace around a body declare nothing. -/
theorem declares_of_behind {after body : Text} {closed : Bool}
    (h : InlineBody.Behind after body closed) : declares name after = declares name body := by
  cases h with
  | @closed g₁ _ g₂ g₃ h₁ h₂ h₃ _ =>
    have hstops : Stops (g₂ ++ '}' :: g₃) :=
      (stops_cons (by decide) (by decide) g₃).gap_append h₂
    rw [declares_gap_append h₁]
    unfold declares
    rw [declaresFrom_append hname hstops, declaresFrom_gap_append h₂,
      declaresFrom_cons (by decide), declaresFrom_gap h₃, Bool.or_false]
  | @opened g₁ _ g₂ h₁ h₂ _ _ => rw [declares_gap_append h₁, declares_append_gap hname h₂]

/-- A line with an inline body declares what its header and its body declare. -/
theorem declares_inlined {line : Text} {front : List Text} {b : InlineBody}
    (h : inline? (respace line) = some (front, b))
    (hclosed : (Mode.start.after b.header).quoted = false) :
    declares name line = (declares name b.header || declares name b.body) := by
  rcases exists_header_of_inline? h with ⟨header, after, hread, hbehind, hline⟩
  -- behind the brace no literal is open, so the body is scanned as a line of its own
  have hfresh : header.behind = .start := by
    rcases Header.exists_spelled_of_read? hread with ⟨raw, hraw, hspelled⟩
    rw [← List.append_cancel_right hraw] at hspelled
    rw [hspelled.after_start] at hclosed
    rw [Header.behind, show (Mode.start.after header.inner).quoted = false from hclosed]
    rfl
  have hwhole : declares name (b.header ++ after) =
      (declares name b.header || declares name b.body) := by
    rw [Header.declares_append hname hread, Header.declares_raw hname hread, hfresh,
      ← declares_of_behind hname hbehind, Bool.or_assoc]
    rfl
  rw [← declares_respace hname]
  rcases hline with hline | ⟨gap, hgap, hline⟩
  · rw [hline, hwhole]
  · rw [hline, declares_closing, declares_gap_append hgap, hwhole]

/-- The parts of a line declare what the line declares. -/
theorem any_declares_parts {line : Text} (h : HeadersOutside line) :
    (parts line).any (declares name) = declares name line := by
  induction line using parts_induction with
  | leaf line _ => simp [declares_respace hname]
  | block line front b hi hb ih =>
    have hin := inlined_of_inline? hi hb
    have hbrace : declares name ['}'] = false := declares_closing name []
    have hfront : front.any (declares name) = false := by
      rw [List.any_eq_false]
      intro part hp
      rw [hin.eq_of_mem_front hp, hbrace]
      simp
    have hclosing : (closingOf b).any (declares name) = false := by
      rw [List.any_eq_false]
      intro part hp
      rw [eq_of_mem_closingOf hp, hbrace]
      simp
    rcases hin.exists_stretches with
      ⟨header, lead, raw, gap, back, rfl, hlead, hraw, hheader, hgap, -, hvisible, -⟩
    have hq := h.quoted_eq_false hlead hraw hvisible
    have hbody : (bodyOf b).any (declares name) = declares name b.body := by
      by_cases hne : b.body = []
      · rw [bodyOf, hne]
        rfl
      · have hcut : lead ++ (raw ++ (gap ++ (b.body ++ back))) =
            (lead ++ raw ++ gap) ++ (b.body ++ back) := by simp
        rw [hcut] at h
        rw [bodyOf_of_ne_nil hne]
        exact ih hne (h.stretch (after_eq_start hlead hraw hgap hq))
    rw [hraw.after_start, ← hheader.after_start] at hq
    rw [List.any_append, List.any_cons, List.any_append, hfront, hclosing, hbody,
      declares_inlined hname hb hq, Bool.or_false, Bool.false_or]

end

end Block

end YapAssist
