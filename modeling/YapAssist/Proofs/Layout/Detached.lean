import YapAssist.Layout.Detached
import YapAssist.Proofs.Block.Quotes

/-!
# Joining detached braces

One more line is put on top of the lines above it, or its brace goes to the nearest line of code
(`addLine_cases`). What every such step keeps, the whole reading keeps:

* a line with its brace joined reads as that line's code with ` {` behind it (`split_joinBrace`);
* every line of the result is a line of the text or one of them with its brace joined
  (`mem_joinDetached`);
* in the result no line that is only a brace has a header above that waits for it
  (`settled_joinDetached`), and lines without such a brace are left alone
  (`joinDetached_of_settled`).
-/

namespace YapAssist.Layout

open Line

/-! ## Lines of code -/

theorem isBlankLine_eq_false_iff {line : Text} : isBlankLine line = false ↔ line.trim ≠ [] := by
  rw [isBlankLine, ← Bool.not_eq_true, List.isEmpty_iff]

/-- A line of code has code before its comment. -/
theorem code_ne_nil {line : Text} (h : isVerbatim line = false) : (split line.trim).code ≠ [] := by
  rw [isVerbatim, Bool.or_eq_false_iff, isBlankLine_eq_false_iff, isComment] at h
  have htight := Text.tight_trim line
  rcases split_cases line.trim with ⟨-, he⟩ | ⟨s, t, hline, -, -, he⟩
  · rw [he, htight.trimEnd]
    exact h.1
  · rw [he]
    intro hnil
    have hgap : s.Gap := by
      rcases Text.exists_gap_trimEnd s with ⟨gap, hgap, hs⟩
      rw [hs, show s.trimEnd = [] from hnil, List.nil_append]
      exact hgap
    -- a line that begins with its comment is a comment line
    cases s with
    | nil =>
      have hstart : line.trim.startsWith ['/', '/'] = true :=
        startsWith_iff.2 ⟨t, hline⟩
      rw [h.2] at hstart
      exact absurd hstart (by simp)
    | cons c s =>
      have hblank := hgap c List.mem_cons_self
      rw [htight.first c (by rw [hline]; rfl)] at hblank
      exact absurd hblank (by simp)

/-- Code that keeps apart from the comment behind it makes a line of code. -/
theorem isVerbatim_attach {code comment : Text} (h : Separable ⟨code, comment⟩) (hne : code ≠ [])
    {gap : Text} (hgap : gap.Gap) : isVerbatim (gap ++ attach code comment) = false := by
  have htrim : (gap ++ attach code comment).trim = attach code comment :=
    Text.trim_gap_append hgap (h.tight_attach hne)
  have hcode : (split (attach code comment)).code = code := by rw [split_attach h]
  rw [isVerbatim, Bool.or_eq_false_iff, isBlankLine_eq_false_iff, isComment, htrim]
  constructor
  · intro hnil
    rw [hnil] at hcode
    exact hne hcode.symm
  · -- cutting a line that begins with its comment leaves no code
    rw [← Bool.not_eq_true]
    intro hstart
    rcases startsWith_iff.1 hstart with ⟨rest, hrest⟩
    have hcut := split_comment (s := []) rest (by decide) rfl
    have hline : attach code comment = [] ++ '/' :: '/' :: rest := hrest
    rw [hline, hcut] at hcode
    exact hne hcode.symm

/-- A line that is only a brace is a line of code. -/
theorem isVerbatim_of_trim_brace {line : Text} (h : line.trim = ['{']) :
    isVerbatim line = false := by
  rw [isVerbatim, isBlankLine, isComment, h]
  rfl

/-! ## A line with its brace joined -/

/-- Whether a part is a header that still lacks its brace. -/
def openHeader (part : Text) : Bool := isHeader part && !endsOpening part

/-- A brace ends the wait for it. -/
theorem openHeader_of_getLast? {part : Text} (ht : part.Tight) (h : part.getLast? = some '{') :
    openHeader part = false := by
  by_cases himport : isImport part = true
  · simp [openHeader, isHeader_eq_false_of_isImport himport]
  · simp [openHeader, endsOpening, himport, ht.trim, h]

/-- The code of a line with an opening brace behind it. -/
def codeBrace (line : Text) : Text := (split line.trim).code ++ [' ', '{']

theorem plain_space_brace : Mode.Plain [' ', '{'] := by decide

theorem tight_codeBrace {line : Text} (h : isVerbatim line = false) : (codeBrace line).Tight := by
  have htight := (separable_split (Text.tight_trim line)).tight
  exact htight.append (code_ne_nil h) (by simp) (by simp [isBlank_brace])

theorem codeBrace_ne_nil (line : Text) : codeBrace line ≠ [] := by simp [codeBrace]

/-- A line that waits for a brace is no import. -/
theorem isImport_of_awaitsBrace {line : Text} (h : awaitsBrace line = true) :
    isImport (split line.trim).code = false := by
  rw [← Bool.not_eq_true]
  intro himport
  rw [awaitsBrace, Block.parts_of_isImport himport] at h
  have hheader := isHeader_eq_false_of_isImport himport
  simp [hheader] at h

theorem isImport_codeBrace {line : Text} (hcode : isVerbatim line = false)
    (h : awaitsBrace line = true) : isImport (codeBrace line) = false :=
  isImport_append_brace (separable_split (Text.tight_trim line)).tight (code_ne_nil hcode)
    (isImport_of_awaitsBrace h)

/-- Code with its brace still keeps apart from the comment of the line. -/
theorem separable_codeBrace {line : Text} (h : isVerbatim line = false) :
    Separable ⟨codeBrace line, (split line.trim).comment⟩ := by
  have hcut := separable_split (Text.tight_trim line)
  refine ⟨tight_codeBrace h, ?_, ?_, hcut.comment_tight, hcut.comment_lead⟩
  · exact commentFree_append hcut.free (plain_space_brace.commentFree _)
      (.inr plain_space_brace.head?_ne)
  · intro hcomment
    show (Mode.start.after (codeBrace line)).quoted = false
    rw [codeBrace, Mode.after_append, plain_space_brace.quoted_after]
    exact hcut.closed hcomment

theorem respace_codeBrace_ne_nil (line : Text) : respace (codeBrace line) ≠ [] := by
  intro hnil
  have hink := ink_respace (codeBrace line)
  rw [hnil, codeBrace, Text.ink_append, show Text.ink [' ', '{'] = ['{'] by decide] at hink
  simp at hink

theorem joinBrace_eq (line : Text) :
    joinBrace line = attach (respace (codeBrace line)) (split line.trim).comment := rfl

theorem trim_joinBrace {line : Text} (h : isVerbatim line = false) :
    (joinBrace line).trim = joinBrace line := by
  have htight := (separable_codeBrace h).respace.tight_attach (respace_codeBrace_ne_nil line)
  rw [joinBrace_eq, htight.trim]

/-- A line with its brace joined reads as the line's code with the brace behind it, spaced. -/
theorem split_joinBrace {line : Text} (h : isVerbatim line = false) :
    split (joinBrace line).trim = ⟨respace (codeBrace line), (split line.trim).comment⟩ := by
  rw [trim_joinBrace h, joinBrace_eq, split_attach (separable_codeBrace h).respace]

theorem code_joinBrace {line : Text} (h : isVerbatim line = false) :
    (split (joinBrace line).trim).code = respace (codeBrace line) := by
  rw [split_joinBrace h]

theorem isVerbatim_joinBrace {line : Text} (h : isVerbatim line = false) :
    isVerbatim (joinBrace line) = false := by
  rw [joinBrace_eq, ← List.nil_append (attach _ _)]
  exact isVerbatim_attach (separable_codeBrace h).respace (respace_codeBrace_ne_nil line)
    Text.gap_nil

theorem ink_joinBrace (line : Text) :
    (joinBrace line).ink = (split line.trim).code.ink ++ '{' :: (split line.trim).comment.ink := by
  rw [joinBrace, ink_attach, ink_respace, Text.ink_append,
    show Text.ink [' ', '{'] = ['{'] by decide, List.append_assoc, List.singleton_append]

/-- A joined line is more than its brace. -/
theorem trim_joinBrace_ne {line : Text} (h : isVerbatim line = false) :
    (joinBrace line).trim ≠ ['{'] := by
  intro he
  have hink := congrArg Text.ink he
  rw [Text.ink_trim, ink_joinBrace, show Text.ink ['{'] = ['{'] by decide] at hink
  have hlength := congrArg List.length hink
  simp only [List.length_append, List.length_cons, List.length_nil] at hlength
  have hcode : (split line.trim).code.ink = [] := by
    rw [← List.length_eq_zero_iff]
    omega
  exact code_ne_nil h
    ((separable_split (Text.tight_trim line)).tight.eq_nil_of_ink hcode)

/-- The parts of a joined line are those of the line's code with the brace behind it. -/
theorem parts_joinBrace {line : Text} (hcode : isVerbatim line = false)
    (h : awaitsBrace line = true) :
    Block.parts (split (joinBrace line).trim).code = Block.parts (codeBrace line) := by
  rw [code_joinBrace hcode, Block.parts_respace (isImport_codeBrace hcode h)]

/-- A line that has its brace waits for none. -/
theorem awaitsBrace_joinBrace {line : Text} (hcode : isVerbatim line = false)
    (h : awaitsBrace line = true) : awaitsBrace (joinBrace line) = false := by
  have htight := tight_codeBrace hcode
  have hne := codeBrace_ne_nil line
  show (Block.parts (split (joinBrace line).trim).code).getLast?.any openHeader = false
  rw [parts_joinBrace hcode h, ← Bool.not_eq_true, Option.any_eq_true]
  rintro ⟨last, hlast, hwaits⟩
  -- the last part ends as the code does, with the joined brace
  have hend : last.getLast? = (codeBrace line).getLast? :=
    Block.getLast?_of_getLast?_parts htight hne hlast
  have hpart := Block.tight_of_mem_parts htight hne last (List.mem_of_getLast? hlast)
  rw [codeBrace, Text.getLast?_append_right (by simp)] at hend
  rw [openHeader_of_getLast? hpart.1 (by simpa using hend)] at hwaits
  exact absurd hwaits (by simp)

/-! ## One line after another -/

/-- A brace goes past verbatim lines to a line that waits for it. -/
theorem exists_of_attachBrace? {above out : List Text} (h : attachBrace? above = some out) :
    ∃ near target far, above = near ++ target :: far ∧ out = near ++ joinBrace target :: far ∧
      (∀ line ∈ near, isVerbatim line = true) ∧ isVerbatim target = false ∧
      awaitsBrace target = true := by
  induction above generalizing out with
  | nil => simp [attachBrace?] at h
  | cons line above ih =>
    unfold attachBrace? at h
    split at h
    · next hverbatim =>
      -- the brace goes past this line
      rcases Option.map_eq_some_iff.1 h with ⟨joined, hjoined, rfl⟩
      rcases ih hjoined with ⟨near, target, far, rfl, rfl, hnear, hcode, hwaits⟩
      refine ⟨line :: near, target, far, rfl, rfl, ?_, hcode, hwaits⟩
      intro l hl
      rcases List.mem_cons.1 hl with rfl | hl
      · exact hverbatim
      · exact hnear l hl
    · next hcode =>
      split at h
      · next hwaits =>
        rw [← Option.some.inj h]
        refine ⟨[], line, above, rfl, rfl, by simp, ?_, hwaits⟩
        rwa [← Bool.not_eq_true]
      · simp at h

/-- One more line stands on top, or it is a brace and goes to the line that waits for it. -/
theorem addLine_cases (above : List Text) (line : Text) :
    (addLine above line = line :: above ∧ (line.trim = ['{'] → attachBrace? above = none)) ∨
      line.trim = ['{'] ∧ ∃ near target far, above = near ++ target :: far ∧
        addLine above line = near ++ joinBrace target :: far ∧
        (∀ l ∈ near, isVerbatim l = true) ∧ isVerbatim target = false ∧
        awaitsBrace target = true := by
  unfold addLine
  split
  · next hbrace =>
    cases hattach : attachBrace? above with
    | none => exact .inl ⟨rfl, fun _ => rfl⟩
    | some out =>
      rcases exists_of_attachBrace? hattach with ⟨near, target, far, habove, hout, hrest⟩
      exact .inr ⟨hbrace, near, target, far, habove, hout, hrest⟩
  · next hbrace => exact .inl ⟨rfl, fun h => absurd h hbrace⟩

/-- What holds of no lines and is kept by each line holds of the lines of a text. -/
theorem joinDetached_induction {motive : List Text → List Text → Prop} (lines : List Text)
    (nil : motive [] [])
    (step : ∀ before above line, motive before above →
      motive (before ++ [line]) (addLine above line)) :
    motive lines (joinDetached lines).reverse := by
  rw [joinDetached, List.reverse_reverse]
  -- the induction is on the lines still to come, for any lines read before them
  have hall : ∀ before above, motive before above →
      motive (before ++ lines) (lines.foldl addLine above) := by
    induction lines with
    | nil =>
      intro before above h
      rwa [List.append_nil]
    | cons line lines ih =>
      intro before above h
      have hnext := ih (before ++ [line]) (addLine above line) (step before above line h)
      rwa [List.append_assoc, List.singleton_append] at hnext
  exact hall [] [] nil

/-- Joining keeps what is read of the lines, in its order, if nothing is read of a brace and the
same of a line with its brace joined. -/
theorem flatMap_joinDetached {α : Type} {read : Text → List α}
    (hbrace : ∀ line, line.trim = ['{'] → read line = [])
    (hjoin : ∀ target, isVerbatim target = false → read (joinBrace target) = read target)
    (lines : List Text) : (joinDetached lines).flatMap read = lines.flatMap read := by
  have hall := joinDetached_induction (motive := fun before above =>
    above.reverse.flatMap read = before.flatMap read) lines rfl (by
    intro before above line ih
    rw [List.flatMap_append, List.flatMap_singleton, ← ih]
    obtain ⟨hadd, -⟩ | ⟨honly, near, target, far, rfl, hadd, -, hcode, -⟩ :=
      addLine_cases above line
    · rw [hadd, List.reverse_cons, List.flatMap_append, List.flatMap_singleton]
    · rw [hadd, hbrace line honly, List.append_nil]
      simp [hjoin target hcode])
  rwa [List.reverse_reverse] at hall

theorem joinDetached_concat (lines : List Text) (line : Text) :
    joinDetached (lines ++ [line]) = (addLine (joinDetached lines).reverse line).reverse := by
  rw [joinDetached, joinDetached, List.foldl_append, List.reverse_reverse]
  rfl

/-- A joined line of `lines`: code that waits for a brace, with that brace. -/
def IsJoined (lines : List Text) (line : Text) : Prop :=
  ∃ target ∈ lines, isVerbatim target = false ∧ awaitsBrace target = true ∧
    line = joinBrace target

theorem IsJoined.append {before : List Text} {line : Text} (h : IsJoined before line)
    (after : List Text) : IsJoined (before ++ after) line := by
  rcases h with ⟨target, hmem, hrest⟩
  exact ⟨target, List.mem_append_left _ hmem, hrest⟩

/-- One more line: what stands in the result stood there before, is that line, or is a joined one.
Only the line itself can come to stand on top without a brace. -/
theorem mem_addLine {before above : List Text}
    (h : ∀ l ∈ above, l ∈ before ∨ IsJoined before l) (line : Text) :
    (∀ l ∈ addLine above line, l ∈ before ++ [line] ∨ IsJoined (before ++ [line]) l) ∧
      ∀ l ∈ (addLine above line).tail, l ∈ before ∨ IsJoined (before ++ [line]) l := by
  have hkept : ∀ l ∈ above, l ∈ before ∨ IsJoined (before ++ [line]) l :=
    fun l hl => (h l hl).imp id (·.append [line])
  rcases addLine_cases above line with
    ⟨hadd, -⟩ | ⟨-, near, target, far, rfl, hadd, -, hcode, hwaits⟩
  · rw [hadd]
    refine ⟨?_, hkept⟩
    intro l hl
    rcases List.mem_cons.1 hl with rfl | hl
    · exact .inl (by simp)
    · exact (hkept l hl).imp (List.mem_append_left _) id
  · have hall : ∀ l ∈ addLine (near ++ target :: far) line,
        l ∈ before ∨ IsJoined (before ++ [line]) l := by
      intro l hl
      rw [hadd, List.mem_append, List.mem_cons] at hl
      rcases hl with hl | rfl | hl
      · exact hkept l (by simp [hl])
      · -- a line that has a brace already waits for none, so the target is a line of the text
        rcases h target (by simp) with htarget | ⟨k, -, hk, hkwaits, rfl⟩
        · exact .inr ⟨target, List.mem_append_left _ htarget, hcode, hwaits, rfl⟩
        · rw [awaitsBrace_joinBrace hk hkwaits] at hwaits
          exact absurd hwaits (by simp)
      · exact hkept l (by simp [hl])
    exact ⟨fun l hl => (hall l hl).imp (List.mem_append_left _) id,
      fun l hl => hall l (List.mem_of_mem_tail hl)⟩

/-- The lines of the result are lines of the text, some of them with a brace joined, and only its
last line can be the last line of the text. -/
theorem mem_joinDetached (lines : List Text) :
    (∀ l ∈ joinDetached lines, l ∈ lines ∨ IsJoined lines l) ∧
      ∀ l ∈ (joinDetached lines).dropLast, l ∈ lines.dropLast ∨ IsJoined lines l := by
  have hall := joinDetached_induction (motive := fun before above =>
    (∀ l ∈ above, l ∈ before ∨ IsJoined before l) ∧
      ∀ l ∈ above.tail, l ∈ before.dropLast ∨ IsJoined before l) lines (by simp) (by
    intro before above line ih
    rw [List.dropLast_concat]
    exact mem_addLine ih.1 line)
  simpa only [List.mem_reverse, List.tail_reverse] using hall

/-! ## Braces that stay -/

/-- Whether a brace below a line would be joined, from whether one above it would be. -/
def waitsBelow (waits : Bool) (line : Text) : Bool :=
  if isVerbatim line then waits else awaitsBrace line

theorem isSome_attachBrace? (above : List Text) :
    (attachBrace? above).isSome = above.reverse.foldl waitsBelow false := by
  induction above with
  | nil => rfl
  | cons line above ih =>
    rw [List.reverse_cons, List.foldl_append, ← ih, List.foldl_cons, List.foldl_nil, waitsBelow,
      attachBrace?]
    split
    · rw [Option.isSome_map]
    · split <;> simp [*]

/-- Past verbatim lines a brace is waited for as at the nearest line of code. -/
theorem foldl_waitsBelow_of_near {near : List Text} (hnear : ∀ l ∈ near, isVerbatim l = true)
    {target : Text} (hcode : isVerbatim target = false) (far : List Text) (waits : Bool) :
    (near ++ target :: far).reverse.foldl waitsBelow waits = awaitsBrace target := by
  induction near with
  | nil => simp [waitsBelow, hcode]
  | cons line near ih =>
    rw [List.cons_append, List.reverse_cons, List.foldl_append,
      ih fun l hl => hnear l (List.mem_cons_of_mem _ hl), List.foldl_cons, List.foldl_nil,
      waitsBelow, hnear line List.mem_cons_self, if_pos rfl]

/-- No line that is only a brace has a header above that waits for it; `waits` tells whether one
waits at the top. -/
def Settled (waits : Bool) : List Text → Prop
  | [] => True
  | line :: lines => (line.trim = ['{'] → waits = false) ∧ Settled (waitsBelow waits line) lines

theorem settled_append {waits : Bool} {s t : List Text} :
    Settled waits (s ++ t) ↔ Settled waits s ∧ Settled (s.foldl waitsBelow waits) t := by
  induction s generalizing waits with
  | nil => simp [Settled]
  | cons line s ih => rw [List.cons_append, Settled, Settled, ih, List.foldl_cons, and_assoc]

/-- Verbatim lines hold no brace of their own. -/
theorem settled_of_isVerbatim {lines : List Text} (h : ∀ line ∈ lines, isVerbatim line = true)
    (waits : Bool) : Settled waits lines := by
  induction lines generalizing waits with
  | nil => trivial
  | cons line lines ih =>
    refine ⟨?_, ih (fun l hl => h l (List.mem_cons_of_mem _ hl)) _⟩
    intro hbrace
    have hline := h line List.mem_cons_self
    rw [isVerbatim_of_trim_brace hbrace] at hline
    exact absurd hline (by simp)

theorem settled_addLine {above : List Text} (h : Settled false above.reverse) (line : Text) :
    Settled false (addLine above line).reverse := by
  rcases addLine_cases above line with
    ⟨hadd, hstays⟩ | ⟨-, near, target, far, rfl, hadd, hnear, hcode, -⟩
  · rw [hadd, List.reverse_cons, settled_append]
    refine ⟨h, ?_, trivial⟩
    intro hbrace
    rw [← isSome_attachBrace?, hstays hbrace]
    rfl
  · rw [List.reverse_append, List.reverse_cons, settled_append, settled_append] at h
    rw [hadd, List.reverse_append, List.reverse_cons, settled_append, settled_append]
    -- the joined line is no brace, and the lines below it are verbatim
    refine ⟨⟨h.1.1, ?_, trivial⟩, ?_⟩
    · intro hbrace
      exact absurd hbrace (trim_joinBrace_ne hcode)
    · apply settled_of_isVerbatim
      intro l hl
      exact hnear l (List.mem_reverse.1 hl)

/-- After joining, every brace that stands alone stays. -/
theorem settled_joinDetached (lines : List Text) : Settled false (joinDetached lines) := by
  have h := joinDetached_induction (motive := fun _ above => Settled false above.reverse) lines
    trivial (fun _ _ line h => settled_addLine h line)
  rwa [List.reverse_reverse] at h

/-- Where every brace stays, joining changes nothing. -/
theorem joinDetached_of_settled {lines : List Text} (h : Settled false lines) :
    joinDetached lines = lines := by
  -- the induction is on the lines still to come; those above make up a settled text with them
  have hall : ∀ above rest : List Text, Settled false (above.reverse ++ rest) →
      rest.foldl addLine above = rest.reverse ++ above := by
    intro above rest
    induction rest generalizing above with
    | nil =>
      intro _
      rfl
    | cons line rest ih =>
      intro hs
      have hstays : addLine above line = line :: above := by
        rw [settled_append] at hs
        rcases addLine_cases above line with ⟨hadd, -⟩ | ⟨hbrace, near, target, far, -⟩
        · exact hadd
        · have hnone := hs.2.1 hbrace
          rw [← isSome_attachBrace?, Option.isSome_eq_false_iff, Option.isNone_iff_eq_none] at hnone
          simp [addLine, hbrace, hnone]
      rw [List.foldl_cons, hstays, ih (line :: above) (by simpa using hs)]
      simp
  rw [joinDetached, hall [] lines h, List.append_nil, List.reverse_reverse]

end YapAssist.Layout
