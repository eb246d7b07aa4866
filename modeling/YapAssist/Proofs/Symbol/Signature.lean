import Mathlib.Data.List.Forall2
import Mathlib.Data.List.TakeWhile
import YapAssist.Proofs.Symbol.Occurrence
import YapAssist.Symbol.Documentation

/-!
# The signature in the documentation

The documentation of a function begins with three lines, its signature in a fence. Declarations are
looked for in the code of a line, but the parameters of the signature are read from the whole line,
up to the next closing parenthesis. So the signature says nothing of the comments in a text, unless
the parameter list is still open where the comment of its line begins:

* `Documentation.parameterList?_spelling`, what is read of a declaration;
* `Documentation.take_lines_describe_eq_iff`, the signature is settled by the parameters;
* `Documentation.parameters_of_closed`, a list that is closed before the comment of its line, and
  `Documentation.exists_rewritten_of_open`, one that is not;
* `Documentation.signature_settled_iff`, two texts that differ in their comments only.
-/

namespace YapAssist

open Line

namespace Text

theorem isSuffix_of_after? {lead t rest : Text} (h : after? lead t = some rest) : rest <:+ t :=
  ⟨lead, (after?_eq_some_iff.1 h).symm⟩

/-- One line of a text can be replaced by any line that a line feed does not spoil. -/
theorem exists_forall₂_lines {R : Text → Text → Prop} (hrefl : ∀ line, R line line)
    {text line new : Text} {index : Nat} (hline : text.lines[index]? = some line)
    (hne : new ≠ []) (hfeed : '\n' ∉ new) (hreturn : new.getLast? ≠ some '\r') (h : R line new) :
    ∃ other : Text, List.Forall₂ R text.lines other.lines ∧ other.lines[index]? = some new := by
  induction text using lines_induction generalizing index with
  | open_ s hs =>
    rw [lines_of_not_mem hs] at hline ⊢
    split at hline
    · simp at hline
    · next hs' =>
      obtain ⟨hindex, rfl⟩ := List.getElem?_eq_some_iff.1 hline
      obtain rfl : index = 0 := by simpa using hindex
      refine ⟨new, ?_, ?_⟩ <;> rw [lines_of_not_mem hfeed, if_neg hne]
      · rw [if_neg hs']
        exact .cons h .nil
      · rfl
  | line s t hs ih =>
    rw [lines_append_feed hs] at hline ⊢
    cases index with
    | zero =>
      obtain rfl : withoutTerminator (s ++ ['\n']) = line := by simpa using hline
      refine ⟨new ++ '\n' :: t, ?_, ?_⟩ <;>
        rw [lines_append_feed hfeed, withoutTerminator_feed hreturn]
      · exact .cons h (List.forall₂_same.2 fun line _ => hrefl line)
      · rfl
    | succ index =>
      obtain ⟨other, hall, hother⟩ := ih hline
      refine ⟨s ++ '\n' :: other, ?_, ?_⟩ <;> rw [lines_append_feed hs]
      · exact .cons (hrefl _) hall
      · exact hother

end Text

/-! ## Texts that differ in their comments -/

/-- Two lines that differ at most behind the `//` of the comment that `split` takes off the first
one, unless that is nothing but a comment. -/
def Line.SameCode (line other : Text) : Prop :=
  line = other ∨ isComment line = false ∧ ∃ front tail tail' : Text,
    line = front ++ '/' :: '/' :: tail ∧
    split line = ⟨front.trimEnd, Text.trimEnd ('/' :: '/' :: tail)⟩ ∧
    other = front ++ '/' :: '/' :: tail'

/-- Two texts that differ at most in what their comments at the end of lines say. -/
def CommentsRewritten (text other : Text) : Prop :=
  List.Forall₂ SameCode text.lines other.lines

theorem CommentsRewritten.exists_line {text other line : Text} {index : Nat}
    (h : CommentsRewritten text other) (hline : text.lines[index]? = some line) :
    ∃ line', other.lines[index]? = some line' ∧ SameCode line line' := by
  obtain ⟨hindex, rfl⟩ := List.getElem?_eq_some_iff.1 hline
  have hindex' : index < other.lines.length := h.length_eq ▸ hindex
  exact ⟨other.lines[index], List.getElem?_eq_getElem hindex', List.Forall₂.get h hindex hindex'⟩

/-- Between the code of a line and its comment is a gap. -/
theorem Line.exists_gap_front {line front comment : Text}
    (h : split line = ⟨front.trimEnd, comment⟩) :
    ∃ gap : Text, gap.Gap ∧ front = (split line).code ++ gap := by
  obtain ⟨gap, hgap, hfront⟩ := Text.exists_gap_trimEnd front
  exact ⟨gap, hgap, by rwa [h]⟩

namespace Declaration

/-- The parameter list of the declaration at a column of a line of code is opened and not closed. -/
def ListOpen (name code : Text) (column : Nat) : Prop :=
  ∃ before lead gap gap' inside : Text,
    code = before ++ (spelling lead gap name ++ (gap' ++ '(' :: inside)) ∧ before.length = column ∧
    IsLead lead ∧ gap ≠ [] ∧ gap.Gap ∧ gap'.Gap ∧ ')' ∉ inside

/-- Code with an open list at its end does not end with a closing parenthesis. -/
theorem ListOpen.getLast?_ne {name code : Text} {column : Nat} (h : ListOpen name code column) :
    code.getLast? ≠ some ')' := by
  obtain ⟨before, lead, gap, gap', inside, rfl, -, -, -, -, -, hinside⟩ := h
  intro hlast
  rw [← List.append_assoc, ← List.append_assoc, Text.getLast?_append_right (by simp)] at hlast
  obtain hparen | hmem := List.mem_cons.1 (List.mem_of_getLast? hlast)
  · exact absurd hparen (by decide)
  · exact hinside hmem

end Declaration

namespace Documentation

open Declaration

/-! ## What is read of a declaration -/

/-- The parameters that are read behind a name, up to a closing parenthesis. -/
def parametersBehind (rest : Text) : Text :=
  match Text.after? ['('] rest.trimStart with
  | some inside => Text.joinWith [',', ' '] (Text.listItems (inside.takeWhile (· != ')')))
  | none => []

/-- The word `export` and the gap behind it are passed over. -/
theorem getD_afterWordGap?_spelling {lead : Text} (hlead : IsLead lead) (gap name rest : Text) :
    (afterWordGap? ['e', 'x', 'p', 'o', 'r', 't'] (spelling lead gap name ++ rest)).getD
      (spelling lead gap name ++ rest) = ['f', 'n'] ++ (gap ++ (name ++ rest)) := by
  obtain rfl | ⟨first, hne, hgap, rfl⟩ := hlead
  · simp [spelling, afterWordGap?, Text.after?]
  · have hvisible : ∀ c ∈ (['f', 'n'] ++ (gap ++ (name ++ rest))).head?, isBlank c = false := by
      rintro c ⟨⟩
      decide
    have hread := afterWordGap?_eq hne hgap hvisible ['e', 'x', 'p', 'o', 'r', 't']
    simp only [spelling, List.append_assoc] at hread ⊢
    rw [hread, Option.getD_some]

section
variable {name : Text} (hname : isIdentifier name = true)
include hname

/-- A name does not begin with a blank. -/
theorem after?_gap_append {gap : Text} (hne : gap ≠ []) (hgap : gap.Gap) (rest : Text) :
    Text.after? name (gap ++ rest) = none := by
  obtain ⟨b, gap, rfl⟩ := List.exists_cons_of_ne_nil hne
  obtain ⟨c, more, rfl⟩ := List.exists_cons_of_ne_nil (isIdentifier_chars hname).1
  have hc : c ≠ b := by
    intro he
    have hvisible := isBlank_eq_false_of_isWord (isWord_of_mem_name hname c List.mem_cons_self)
    rw [he, hgap b List.mem_cons_self] at hvisible
    exact absurd hvisible (by simp)
  rw [List.cons_append, Text.after?, if_neg hc]

theorem takeWhile_isBlank_gap {gap : Text} (hgap : gap.Gap) (rest : Text) :
    (gap ++ (name ++ rest)).takeWhile isBlank = gap := by
  obtain ⟨c, more, rfl⟩ := List.exists_cons_of_ne_nil (isIdentifier_chars hname).1
  have hvisible := isBlank_eq_false_of_isWord (isWord_of_mem_name hname c List.mem_cons_self)
  rw [List.takeWhile_append_of_pos hgap, List.cons_append,
    List.takeWhile_cons_of_neg (by simp [hvisible]), List.append_nil]

/-- What is read of a declaration stands behind its name. -/
theorem parameterList?_spelling {lead gap : Text} (hlead : IsLead lead) (hne : gap ≠ [])
    (hgap : gap.Gap) (rest : Text) :
    parameterList? name (spelling lead gap name ++ rest) =
      (Text.after? ['('] rest.trimStart).map fun inside => inside.takeWhile (· != ')') := by
  have hfn : Text.after? ['f', 'n'] (['f', 'n'] ++ (gap ++ (name ++ rest))) =
      some (gap ++ (name ++ rest)) := Text.after?_eq_some_iff.2 rfl
  have hhere : Text.after? name (name ++ rest) = some rest := Text.after?_eq_some_iff.2 rfl
  obtain ⟨n, hn⟩ : ∃ n, gap.length = n + 1 :=
    Nat.exists_eq_succ_of_ne_zero (by simpa using hne)
  unfold parameterList?
  rw [getD_afterWordGap?_spelling hlead]
  dsimp only
  rw [hfn, Option.bind_some, takeWhile_isBlank_gap hname hgap, hn, List.range_succ_eq_map,
    List.findSome?_cons, Nat.sub_zero, ← hn, List.drop_left, hhere, Option.bind_some]
  -- where blanks are left before the name nothing is read
  have hnone : ((List.range n).map Nat.succ).findSome? (fun kept =>
      ((Text.after? name ((gap ++ (name ++ rest)).drop (gap.length - kept))).bind fun rest =>
        Text.after? ['('] rest.trimStart).map fun inside => inside.takeWhile (· != ')')) =
        none := by
    rw [List.findSome?_eq_none_iff]
    intro kept hkept
    obtain ⟨k, hk, rfl⟩ := List.mem_map.1 hkept
    rw [List.mem_range] at hk
    have hleft : gap.drop (gap.length - (k + 1)) ≠ [] := by
      rw [Ne, List.drop_eq_nil_iff]
      omega
    rw [List.drop_append_of_le_length (by omega),
      after?_gap_append hname hleft fun c hc => hgap c (List.mem_of_mem_drop hc)]
    rfl
  rw [hnone]
  cases Text.after? ['('] rest.trimStart <;> rfl

/-- The parameters of a declaration are those behind its name. -/
theorem parameters_of_spelling {text before lead gap rest : Text} {p : Position}
    (hline : text.lines[p.line]? = some (before ++ (spelling lead gap name ++ rest)))
    (hcolumn : before.length = p.character) (hlead : IsLead lead) (hne : gap ≠ [])
    (hgap : gap.Gap) : parameters text name p = parametersBehind rest := by
  have hlt : p.character < (before ++ (spelling lead gap name ++ rest)).length := by
    rw [← hcolumn, spelling]
    simp only [List.length_append, List.length_cons]
    omega
  unfold parameters
  dsimp only
  rw [hline, Option.bind_some, if_pos hlt, ← hcolumn, List.drop_left,
    parameterList?_spelling hname hlead hne hgap, parametersBehind]
  cases Text.after? ['('] rest.trimStart <;> rfl

end

/-! ## The parameters behind a name -/

theorem parametersBehind_paren {gap : Text} (hgap : gap.Gap) (inside : Text) :
    parametersBehind (gap ++ '(' :: inside) =
      Text.joinWith [',', ' '] (Text.listItems (inside.takeWhile (· != ')'))) := by
  rw [parametersBehind, hgap.trimStart_append, Text.trimStart_cons_of_not_blank (by decide)]
  rfl

theorem parametersBehind_eq_nil {rest : Text} (h : rest.trimStart.head? ≠ some '(') :
    parametersBehind rest = [] := by
  have hnone : Text.after? ['('] rest.trimStart = none := by
    rw [Option.eq_none_iff_forall_ne_some]
    intro inside hinside
    rw [Text.after?_eq_some_iff] at hinside
    exact h (by rw [hinside]; rfl)
  rw [parametersBehind, hnone]

/-- A list that is closed before a comment, or not opened, is not touched by the comment. -/
theorem parametersBehind_settled {after gap : Text} (hgap : gap.Gap)
    (h : ∀ gap' inside : Text, gap'.Gap → after = gap' ++ '(' :: inside → ')' ∈ inside)
    (tail : Text) :
    parametersBehind (after ++ (gap ++ '/' :: '/' :: tail)) = parametersBehind after := by
  obtain ⟨gap', hgap', hafter⟩ := Text.exists_gap_trimStart after
  cases hvisible : after.trimStart with
  | nil =>
    -- nothing but blanks stands between the name and the comment
    rw [hvisible, List.append_nil] at hafter
    rw [parametersBehind_eq_nil, parametersBehind_eq_nil (by simp [hvisible])]
    rw [hafter, hgap'.trimStart_append, hgap.trimStart_append,
      Text.trimStart_cons_of_not_blank (by decide)]
    simp
  | cons c more =>
    rw [hvisible] at hafter
    by_cases hc : c = '('
    · rw [hc] at hafter
      obtain ⟨inside, behind, rfl, hinside⟩ :=
        List.eq_append_cons_of_mem (h gap' more hgap' hafter)
      rw [hafter, List.append_assoc, List.cons_append, parametersBehind_paren hgap',
        parametersBehind_paren hgap', List.append_assoc, List.cons_append,
        Text.takeWhile_append_mark hinside, Text.takeWhile_append_mark hinside]
    · have hblank : isBlank c = false :=
        Text.head?_trimStart_not_blank after c (by rw [hvisible]; rfl)
      rw [parametersBehind_eq_nil, parametersBehind_eq_nil]
      · simpa [hvisible] using hc
      · rw [hafter, List.append_assoc, hgap'.trimStart_append, List.cons_append,
          Text.trimStart_cons_of_not_blank hblank]
        simpa using hc

/-- What a list ends with is its last parameter, where it is not closed. -/
theorem getLast?_parametersBehind_open {gap list : Text} (hgap : gap.Gap) (hlist : ')' ∉ list)
    {c : Char} (hc : isNameChar c = true) :
    (parametersBehind (gap ++ '(' :: (list ++ [',', c]))).getLast? = some c := by
  have hne : ∀ d : Char, isNameChar d = false → d ≠ c := by
    intro d hd he
    rw [he, hc] at hd
    exact absurd hd (by simp)
  have hopen : ')' ∉ list ++ [',', c] := by
    simpa [hlist] using hne ')' (by decide)
  have hitem : Text.listItems [c] = [[c]] := by
    have hmark : ',' ∉ [c] := by simpa using hne ',' (by decide)
    have hblank := isBlank_eq_false_of_isWord (isWord_of_isNameChar hc)
    rw [Text.listItems, Text.cutAtEach_of_not_mem hmark, List.map_singleton,
      (Text.tight_singleton hblank).trim]
    rfl
  rw [parametersBehind_paren hgap, List.takeWhile_eq_self_iff.2 (Text.bne_of_not_mem hopen),
    Text.listItems_append_mark, hitem]
  obtain ⟨front, hfront⟩ := Text.exists_joinWith_concat [',', ' '] (Text.listItems list) [c]
  rw [hfront, List.getLast?_concat]

/-! ## The signature -/

/-- Nothing is read that does not stand in the text. -/
theorem mem_of_parameterList? {name text list : Text} (h : parameterList? name text = some list)
    {c : Char} (hc : c ∈ list) : c ∈ text := by
  have hexport : (afterWordGap? ['e', 'x', 'p', 'o', 'r', 't'] text).getD text <:+ text := by
    cases hword : afterWordGap? ['e', 'x', 'p', 'o', 'r', 't'] text with
    | none => exact List.suffix_refl text
    | some rest =>
      obtain ⟨gap, -, -, hcut⟩ := exists_gap_of_afterWordGap? hword
      exact ⟨_ ++ gap, by rw [hcut, List.append_assoc]; rfl⟩
  unfold parameterList? at h
  obtain ⟨rest, hrest, h⟩ := Option.bind_eq_some_iff.1 h
  obtain ⟨kept, -, h⟩ := List.exists_of_findSome?_eq_some h
  obtain ⟨inside, hread, rfl⟩ := Option.map_eq_some_iff.1 h
  obtain ⟨behind, hbehind, hinside⟩ := Option.bind_eq_some_iff.1 hread
  -- every reader leaves an end of what it was given
  have hsuffix : inside <:+ text :=
    (Text.isSuffix_of_after? hinside).trans <| (List.dropWhile_suffix isBlank).trans <|
      (Text.isSuffix_of_after? hbehind).trans <| (List.drop_suffix _ _).trans <|
        (Text.isSuffix_of_after? hrest).trans hexport
  exact hsuffix.subset ((List.takeWhile_prefix _).subset hc)

/-- Parameters are read from a single line, so they hold no line feed. -/
theorem feed_not_mem_parameters (text name : Text) (p : Position) :
    '\n' ∉ parameters text name p := by
  intro hmem
  unfold parameters at hmem
  dsimp only at hmem
  split at hmem
  · next list hlist =>
    obtain ⟨line, hline, hlist⟩ := Option.bind_eq_some_iff.1 hlist
    split at hlist
    · obtain hglue | ⟨item, hitem, hmem⟩ := Text.mem_of_mem_joinWith hmem
      · exact absurd hglue (by decide)
      · have hread := mem_of_parameterList? hlist (Text.mem_of_mem_listItems hitem hmem)
        exact Text.feed_not_mem_of_mem_lines (List.mem_of_getElem? hline)
          (List.mem_of_mem_drop hread)
    · simp at hlist
  · simp at hmem

/-- The line of a documentation that shows the name of a function and its parameters. -/
def signature (name parameters : Text) : Text :=
  "fn ".toList ++ (name ++ '(' :: (parameters ++ [')']))

theorem feed_not_mem_signature {name parameters : Text} (hname : '\n' ∉ name)
    (hparameters : '\n' ∉ parameters) : '\n' ∉ signature name parameters := by
  simp [signature, hname, hparameters]

theorem getLast?_signature (name parameters : Text) :
    (signature name parameters).getLast? = some ')' := by
  rw [signature, ← List.cons_append, ← List.append_assoc, ← List.append_assoc,
    List.getLast?_concat]

/-- Behind the fence of a documentation nothing follows, or further lines. -/
theorem render_eq (name parameters : Text) (comment : List Text) :
    ∃ below : Text, (below = [] ∨ ∃ more, below = '\n' :: more) ∧
      render name parameters comment = "```yap".toList ++ '\n' ::
        (signature name parameters ++ '\n' :: ("```".toList ++ below)) := by
  unfold render signature
  split
  · exact ⟨[], .inl rfl, by simp⟩
  · exact ⟨_, .inr ⟨_, rfl⟩, by simp; rfl⟩

/-- The first three lines of a documentation are the fence and the signature in it. -/
theorem take_lines_render {name parameters : Text} (hname : '\n' ∉ name)
    (hparameters : '\n' ∉ parameters) (comment : List Text) :
    (render name parameters comment).lines.take 3 =
      ["```yap".toList, signature name parameters, "```".toList] := by
  have hfence : '\n' ∉ "```yap".toList ∧ '\n' ∉ "```".toList := by decide
  obtain ⟨below, hbelow, hcut⟩ := render_eq name parameters comment
  have hrest : (Text.lines ("```".toList ++ below)).take 1 = ["```".toList] := by
    obtain rfl | ⟨more, rfl⟩ := hbelow
    · decide
    · rw [Text.lines_append_feed hfence.2, Text.withoutTerminator_feed (by decide)]
      rfl
  rw [hcut, Text.lines_append_feed hfence.1,
    Text.lines_append_feed (feed_not_mem_signature hname hparameters),
    Text.withoutTerminator_feed (by decide),
    Text.withoutTerminator_feed (by rw [getLast?_signature]; decide),
    List.take_succ_cons, List.take_succ_cons, hrest]

/-- Two documentations of a name have the same signature when they have the same parameters. -/
theorem take_lines_describe_eq_iff {name : Text} (hname : '\n' ∉ name) (text other : Text)
    (p : Position) :
    (describe other name p).lines.take 3 = (describe text name p).lines.take 3 ↔
      parameters other name p = parameters text name p := by
  rw [describe, describe, take_lines_render hname (feed_not_mem_parameters text name p),
    take_lines_render hname (feed_not_mem_parameters other name p)]
  simp [signature]

/-! ## Comments and the signature -/

section
variable {text name : Text} {p : Position} (hname : isIdentifier name = true)
include hname

/-- Comments do not matter where the parameter list is closed before the comment of its line. -/
theorem parameters_of_closed {other : Text} (hoccurs : OccursAt text name p)
    (hclosed : ∀ line, text.lines[p.line]? = some line → (split line).comment ≠ [] →
      ¬ ListOpen name (split line).code p.character)
    (hother : CommentsRewritten text other) : parameters other name p = parameters text name p := by
  obtain ⟨line, hline, before, lead, gap, after, hread, hcolumn⟩ := hoccurs
  have hparameters : ∀ {t rest : Text},
      t.lines[p.line]? = some (before ++ (spelling lead gap name ++ rest)) →
        parameters t name p = parametersBehind rest := fun ht =>
    parameters_of_spelling hname ht hcolumn hread.isLead hread.gap_ne hread.isGap
  obtain ⟨line', hline', rfl | ⟨-, front, tail, tail', hcut, hsplit, rfl⟩⟩ :=
    hother.exists_line hline
  · obtain ⟨more, hmore⟩ := code_isPrefix line
    rw [← hmore, hread.code_eq, List.append_assoc, List.append_assoc] at hline hline'
    rw [hparameters hline, hparameters hline']
  · have hcomment : (split line).comment ≠ [] := by
      obtain ⟨rest, hrest⟩ := exists_comment_trimEnd tail
      rw [hsplit, hrest]
      simp
    have hlist : ∀ gap' inside : Text, gap'.Gap → after = gap' ++ '(' :: inside →
        ')' ∈ inside := by
      intro gap' inside hgap' hafter
      by_contra hinside
      exact hclosed line hline hcomment ⟨before, lead, gap, gap', inside,
        by rw [← hafter, hread.code_eq], hcolumn, hread.isLead, hread.gap_ne, hread.isGap, hgap',
        hinside⟩
    obtain ⟨space, hspace, hfront⟩ := exists_gap_front hsplit
    rw [hread.code_eq, List.append_assoc, List.append_assoc] at hfront
    rw [hcut, hfront] at hline
    rw [hfront] at hline'
    simp only [List.append_assoc] at hline hline'
    rw [hparameters hline, hparameters hline', parametersBehind_settled hspace hlist,
      parametersBehind_settled hspace hlist]

/-- Where the list is open, comments can be written that show in the parameters. -/
theorem exists_rewritten_of_open {line : Text} (hline : text.lines[p.line]? = some line)
    (hdeclares : isComment line = false) (hcomment : (split line).comment ≠ [])
    (hopen : ListOpen name (split line).code p.character) {c : Char} (hc : isNameChar c = true) :
    ∃ other, CommentsRewritten text other ∧ (parameters other name p).getLast? = some c := by
  obtain ⟨before, lead, gap, gap', inside, hcode, hcolumn, hlead, hne, hgap, hgap', hinside⟩ :=
    hopen
  obtain ⟨-, hsplit⟩ | ⟨front, tail, hcut, -, -, hsplit⟩ := split_cases line
  · rw [hsplit] at hcomment
    exact absurd rfl hcomment
  · have hvisible : c ≠ '\n' ∧ c ≠ '\r' := by
      constructor <;> intro he <;> rw [he] at hc <;> exact absurd hc (by decide)
    have hfeed : '\n' ∉ front := by
      intro hmem
      apply Text.feed_not_mem_of_mem_lines (List.mem_of_getElem? hline)
      simp [hcut, hmem]
    have hsame : SameCode line (front ++ '/' :: '/' :: [',', c]) :=
      .inr ⟨hdeclares, front, tail, [',', c], hcut, hsplit, rfl⟩
    obtain ⟨other, hall, hother⟩ := Text.exists_forall₂_lines (fun _ => .inl rfl) hline (by simp)
      (by simp [hfeed, hvisible.1.symm]) (by simp [hvisible.2]) hsame
    obtain ⟨space, hspace, hfront⟩ := exists_gap_front hsplit
    have hnew : front ++ '/' :: '/' :: [',', c] = before ++ (spelling lead gap name ++
        (gap' ++ '(' :: ((inside ++ (space ++ ['/', '/'])) ++ [',', c]))) := by
      rw [hfront, hcode]
      simp
    rw [hnew] at hother
    refine ⟨other, hall, ?_⟩
    rw [parameters_of_spelling hname hother hcolumn hlead hne hgap]
    apply getLast?_parametersBehind_open hgap' _ hc
    simp [hinside, hspace.not_mem (show isBlank ')' = false by decide)]

end

theorem isIdentifier_of_find? {text name : Text} {p : Position} (h : find? text name = some p) :
    isIdentifier name = true := by
  unfold find? at h
  split at h
  · next hname => exact hname
  · simp at h

/-- **Comments and the signature.** The signature of a declaration that is found does not depend on
what the comments at the end of lines say, exactly when the parameter list is not open where the
comment of its line begins. -/
theorem signature_settled_iff {text name : Text} {p : Position} (h : find? text name = some p) :
    (∀ other, CommentsRewritten text other →
      (describe other name p).lines.take 3 = (describe text name p).lines.take 3) ↔
    ∀ line, text.lines[p.line]? = some line → (split line).comment ≠ [] →
      ¬ ListOpen name (split line).code p.character := by
  have hname := isIdentifier_of_find? h
  have hfeed : '\n' ∉ name := not_mem_of_isIdentifier hname (by decide)
  have hoccurs := (least_of_find?_eq_some hname h).1
  simp only [take_lines_describe_eq_iff hfeed]
  constructor
  · intro hsettled line hline hcomment hopen
    have hdeclares : isComment line = false := by
      obtain ⟨found, hfound, hin⟩ := hoccurs
      rw [hline, Option.some.injEq] at hfound
      rw [← Bool.not_eq_true]
      intro hcomment
      rw [← hfound] at hin
      exact not_occursIn_gap (gap_code_of_isComment hcomment) name _ hin
    -- two comments that show in the parameters, so they cannot both be those of the text
    obtain ⟨one, hone, hlast⟩ :=
      exists_rewritten_of_open hname hline hdeclares hcomment hopen (show isNameChar 'a' by decide)
    obtain ⟨two, htwo, hlast'⟩ :=
      exists_rewritten_of_open hname hline hdeclares hcomment hopen (show isNameChar 'b' by decide)
    rw [hsettled one hone] at hlast
    rw [hsettled two htwo, hlast] at hlast'
    exact absurd hlast' (by decide)
  · intro hclosed other hother
    exact parameters_of_closed hname hoccurs hclosed hother

/-- The comments behind a closed list, and elsewhere, do not matter, whatever they say. -/
theorem signature_settled_closed_list :
    ∃ text other name : Text, ∃ p : Position,
      text = "x = \"fn f(\" // fn f(\n  export fn f (a,  b) // (c".toList ∧
      other = "x = \"fn f(\" //)\n  export fn f (a,  b) //, d".toList ∧ name = ['f'] ∧
      find? text name = some p ∧ CommentsRewritten text other ∧
      (describe other name p).lines.take 3 = (describe text name p).lines.take 3 ∧
      describe text name p = "```yap\nfn f(a, b)\n```".toList := by
  let text := "x = \"fn f(\" // fn f(\n  export fn f (a,  b) // (c".toList
  let other := "x = \"fn f(\" //)\n  export fn f (a,  b) //, d".toList
  have hlines : Text.lines text =
      ["x = \"fn f(\" // fn f(".toList, "  export fn f (a,  b) // (c".toList] := by decide
  have hlines' : Text.lines other =
      ["x = \"fn f(\" //)".toList, "  export fn f (a,  b) //, d".toList] := by decide
  have hfind : find? text ['f'] = some ⟨1, 2⟩ := by decide
  have hother : CommentsRewritten text other := by
    unfold CommentsRewritten
    rw [hlines, hlines']
    apply List.Forall₂.cons
    · exact .inr ⟨by decide, "x = \"fn f(\" ".toList, " fn f(".toList, [')'], by decide⟩
    apply List.Forall₂.cons
    · exact .inr ⟨by decide, "  export fn f (a,  b) ".toList, " (c".toList, ", d".toList,
        by decide⟩
    exact .nil
  refine ⟨text, other, ['f'], ⟨1, 2⟩, rfl, rfl, rfl, hfind, hother, ?_, by decide⟩
  apply (signature_settled_iff hfind).2 _ other hother
  intro line hline _ hopen
  rw [hlines] at hline
  obtain rfl : "  export fn f (a,  b) // (c".toList = line := Option.some.inj hline
  exact hopen.getLast?_ne (by decide)

/-- A list that is open where the comment begins shows what the comment says. -/
theorem signature_open_list :
    ∃ text other name : Text, ∃ p : Position,
      text = "fn f(a // x".toList ∧ other = "fn f(a // y".toList ∧ name = ['f'] ∧
      find? text name = some p ∧ CommentsRewritten text other ∧
      describe text name p = "```yap\nfn f(a // x)\n```".toList ∧
      (describe other name p).lines.take 3 ≠ (describe text name p).lines.take 3 := by
  have hother : CommentsRewritten "fn f(a // x".toList "fn f(a // y".toList :=
    .cons (.inr ⟨by decide, "fn f(a ".toList, " x".toList, " y".toList, rfl, by decide, rfl⟩) .nil
  exact ⟨_, _, ['f'], ⟨0, 0⟩, rfl, rfl, rfl, by decide, hother, by decide, by decide⟩

end Documentation

end YapAssist
