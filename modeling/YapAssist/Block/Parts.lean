import YapAssist.Block.Spacing

/-!
# Parts of a line

A header whose body starts on its own line is cut apart: `if (x) { y(); }` becomes `if (x) {`,
`y();` and `}`. The body is cut in the same way, so nested headers come apart as well.

* `InlineBody.of?`, the header and the body of a line;
* `Block.parts`, a line of code as the lines it is laid out as;
* `Block.bodyParts`, the same without touching the spacing of the line itself.

The recursion ends because a body has fewer visible characters than its line, whatever blanks the
spacing put in (`InlineBody.length_ink_lt`).
-/

namespace YapAssist

/-- A header and the code that follows its brace on the same line. -/
structure InlineBody where
  /-- The header up to and including its brace, as it stands in the line. -/
  header : Text
  /-- The code behind the brace, trimmed, without the brace that closes it. -/
  body : Text
  /-- Whether the line ends with the closing brace. -/
  closed : Bool
  deriving DecidableEq, Repr

namespace InlineBody

/-- The inline body of a line that begins with a header. -/
def of? (line : Text) : Option InlineBody :=
  match Header.read? line with
  | none => none
  | some (_, after) =>
    let header := line.take (line.length - after.length)
    let rest := after.trim
    if rest.isEmpty then none
    else
      match Text.before? ['}'] rest with
      | some inner => some ⟨header, inner.trim, true⟩
      | none => some ⟨header, rest, false⟩

theorem ink_of_before? {t inner : Text} (h : Text.before? ['}'] t = some inner) :
    t.ink = inner.ink ++ ['}'] := by
  obtain ⟨rest, hr, rfl⟩ := Option.map_eq_some_iff.1 h
  rw [Text.after?_eq_some_iff] at hr
  have same := congrArg Text.ink hr
  rw [Text.ink_reverse, Text.ink_append,
    show Text.ink (List.reverse ['}']) = ['}'] by decide] at same
  rw [Text.ink_reverse, ← List.reverse_inj, same]
  simp

/-- A body has fewer visible characters than its line. -/
theorem length_ink_lt {line : Text} {b : InlineBody} (h : of? line = some b) :
    b.body.ink.length < line.ink.length := by
  rw [of?] at h
  split at h
  · simp at h
  · next header after found =>
    have visible : 0 < header.write.ink.length :=
      List.length_pos_iff.2 (Header.ink_write_ne_nil header)
    have size : line.ink.length = header.write.ink.length + after.ink.length := by
      rw [Header.ink_of_read? found, List.length_append]
    simp only at h
    split at h
    · simp at h
    · split at h
      · next inner closed =>
        have shorter := congrArg List.length (ink_of_before? closed)
        rw [Text.ink_trim, List.length_append] at shorter
        obtain rfl := Option.some.inj h
        simp only [Text.ink_trim]
        omega
      · obtain rfl := Option.some.inj h
        simp only [Text.ink_trim]
        omega

end InlineBody

namespace Block

/-- The inline body of a spaced line, with the brace that closes the block before it as a part of
its own. -/
def inline? (line : Text) : Option (List Text × InlineBody) :=
  match Text.after? ['}'] line with
  | some rest => (InlineBody.of? rest.trimStart).map fun b => ([['}']], b)
  | none => (InlineBody.of? line).map fun b => ([], b)

theorem length_ink_lt_of_inline? {line : Text} {lead : List Text} {b : InlineBody}
    (h : inline? line = some (lead, b)) : b.body.ink.length < line.ink.length := by
  rw [inline?] at h
  split at h
  · next rest found =>
    rw [Text.after?_eq_some_iff] at found
    obtain ⟨b', hb, he⟩ := Option.map_eq_some_iff.1 h
    obtain ⟨-, rfl⟩ := Prod.mk.inj he
    have lt := InlineBody.length_ink_lt hb
    rw [Text.ink_trimStart] at lt
    rw [found, List.singleton_append, Text.ink_cons, if_neg (by decide)]
    exact Nat.lt_succ_of_lt lt
  · obtain ⟨b', hb, he⟩ := Option.map_eq_some_iff.1 h
    obtain ⟨-, rfl⟩ := Prod.mk.inj he
    exact InlineBody.length_ink_lt hb

/-- The parts that a line of code is laid out as: its header, the parts of its body and the brace
that closes it, or the line itself, spaced. -/
def parts (line : Text) : List Text :=
  if Line.isImport line then [line]
  else
    match _h : inline? (respace line) with
    | none => [respace line]
    | some (lead, b) =>
      lead ++ b.header :: ((if b.body.isEmpty then [] else parts b.body) ++
        if b.closed then [['}']] else [])
termination_by line.ink.length
decreasing_by
  rw [← ink_respace line]
  exact length_ink_lt_of_inline? _h

/-- The parts of a line that is already spaced: its header and what the body is laid out as. -/
def bodyParts (line : Text) : List Text :=
  match InlineBody.of? line with
  | none => [line]
  | some b =>
    b.header :: ((if b.body.isEmpty then [] else parts b.body) ++
      if b.closed then [['}']] else [])

end Block

end YapAssist
