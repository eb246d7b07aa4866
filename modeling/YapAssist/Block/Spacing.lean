import YapAssist.Block.Header
import YapAssist.Line.Kind
import YapAssist.Line.Literal

/-!
# Spacing of headers

A line that begins with a header is written with the header's own spacing, also behind the brace
that closes the block before it. Everything after the header's brace, and every other line, stays
as it is; import lines are never touched.

Main statement: `ink_respace`, spacing changes blanks only.
-/

namespace YapAssist

/-- What stands behind a closing brace, with a header or a lone `else` one blank away from it. The
brace of a lone `else` may follow on a later line. -/
def respaceBehindBrace (rest : Text) : Text :=
  match Header.read? rest.trimStart with
  | some (header, body) => if header.mayFollowBrace then ' ' :: header.write ++ body else rest
  | none =>
    match afterWord? ['e', 'l', 's', 'e'] rest.trimStart with
    | some after => [' ', 'e', 'l', 's', 'e'] ++ after
    | none => rest

/-- A line with its header, if it begins with one, in the spacing of `Header.write`. -/
def respace (line : Text) : Text :=
  if Line.isImport line then line
  else
    match Text.after? ['}'] line with
    | some rest => '}' :: respaceBehindBrace rest
    | none =>
      match Header.read? line with
      | some (header, body) => header.write ++ body
      | none => line

theorem afterWord?_eq_some_iff {word text rest : Text} :
    afterWord? word text = some rest ↔ text = word ++ rest ∧ endsWord rest = true := by
  rw [afterWord?, Option.filter_eq_some_iff, Text.after?_eq_some_iff]

theorem ink_respaceBehindBrace (rest : Text) : (respaceBehindBrace rest).ink = rest.ink := by
  rw [respaceBehindBrace]
  split
  · next header body found =>
    split
    · rw [List.cons_append, Text.ink_cons, if_pos (by decide), Text.ink_append,
        ← Header.ink_of_read? found, Text.ink_trimStart]
    · rfl
  · split
    · next after found =>
      have same := congrArg Text.ink (afterWord?_eq_some_iff.1 found).1
      rw [Text.ink_trimStart, Text.ink_append] at same
      rw [Text.ink_append, same,
        show Text.ink [' ', 'e', 'l', 's', 'e'] = Text.ink ['e', 'l', 's', 'e'] by decide +kernel]
    · rfl

/-- Spacing changes blanks only. -/
theorem ink_respace (line : Text) : (respace line).ink = line.ink := by
  rw [respace]
  split
  · rfl
  · split
    · next rest found =>
      rw [Text.after?_eq_some_iff] at found
      rw [found, List.singleton_append, Text.ink_cons, Text.ink_cons, ink_respaceBehindBrace]
    · split
      · next found => rw [Text.ink_append, Header.ink_of_read? found]
      · rfl

/-- A header line joined with the opening brace that stood on a later line. A trailing comment
stays behind the brace. -/
def joinBrace (line : Text) : Text :=
  let parts := Line.split line.trim
  Line.attach (respace (parts.code ++ [' ', '{'])) parts.comment

end YapAssist
