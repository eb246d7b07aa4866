import Mathlib.Logic.Relation
import YapAssist.Proofs.Block.Parts

/-!
# The recursion of the parts of a line

The parts of a line are those of its header and of its body, and the body is cut apart like a line
of its own. `Block.bodyParts` and `Block.parts` are two functions of one recursion, each written
here as one step that asks a given function for the parts of a body. Answered by `Block.parts` the steps
compute the two functions, and the questions they ask on the way are the nested calls:

* `Block.calls`, the nested calls of one line, and `Block.Within`, the nested calls of any depth;
* `Block.parts_recursion`, a nested call has fewer visible characters than the line, so the
  recursion ends, and it leaves no part empty or blank;
* `Block.parts_fixed`, spacing and cutting change nothing about what they have produced.
-/

namespace YapAssist

open Line

namespace Block

section Steps

variable {m : Type → Type} [Monad m]

/-- A spaced line cut apart, with `call` for the parts of its body. -/
def bodyStep (call : Text → m (List Text)) (line : Text) : m (List Text) :=
  match InlineBody.of? line with
  | none => pure [line]
  | some b =>
    (fun inner => b.header :: (inner ++ closingOf b)) <$>
      if b.body.isEmpty then pure [] else call b.body

/-- A line spaced and cut apart, with `call` for the parts of its body. -/
def lineStep (call : Text → m (List Text)) (line : Text) : m (List Text) :=
  if isImport line then pure [line]
  else
    match Text.after? ['}'] (respace line) with
    | none => bodyStep call (respace line)
    | some rest =>
      (fun found => if 1 < found.length then ['}'] :: found else [respace line]) <$>
        bodyStep call rest.trimStart

end Steps

/-- The parts of a text, with a note of the text they were asked for. -/
def noted (inner : Text) : StateM (List Text) (List Text) := do
  modify (· ++ [inner])
  pure (parts inner)

/-- The texts whose parts are asked for when a line is cut apart, in order. -/
def calls (line : Text) : List Text := ((lineStep noted line).run []).2

/-- The body of an inline body, if it has one to be cut apart. -/
def askedOf (b : InlineBody) : List Text := if b.body.isEmpty then [] else [b.body]

theorem run_bodyStep_of_none {line : Text} (h : InlineBody.of? line = none) (log : List Text) :
    (bodyStep noted line).run log = ([line], log) := by
  rw [bodyStep, h]
  rfl

theorem run_bodyStep_of_some {line : Text} {b : InlineBody} (h : InlineBody.of? line = some b)
    (log : List Text) : (bodyStep noted line).run log =
      (b.header :: (bodyOf b ++ closingOf b), log ++ askedOf b) := by
  simp only [bodyStep, h, bodyOf, askedOf]
  split
  · rw [List.append_nil]
    rfl
  · rfl

/-- The step of a spaced line computes its parts. -/
theorem run_bodyStep (line : Text) (log : List Text) :
    ((bodyStep noted line).run log).1 = bodyParts line := by
  rw [bodyParts]
  cases h : InlineBody.of? line with
  | none => rw [run_bodyStep_of_none h]
  | some b =>
    rw [run_bodyStep_of_some h]
    rfl

/-- Something follows the header of an inline body: its body or the brace that closes it. -/
theorem append_closingOf_ne_nil {line : Text} {b : InlineBody} (h : InlineBody.of? line = some b) :
    bodyOf b ++ closingOf b ≠ [] := by
  obtain ⟨header, after, -, -, hbehind⟩ := InlineBody.exists_of_of? h
  rw [closingOf]
  generalize hc : b.closed = closed at hbehind
  cases hbehind with
  | closed => simp
  | opened _ _ _ hne =>
    rw [bodyOf_of_ne_nil hne]
    simp [parts_ne_nil]

theorem run_lineStep_of_leaf {line : Text}
    (h : isImport line = true ∨ inline? (respace line) = none) (log : List Text) :
    (lineStep noted line).run log = ([respace line], log) := by
  cases hi : isImport line with
  | true =>
    rw [lineStep, if_pos hi, respace_of_isImport hi]
    rfl
  | false =>
    have hnone : inline? (respace line) = none := by simpa [hi] using h
    rw [lineStep, if_neg (by simp [hi])]
    rw [inline?] at hnone
    cases hb : Text.after? ['}'] (respace line) with
    | none =>
      rw [hb] at hnone
      exact run_bodyStep_of_none (Option.map_eq_none_iff.1 hnone) log
    | some rest =>
      rw [hb] at hnone
      simp only [StateT.run_map, run_bodyStep_of_none (Option.map_eq_none_iff.1 hnone)]
      rfl

theorem run_lineStep_of_some {line : Text} {front : List Text} {b : InlineBody}
    (hi : isImport line = false) (h : inline? (respace line) = some (front, b))
    (log : List Text) : (lineStep noted line).run log =
      (front ++ b.header :: (bodyOf b ++ closingOf b), log ++ askedOf b) := by
  rw [lineStep, if_neg (by simp [hi])]
  rw [inline?] at h
  cases hb : Text.after? ['}'] (respace line) with
  | none =>
    rw [hb] at h
    obtain ⟨b', hof, he⟩ := Option.map_eq_some_iff.1 h
    obtain ⟨rfl, rfl⟩ := Prod.mk.inj he
    exact run_bodyStep_of_some hof log
  | some rest =>
    rw [hb] at h
    obtain ⟨b', hof, he⟩ := Option.map_eq_some_iff.1 h
    obtain ⟨rfl, rfl⟩ := Prod.mk.inj he
    have hlength : 1 < (b'.header :: (bodyOf b' ++ closingOf b')).length := by
      have := List.length_pos_iff.2 (append_closingOf_ne_nil hof)
      rw [List.length_cons]
      omega
    simp only [StateT.run_map, run_bodyStep_of_some hof]
    show ((if 1 < _ then _ else _), _) = _
    rw [if_pos hlength]
    rfl

/-- The step of a line computes its parts and notes its nested calls. -/
theorem run_lineStep (line : Text) (log : List Text) :
    (lineStep noted line).run log = (parts line, log ++ calls line) := by
  induction line using parts_induction with
  | leaf line h =>
    rw [calls, run_lineStep_of_leaf h, run_lineStep_of_leaf h, List.append_nil]
  | block line front b hi h _ =>
    rw [calls, run_lineStep_of_some hi h, run_lineStep_of_some hi h, List.nil_append]

/-! ## Nested calls -/

theorem exists_of_mem_calls {line inner : Text} (h : inner ∈ calls line) :
    ∃ front b, inline? (respace line) = some (front, b) ∧ inner = b.body := by
  by_cases hleaf : isImport line = true ∨ inline? (respace line) = none
  · rw [calls, run_lineStep_of_leaf hleaf] at h
    simp at h
  · rw [not_or, Bool.not_eq_true] at hleaf
    obtain ⟨⟨front, b⟩, hb⟩ := Option.ne_none_iff_exists'.1 hleaf.2
    rw [calls, run_lineStep_of_some hleaf.1 hb, List.nil_append, askedOf] at h
    refine ⟨front, b, hb, ?_⟩
    split at h
    · simp at h
    · exact List.mem_singleton.1 h

/-- A nested call has fewer visible characters, whatever blanks spacing put into the line. -/
theorem length_ink_lt_of_mem_calls {line inner : Text} (h : inner ∈ calls line) :
    inner.ink.length < line.ink.length := by
  obtain ⟨front, b, hb, rfl⟩ := exists_of_mem_calls h
  rw [← ink_respace line]
  exact length_ink_lt_of_inline? hb

/-- The nested calls of any depth that are made when a line is cut apart. -/
def Within (line inner : Text) : Prop :=
  Relation.TransGen (fun outer inner => inner ∈ calls outer) line inner

theorem Within.length_ink_lt {line inner : Text} (h : Within line inner) :
    inner.ink.length < line.ink.length := by
  induction h with
  | single h => exact length_ink_lt_of_mem_calls h
  | tail _ h ih => exact Nat.lt_trans (length_ink_lt_of_mem_calls h) ih

theorem acc_calls (line : Text) : Acc (fun inner outer => inner ∈ calls outer) line := by
  have hwf := InvImage.wf (fun t : Text => t.ink.length) Nat.lt_wfRel.wf
  exact Subrelation.accessible length_ink_lt_of_mem_calls (hwf.apply line)

/-- The recursion of the parts of a line, taken one step at a time. Every nested call, however deep,
has fewer visible characters than the line, so the recursion ends. The result is never empty, and
the parts of a trimmed line that is not blank are trimmed and not blank. -/
theorem parts_recursion (line : Text) :
    (lineStep noted line).run [] = (parts line, calls line) ∧
    ((bodyStep noted line).run []).1 = bodyParts line ∧
    (∀ inner, Within line inner → inner.ink.length < line.ink.length) ∧
    Acc (fun inner outer => inner ∈ calls outer) line ∧
    0 < (parts line).length ∧
    (line.trim = line → isBlankLine line = false →
      ∀ part ∈ parts line, part.trim = part ∧ isBlankLine part = false) := by
  refine ⟨run_lineStep line [], run_bodyStep line [], fun _ => Within.length_ink_lt,
    acc_calls line, List.length_pos_iff.2 (parts_ne_nil line), ?_⟩
  intro htrim hblank part hpart
  have htight : line.Tight := htrim ▸ Text.tight_trim line
  have hne : line ≠ [] := by
    rintro rfl
    exact absurd hblank (by decide)
  obtain ⟨hpart, hvisible⟩ := tight_of_mem_parts htight hne part hpart
  refine ⟨hpart.trim, ?_⟩
  rw [isBlankLine, hpart.trim, List.isEmpty_eq_false_iff]
  exact hvisible

/-- In `}else{if(x){y;}}`, which spacing makes longer, a call is nested in a call. -/
theorem parts_recursion_nested :
    ∃ line inner : Text, line = "\x7delse\x7bif(x)\x7by;\x7d\x7d".toList ∧
      inner = ['y', ';'] ∧ line.length < (respace line).length ∧ Within line inner ∧
      inner.ink.length < line.ink.length ∧ line.trim = line ∧ isBlankLine line = false ∧
      ∀ part ∈ parts line, part.trim = part ∧ isBlankLine part = false := by
  let line : Text := "\x7delse\x7bif(x)\x7by;\x7d\x7d".toList
  have houter : "if(x)\x7by;\x7d".toList ∈ calls line := by decide +kernel
  have hinner : ['y', ';'] ∈ calls "if(x)\x7by;\x7d".toList := by decide +kernel
  have hwithin : Within line ['y', ';'] := .tail (.single houter) hinner
  have htrim : line.trim = line := by decide
  have hblank : isBlankLine line = false := by decide
  obtain ⟨-, -, hless, -, -, hparts⟩ := parts_recursion line
  exact ⟨line, _, rfl, rfl, by decide +kernel, hwithin, hless _ hwithin, htrim, hblank,
    hparts htrim hblank⟩

/-! ## Fixed points -/

/-- What spacing and cutting have produced stays as it is: a spaced line is spaced already, and a
part of a line is its own only part. The latter asks that no `while`, `fn` or `export` stands behind
a closing brace of the line, blanks aside. -/
theorem parts_fixed (line : Text) :
    respace (respace line) = respace line ∧
    (keywordBehindBrace line = false → ∀ part ∈ parts line, parts part = [part]) := by
  constructor
  · exact respace_respace line
  · intro hkeyword
    exact parts_of_mem_parts hkeyword

/-- The header of `if(s=="){"){ x }` is cut off inside the literal. -/
theorem parts_fixed_header_end :
    ∃ line : Text, line = "if(s==\")\x7b\")\x7b x \x7d".toList ∧ respace line ≠ line ∧
      respace (respace line) = respace line ∧ keywordBehindBrace line = false ∧
      parts line = ["if (s==\") \x7b".toList, "\")\x7b x".toList, ['}']] ∧
      ∀ part ∈ parts line, parts part = [part] := by
  let line : Text := "if(s==\")\x7b\")\x7b x \x7d".toList
  have hkeyword : keywordBehindBrace line = false := by decide +kernel
  obtain ⟨hspaced, hparts⟩ := parts_fixed line
  exact ⟨line, rfl, by decide +kernel, hspaced, hkeyword, by decide +kernel, hparts hkeyword⟩

-- in `} while(x){y` the loop is cut off as it stands, and spaced only when it is read again
example : parts "\x7d while(x)\x7by".toList = [['}'], "while(x)\x7b".toList, ['y']] ∧
    parts "while(x)\x7b".toList = ["while (x) \x7b".toList] := by decide +kernel

end Block

end YapAssist
