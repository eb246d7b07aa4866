import YapAssist.Proofs.Layout.Literals

/-!
# Every cut costs a literal

The layout keeps the delimiting quotes of a line, wherever it cuts the line. A part that leaves a
literal open wastes a quote, so on a line that closes all its literals the parts have fewer literals
than the line as soon as one of them is cut. Counting shows that this loss is never made up for:

* `Block.length_flatMap_codeLiterals_parts_le`, `Block.separate_of_length_eq`, the count for the
  parts of one line;
* `Layout.uncut_of_literals_format`, an enclosed text whose literals the layout keeps is not cut;
* `Layout.literals_format`, the layout keeps literals where it does not cut them, and on enclosed
  texts only there.
-/

namespace YapAssist

open Line

namespace Block

/-! ## The parts of a line -/

/-- The literals of parts and the parts that leave one open account for every delimiting quote. -/
theorem quotesIn_eq (parts : List Text) :
    quotesIn parts = 2 * (parts.flatMap codeLiterals).length +
      parts.countP fun part => (Mode.start.after part).quoted := by
  induction parts with
  | nil => rfl
  | cons part parts ih =>
    have hpart := length_codeLiterals part
    rw [quotesIn, ih, ← hpart, List.flatMap_cons, List.length_append, List.countP_cons]
    cases (Mode.start.after part).quoted with
    | true =>
      rw [Bool.toNat_true, if_pos rfl]
      omega
    | false =>
      rw [Bool.toNat_false, if_neg (by simp)]
      omega

theorem length_flatMap_codeLiterals_parts_le (line : Text) :
    ((parts line).flatMap codeLiterals).length ≤ (codeLiterals line).length := by
  have hparts := quotesIn_eq (parts line)
  have hline := length_codeLiterals line
  have hopen : (Mode.start.after line).quoted.toNat ≤ 1 := Bool.toNat_le _
  rw [quotesIn_parts] at hparts
  omega

theorem separate_of_closed {parts : List Text}
    (h : ∀ part ∈ parts, (Mode.start.after part).quoted = false) : separate parts = true := by
  induction parts with
  | nil => rfl
  | cons part parts ih =>
    rw [separate, h part List.mem_cons_self, ih fun p hp => h p (List.mem_cons_of_mem _ hp)]
    rfl

/-- If a line closes all its literals and its parts have as many, then no part leaves one open. -/
theorem separate_of_length_eq {line : Text} (hq : (Mode.start.after line).quoted = false)
    (h : ((parts line).flatMap codeLiterals).length = (codeLiterals line).length) :
    separate (parts line) = true := by
  have hparts := quotesIn_eq (parts line)
  have hline := length_codeLiterals line
  rw [quotesIn_parts] at hparts
  rw [hq, Bool.toNat_false] at hline
  have hnone : ((parts line).countP fun part => (Mode.start.after part).quoted) = 0 := by omega
  apply separate_of_closed
  intro part hp
  have hpart := List.countP_eq_zero.1 hnone part hp
  simpa using hpart

end Block

namespace Layout

/-! ## The rows of a line -/

theorem length_codeLiterals_append_le (s t : Text) :
    (codeLiterals s).length ≤ (codeLiterals (s ++ t)).length := by
  rw [codeLiterals_eq, codeLiterals_eq, Mode.literals_append, List.length_append]
  omega

/-- Cutting a comment off does not add literals. -/
theorem length_codeLiterals_split_le (t : Text) :
    (codeLiterals (split t).code).length ≤ (codeLiterals t).length := by
  rcases split_cases t with ⟨-, he⟩ | ⟨s, rest, rfl, -, -, he⟩
  · rcases Text.exists_gap_trimEnd t with ⟨gap, hgap, ht⟩
    have hsame : codeLiterals t.trimEnd = codeLiterals t := by
      conv => rhs; rw [ht, codeLiterals_append_plain _ (Mode.plain_of_gap hgap)]
    apply Nat.le_of_eq
    rw [he, hsame]
  · rcases Text.exists_gap_trimEnd s with ⟨gap, -, hs⟩
    have hcut : s ++ '/' :: '/' :: rest = s.trimEnd ++ (gap ++ '/' :: '/' :: rest) := by
      conv => lhs; rw [hs]
      simp
    rw [he, hcut]
    exact length_codeLiterals_append_le _ _

/-- The rows of parts without a comment have no more literals than the parts. -/
theorem length_flatMap_literals_partRows_le (level width : Nat) {parts : List Text}
    (h : ∀ part ∈ parts, part.Tight ∧ part ≠ []) :
    ((partRows [] level parts).1.flatMap fun row => Line.literals (row.text width)).length ≤
      (parts.flatMap codeLiterals).length := by
  have hrow : ∀ part ∈ parts, ∀ here, (Line.literals ((Row.code here part []).text width)).length ≤
      (codeLiterals part).length := by
    intro part hp here
    rw [Line.literals, trim_row (h part hp).1 Text.tight_nil (h part hp).2, attach_nil]
    exact length_codeLiterals_split_le part
  fun_induction partRows [] level parts with
  | case1 => exact Nat.le_refl 0
  | case2 level part here =>
    simpa using hrow part List.mem_cons_self here
  | case3 level part parts hne here later ih =>
    have hfirst := hrow part List.mem_cons_self here
    have hlater := ih (fun p hp => h p (List.mem_cons_of_mem _ hp))
      (fun p hp => hrow p (List.mem_cons_of_mem _ hp))
    rw [List.flatMap_cons, List.flatMap_cons, List.length_append, List.length_append]
    exact Nat.add_le_add hfirst hlater

/-- A line of code without a comment that closes all its literals. -/
def EnclosedLine (line : Text) : Prop :=
  (split line.trim).comment = [] ∧ (Mode.start.after (split line.trim).code).quoted = false

instance (line : Text) : Decidable (EnclosedLine line) := inferInstanceAs (Decidable (_ ∧ _))

/-- The rows of a line have no more literals than the line, and as many only if none is cut. -/
theorem length_flatMap_literals_lineRows {line : Text}
    (h : isVerbatim line = false → EnclosedLine line) (level width : Nat) :
    ((lineRows level line).1.flatMap fun row => Line.literals (row.text width)).length ≤
        (Line.literals line).length ∧
      (((lineRows level line).1.flatMap fun row => Line.literals (row.text width)).length =
          (Line.literals line).length →
        isVerbatim line = false → cutsLiteral (split line.trim).code = false) := by
  by_cases hline : isVerbatim line = true
  · rw [lineRows_of_isVerbatim hline, List.flatMap_singleton, Row.text, hline]
    exact ⟨Nat.le_refl _, fun _ hcode => absurd hcode (by simp)⟩
  · have hcode : isVerbatim line = false := by simpa using hline
    have htight := Block.tight_of_mem_parts (separable_split (Text.tight_trim line)).tight
      (code_ne_nil hcode)
    have hrows := length_flatMap_literals_partRows_le level width htight
    have hparts := Block.length_flatMap_codeLiterals_parts_le (split line.trim).code
    rw [lineRows_of_code hcode, (h hcode).1, Line.literals]
    refine ⟨Nat.le_trans hrows hparts, ?_⟩
    intro hsame _
    rw [cutsLiteral, Block.separate_of_length_eq (h hcode).2 (by omega)]
    rfl

/-- What holds for each line holds for the rows of all of them: one literal less is missed in the
end. -/
theorem length_flatMap_literals_rowsFrom {lines : List Text}
    (h : ∀ line ∈ lines, isVerbatim line = false → EnclosedLine line) (level width : Nat) :
    ((rowsFrom level lines).flatMap fun row => Line.literals (row.text width)).length ≤
        (lines.flatMap Line.literals).length ∧
      (((rowsFrom level lines).flatMap fun row => Line.literals (row.text width)).length =
          (lines.flatMap Line.literals).length →
        ∀ line ∈ lines, isVerbatim line = false →
          cutsLiteral (split line.trim).code = false) := by
  induction lines generalizing level with
  | nil => exact ⟨Nat.le_refl 0, by simp⟩
  | cons line lines ih =>
    have hline := length_flatMap_literals_lineRows (h line List.mem_cons_self) level width
    have hlines := ih (fun l hl => h l (List.mem_cons_of_mem _ hl)) (lineRows level line).2
    rw [rowsFrom, List.flatMap_append, List.flatMap_cons, List.length_append, List.length_append]
    refine ⟨Nat.add_le_add hline.1 hlines.1, ?_⟩
    intro hsame l hl
    rcases List.mem_cons.1 hl with rfl | hl
    · exact hline.2 (by omega)
    · exact hlines.2 (by omega) l hl

/-! ## Joined lines -/

/-- A joined brace changes neither the number of literals nor whether one is open. -/
theorem length_literals_joinBrace {line : Text} (hcode : isVerbatim line = false) :
    (Line.literals (joinBrace line)).length = (Line.literals line).length := by
  have hspaced := respaced_respace (codeBrace line)
  have hjoined := length_codeLiterals (respace (codeBrace line))
  have hbrace := length_codeLiterals (codeBrace line)
  rw [quotes_of_respaced hspaced, after_of_respaced hspaced] at hjoined
  have hsame : codeLiterals (codeBrace line) = codeLiterals (split line.trim).code :=
    codeLiterals_append_plain _ plain_space_brace
  rw [Line.literals, code_joinBrace hcode, Line.literals, ← hsame]
  omega

theorem length_flatMap_literals_joinDetached (lines : List Text) :
    ((joinDetached lines).flatMap Line.literals).length =
      (lines.flatMap Line.literals).length := by
  have hall := joinDetached_induction (motive := fun before above =>
    (above.reverse.flatMap Line.literals).length = (before.flatMap Line.literals).length) lines rfl
    (by
      intro before above line ih
      rw [List.flatMap_append, List.flatMap_singleton, List.length_append, ← ih]
      rcases addLine_cases above line with
        ⟨hadd, -⟩ | ⟨hbrace, near, target, far, rfl, hadd, -, hcode, -⟩
      · rw [hadd, List.reverse_cons, List.flatMap_append, List.flatMap_singleton,
          List.length_append]
      · have htarget := length_literals_joinBrace hcode
        simp only [hadd, literals_of_trim_brace hbrace, List.reverse_append, List.reverse_cons,
          List.flatMap_append, List.flatMap_singleton, List.length_append, List.length_nil]
        omega)
  rwa [List.reverse_reverse] at hall

theorem enclosedLine_joinBrace {line : Text} (hcode : isVerbatim line = false)
    (h : EnclosedLine line) : EnclosedLine (joinBrace line) := by
  refine ⟨?_, ?_⟩
  · rw [split_joinBrace hcode]
    exact h.1
  · rw [code_joinBrace hcode, after_of_respaced (respaced_respace _), codeBrace,
      Mode.after_append, plain_space_brace.quoted_after]
    exact h.2

/-! ## The whole layout -/

/-- The texts on whose lines of code every literal is closed and no comment follows. -/
def Enclosed (text : Text) : Prop :=
  ∀ line ∈ text.lines, isVerbatim line = false → EnclosedLine line

instance (text : Text) : Decidable (Enclosed text) := List.decidableBAll _ text.lines

/-- On an enclosed text no literal makes up for one that is cut. -/
theorem uncut_of_literals_format {text : Text} (h : Enclosed text) {width : Nat}
    (hsame : (format width text).literals = text.literals) : Uncut text := by
  have henclosed : ∀ line ∈ joinDetached text.lines, isVerbatim line = false →
      EnclosedLine line := by
    intro line hline hcode
    rcases (mem_joinDetached text.lines).1 line hline with hmem | ⟨k, hk, hkcode, -, rfl⟩
    · exact h line hmem hcode
    · exact enclosedLine_joinBrace hkcode (h k hk hkcode)
  have hlength := congrArg List.length hsame
  rw [Text.literals, flatMap_lines_format Line.literals literals_nil, Text.literals,
    ← length_flatMap_literals_joinDetached] at hlength
  exact (length_flatMap_literals_rowsFrom henclosed 0 width).2 hlength

/-- The layout of a text has its closed string literals if it cuts none of them. On a text without
open literals and without comments behind code it has them only then. -/
theorem literals_format (width : Nat) (text : Text) :
    (Uncut text → (format width text).literals = text.literals) ∧
      (Enclosed text → (format width text).literals = text.literals → Uncut text) :=
  ⟨fun h => literals_format_of_uncut h width, fun h hsame => uncut_of_literals_format h hsame⟩

/-- A literal in a condition that holds no header end is kept. -/
theorem literals_format_header :
    Uncut "if(\"//\")\x7by\x7d".toList ∧ Enclosed "if(\"//\")\x7by\x7d".toList ∧
      (format 4 "if(\"//\")\x7by\x7d".toList).literals =
        Text.literals "if(\"//\")\x7by\x7d".toList :=
  ⟨uncut_of_literals (by decide +kernel), by decide +kernel,
    (literals_format 4 _).1 (uncut_of_literals (by decide +kernel))⟩

/-- A header end inside a literal is taken for the end of the header around it. -/
theorem literals_format_header_end :
    (format 4 "if (\")\x7b\") \x7b".toList).literals ≠
      Text.literals "if (\")\x7b\") \x7b".toList := by
  decide +kernel

end Layout

end YapAssist
