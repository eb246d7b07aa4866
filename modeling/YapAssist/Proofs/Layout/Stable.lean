import YapAssist.Proofs.Layout.Rows

/-!
# Rows that are read again

A row is stable when its text is read as that row: its code and its comment come apart where they
were joined, and its code is one part. Laying out the rows of a text again then changes nothing:

* `Layout.rowsFrom_rowsFrom`, the rows of stable rows are these rows, at the same levels;
* `Layout.settled_rowsFrom`, no brace that stays where it is becomes one that a header waits for.
-/

namespace YapAssist.Layout

open Line

/-! ## A single row -/

/-- Whether the text of a row is read as that row again. -/
def Row.Stable : Row → Prop
  | verbatim line => isVerbatim line = true
  | code _ part comment => Separable ⟨part, comment⟩ ∧ part ≠ [] ∧ Block.parts part = [part]

section
variable {level : Nat} {part comment : Text}

theorem Row.Stable.trim (h : (Row.code level part comment).Stable) (width : Nat) :
    ((Row.code level part comment).text width).trim = attach part comment :=
  trim_row h.1.tight h.1.comment_tight h.2.1 level width

theorem split_row (h : (Row.code level part comment).Stable) (width : Nat) :
    split ((Row.code level part comment).text width).trim = ⟨part, comment⟩ := by
  rw [h.trim width, split_attach h.1]

theorem isVerbatim_row (h : (Row.code level part comment).Stable) (width : Nat) :
    isVerbatim ((Row.code level part comment).text width) = false :=
  isVerbatim_attach h.1 h.2.1 (Text.gap_replicate_space _)

/-- The text of a stable row of code is one row, at the level where it is read. -/
theorem lineRows_row (h : (Row.code level part comment).Stable) (width here : Nat) :
    lineRows here ((Row.code level part comment).text width) =
      ([.code (levelAt here part) part comment], levelAfter (levelAt here part) part) := by
  rw [lineRows_of_code (isVerbatim_row h width), split_row h width, h.2.2]
  rfl

theorem awaitsBrace_row (h : (Row.code level part comment).Stable) (width : Nat) :
    awaitsBrace ((Row.code level part comment).text width) = openHeader part := by
  rw [awaitsBrace, split_row h width, h.2.2]
  rfl

/-- The text of a row is only a brace if its code is and it has no comment. -/
theorem eq_brace_of_trim (h : (Row.code level part comment).Stable) {width : Nat}
    (hbrace : ((Row.code level part comment).text width).trim = ['{']) :
    part = ['{'] ∧ comment = [] := by
  rw [h.trim width, attach] at hbrace
  by_cases hc : comment = []
  · rw [if_pos (by simp [hc])] at hbrace
    exact ⟨hbrace, hc⟩
  · -- code, a blank and a comment are more than one character
    have hlength := congrArg List.length hbrace
    rw [if_neg (by simpa using hc)] at hlength
    have hcode := List.length_pos_iff.2 h.2.1
    simp only [List.length_append, List.length_cons, List.length_nil] at hlength
    omega

end

/-! ## The rows of a line, read again -/

/-- Stable rows of one line are read as these rows, up to the level behind them. -/
theorem rowsFrom_partRows {comment : Text} {level : Nat} {parts : List Text} (width : Nat)
    (h : ∀ row ∈ (partRows comment level parts).1, row.Stable) :
    rowsFrom level ((partRows comment level parts).1.map (Row.text width)) =
        (partRows comment level parts).1 ∧
      levelThrough level ((partRows comment level parts).1.map (Row.text width)) =
        (partRows comment level parts).2 := by
  fun_induction partRows comment level parts with
  | case1 level => exact ⟨rfl, rfl⟩
  | case2 level part here =>
    have hrow := lineRows_row (h _ List.mem_cons_self) width level
    simp [rowsFrom, levelThrough, hrow, here]
  | case3 level part parts hne here later ih =>
    have hrow := lineRows_row (h _ List.mem_cons_self) width level
    have hlater := ih fun row hr => h row (List.mem_cons_of_mem _ hr)
    -- the first row leads to the level at which the later ones were laid out
    rw [List.map_cons, rowsFrom, hrow]
    refine ⟨?_, ?_⟩
    · rw [hlater.1]
      rfl
    · rw [levelThrough, List.foldl_cons, hrow]
      exact hlater.2

theorem rowsFrom_lineRows {level : Nat} {line : Text} (width : Nat)
    (h : ∀ row ∈ (lineRows level line).1, row.Stable) :
    rowsFrom level ((lineRows level line).1.map (Row.text width)) = (lineRows level line).1 ∧
      levelThrough level ((lineRows level line).1.map (Row.text width)) =
        (lineRows level line).2 := by
  by_cases hline : isVerbatim line = true
  · simp [lineRows_of_isVerbatim hline, rowsFrom, levelThrough, Row.text]
  · rw [lineRows_of_code (by simpa using hline)] at h ⊢
    exact rowsFrom_partRows width h

/-- The rows of stable rows are these rows. -/
theorem rowsFrom_rowsFrom {level : Nat} {lines : List Text} (width : Nat)
    (h : ∀ row ∈ rowsFrom level lines, row.Stable) :
    rowsFrom level ((rowsFrom level lines).map (Row.text width)) = rowsFrom level lines := by
  induction lines generalizing level with
  | nil => rfl
  | cons line lines ih =>
    rw [rowsFrom] at h ⊢
    have hline := rowsFrom_lineRows width fun row hr => h row (List.mem_append_left _ hr)
    have hlines := ih fun row hr => h row (List.mem_append_right _ hr)
    rw [List.map_append, rowsFrom_append, hline.1, hline.2, hlines]

/-! ## Parts that are only a brace -/

/-- No part that is only a brace has a header before it that waits for one; `waits` tells whether
one waits before the first part. -/
def Steady (waits : Bool) : List Text → Prop
  | [] => True
  | part :: parts => (part = ['{'] → waits = false) ∧ Steady (openHeader part) parts

theorem steady_append_of_ne {s t : List Text} (hs : ∀ part ∈ s, part ≠ ['{'])
    (ht : ∀ waits, Steady waits t) (waits : Bool) : Steady waits (s ++ t) := by
  induction s generalizing waits with
  | nil => exact ht waits
  | cons part s ih =>
    refine ⟨fun he => absurd he (hs part List.mem_cons_self), ?_⟩
    exact ih (fun p hp => hs p (List.mem_cons_of_mem _ hp)) _

theorem steady_append {waits : Bool} {s t : List Text} (hs : Steady waits s)
    (ht : ∀ part ∈ t, part ≠ ['{']) : Steady waits (s ++ t) := by
  induction s generalizing waits with
  | nil =>
    have hall := steady_append_of_ne (t := []) ht (fun _ => trivial) waits
    rwa [List.append_nil] at hall
  | cons part s ih => exact ⟨hs.1, ih hs.2⟩

/-- Behind a header that has its brace nothing waits for one, so braces among the parts stay. Only a
line that is a brace and nothing else depends on what stands before it. -/
theorem steady_parts {code : Text} (waits : Bool)
    (h : Block.parts code = [['{']] → waits = false) : Steady waits (Block.parts code) := by
  induction code using Block.parts_induction generalizing waits with
  | leaf code _ =>
    refine ⟨?_, trivial⟩
    intro he
    exact h (by rw [he])
  | block code front b hi hb ih =>
    have hin := Block.inlined_of_inline? hi hb
    have hclosing : ∀ part ∈ Block.closingOf b, part ≠ ['{'] := by
      intro part hp
      rw [Block.eq_of_mem_closingOf hp]
      decide
    have hbody : Steady false (Block.bodyOf b) := by
      by_cases hne : b.body = []
      · simp [Block.bodyOf, hne, Steady]
      · rw [Block.bodyOf_of_ne_nil hne]
        exact ih hne false (fun _ => rfl)
    apply steady_append_of_ne
    · intro part hp
      rw [hin.eq_of_mem_front hp]
      decide
    · intro waits
      refine ⟨fun he => absurd he hin.header_ne_brace, ?_⟩
      rw [openHeader_of_getLast? hin.tight_header.1 hin.getLast?_header]
      exact steady_append hbody hclosing

/-! ## Rows that are only a brace -/

theorem settled_partRows {comment : Text} {level : Nat} {parts : List Text} (width : Nat)
    (hstable : ∀ row ∈ (partRows comment level parts).1, row.Stable) :
    ∀ waits, Steady waits parts →
      Settled waits ((partRows comment level parts).1.map (Row.text width)) := by
  fun_induction partRows comment level parts with
  | case1 =>
    intro waits _
    trivial
  | case2 level part here =>
    intro waits h
    refine ⟨?_, trivial⟩
    intro hbrace
    exact h.1 (eq_brace_of_trim (hstable _ List.mem_cons_self) hbrace).1
  | case3 level part parts hne here later ih =>
    intro waits h
    have hrow := hstable _ List.mem_cons_self
    refine ⟨?_, ?_⟩
    · intro hbrace
      exact h.1 (eq_brace_of_trim hrow hbrace).1
    · rw [waitsBelow, isVerbatim_row hrow width, if_neg (by simp), awaitsBrace_row hrow width]
      exact ih (fun row hr => hstable row (List.mem_cons_of_mem _ hr)) _ h.2

/-- Behind the rows of a line a brace is waited for as behind its last part. -/
theorem waitsBelow_partRows {comment : Text} {level : Nat} {parts : List Text} (width : Nat)
    (hstable : ∀ row ∈ (partRows comment level parts).1, row.Stable) (hne : parts ≠ [])
    (waits : Bool) :
    ((partRows comment level parts).1.map (Row.text width)).foldl waitsBelow waits =
      parts.getLast?.any openHeader := by
  fun_induction partRows comment level parts generalizing waits with
  | case1 => exact absurd rfl hne
  | case2 level part here =>
    have hrow := hstable _ List.mem_cons_self
    simp [waitsBelow, isVerbatim_row hrow width, awaitsBrace_row hrow width]
  | case3 level part parts hmore here later ih =>
    have hrest : parts ≠ [] := fun hnil => hmore hnil
    rw [List.map_cons, List.foldl_cons,
      ih (fun row hr => hstable row (List.mem_cons_of_mem _ hr)) hrest,
      List.getLast?_cons, List.getLast?_eq_some_getLast hrest]
    rfl

/-- A line whose only part is a brace, without a comment, is that brace. -/
theorem trim_eq_brace {line : Text} (hparts : Block.parts (split line.trim).code = [['{']])
    (hcomment : (split line.trim).comment = []) : line.trim = ['{'] := by
  apply (Text.tight_trim line).eq_singleton_of_ink
  rw [← ink_split, hcomment, ← Block.flatMap_ink_parts, hparts]
  decide

theorem settled_lineRows {level : Nat} {line : Text} {waits : Bool} (width : Nat)
    (hstable : ∀ row ∈ (lineRows level line).1, row.Stable)
    (h : line.trim = ['{'] → waits = false) :
    Settled waits ((lineRows level line).1.map (Row.text width)) ∧
      ((lineRows level line).1.map (Row.text width)).foldl waitsBelow waits =
        waitsBelow waits line := by
  by_cases hline : isVerbatim line = true
  · rw [lineRows_of_isVerbatim hline]
    exact ⟨⟨h, trivial⟩, rfl⟩
  · have hcode : isVerbatim line = false := by simpa using hline
    rw [lineRows_of_code hcode] at hstable ⊢
    refine ⟨?_, ?_⟩
    · -- a line that is only a brace is settled as before; any other has its braces behind a header
      by_cases hbrace : Block.parts (split line.trim).code = [['{']]
      · rw [hbrace] at hstable ⊢
        refine ⟨?_, trivial⟩
        intro he
        apply h
        exact trim_eq_brace hbrace (eq_brace_of_trim (hstable _ List.mem_cons_self) he).2
      · exact settled_partRows width hstable waits (steady_parts waits fun he => absurd he hbrace)
    · rw [waitsBelow_partRows width hstable (Block.parts_ne_nil _), waitsBelow, hcode,
        if_neg (by simp)]
      rfl

/-- Where every brace of a list of lines stays, every brace of its stable rows stays. -/
theorem settled_rowsFrom {level : Nat} {lines : List Text} {waits : Bool} (width : Nat)
    (hstable : ∀ row ∈ rowsFrom level lines, row.Stable) (h : Settled waits lines) :
    Settled waits ((rowsFrom level lines).map (Row.text width)) := by
  induction lines generalizing level waits with
  | nil => trivial
  | cons line lines ih =>
    rw [rowsFrom] at hstable ⊢
    have hline := settled_lineRows width
      (fun row hr => hstable row (List.mem_append_left _ hr)) h.1
    rw [List.map_append, settled_append, hline.2]
    exact ⟨hline.1, ih (fun row hr => hstable row (List.mem_append_right _ hr)) h.2⟩

end YapAssist.Layout
