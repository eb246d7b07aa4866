import YapAssist.Proofs.Line.Mode
import YapAssist.Text.Lines

/-!
# The closed string literals of a line

The literals of a code text are read with the rule that finds its delimiting quotes: from one
delimiting quote to the next. A literal that no quote closes is none.

* `Line.codeLiterals`, the contents of the closed literals of a code text;
* `Line.literals`, those of the code of a line; `Text.literals`, those of all lines of a text;
* `Line.Mode.literals`, the same reading started anywhere, with its laws for texts put together.
-/

namespace YapAssist

namespace Line

/-- The closed literals of `rest`, which stands behind the characters `before` (nearest first).
Inside a literal `inside` holds what was read of it so far (nearest first). -/
def literalsFrom (before : Text) (inside : Option Text) : (rest : Text) → List Text
  | [] => []
  | c :: rest =>
    if isDelimiter before c then
      match inside with
      | some content => content.reverse :: literalsFrom (c :: before) none rest
      | none => literalsFrom (c :: before) (some []) rest
    else literalsFrom (c :: before) (inside.map (c :: ·)) rest

/-- The contents of the closed string literals of a code text. -/
def codeLiterals (code : Text) : List Text := literalsFrom [] none code

/-- The contents of the closed string literals of a line. -/
def literals (line : Text) : List Text := codeLiterals (split line.trim).code

end Line

/-- The contents of the closed string literals of a text, line by line. -/
def Text.literals (text : Text) : List Text := text.lines.flatMap Line.literals

namespace Line

/-! ## Reading from anywhere -/

namespace Mode

/-- What is read of an open literal after one more character. -/
def collect (m : Mode) (inside : Text) (c : Char) : Text :=
  if m.quoted && !m.delimits c then c :: inside else []

/-- What is read of an open literal after the characters of a text. -/
def gather (m : Mode) (inside : Text) : Text → Text
  | [] => inside
  | c :: rest => gather (m.next c) (m.collect inside c) rest

/-- The literals that the characters of a text close. -/
def literals (m : Mode) (inside : Text) : Text → List Text
  | [] => []
  | c :: rest =>
    (if m.quoted && m.delimits c then [inside.reverse] else []) ++
      literals (m.next c) (m.collect inside c) rest

theorem literals_append (m : Mode) (inside s t : Text) :
    m.literals inside (s ++ t) =
      m.literals inside s ++ (m.after s).literals (m.gather inside s) t := by
  induction s generalizing m inside with
  | nil => rfl
  | cons c s ih =>
    rw [List.cons_append, literals, literals, ih, gather, after_cons, List.append_assoc]

/-- Outside literals it does not matter what was read inside one. -/
theorem literals_of_not_quoted {m : Mode} (h : m.quoted = false) (inside t : Text) :
    m.literals inside t = m.literals [] t := by
  cases t with
  | nil => rfl
  | cons c t => simp [literals, collect, h]

/-- A text without delimiting quotes closes no literal. -/
theorem literals_of_silent {m : Mode} {t : Text} (h : m.silent t = true) (inside : Text) :
    m.literals inside t = [] := by
  induction t generalizing m inside with
  | nil => rfl
  | cons c t ih =>
    rw [silent, Bool.and_eq_true, Bool.not_eq_true'] at h
    rw [literals, h.1, Bool.and_false, ih h.2]
    rfl

theorem gather_of_silent {m : Mode} (hq : m.quoted = true) {t : Text} (h : m.silent t = true)
    (inside : Text) : m.gather inside t = t.reverse ++ inside := by
  induction t generalizing m inside with
  | nil => rfl
  | cons c t ih =>
    rw [silent, Bool.and_eq_true, Bool.not_eq_true'] at h
    have hnext : (m.next c).quoted = true := by simp [next, hq, h.1]
    rw [gather, ih hnext h.2, collect, hq, h.1]
    simp

/-- The next delimiting quote closes an open literal. -/
theorem exists_mem_literals {m : Mode} (hq : m.quoted = true) {t : Text}
    (h : m.silent t = false) (inside : Text) :
    ∃ more, inside.reverse ++ more ∈ m.literals inside t := by
  induction t generalizing m inside with
  | nil => simp [silent] at h
  | cons c t ih =>
    rw [literals, hq, Bool.true_and]
    cases hd : m.delimits c with
    | true => exact ⟨[], by simp⟩
    | false =>
      -- the literal stays open and `c` goes into it
      have hnext : (m.next c).quoted = true := by simp [next, hq, hd]
      have hrest : (m.next c).silent t = false := by simpa [silent, hd] using h
      rcases ih hnext hrest (m.collect inside c) with ⟨more, hmore⟩
      refine ⟨c :: more, ?_⟩
      simpa [collect, hq, hd] using hmore

/-- Every delimiting quote opens a literal or closes one. -/
theorem length_literals (m : Mode) (inside t : Text) :
    2 * (m.literals inside t).length + (m.after t).quoted.toNat =
      m.quotes t + m.quoted.toNat := by
  induction t generalizing m inside with
  | nil => simp [literals, quotes]
  | cons c t ih =>
    have hrest := ih (m.next c) (m.collect inside c)
    have hnext : (m.next c).quoted = (m.quoted ^^ m.delimits c) := rfl
    rw [hnext] at hrest
    rw [literals, quotes, after_cons, List.length_append]
    cases hq : m.quoted <;> cases hd : m.delimits c <;> simp [hq, hd] at hrest ⊢ <;> omega

end Mode

/-- The two ways to read literals agree. -/
theorem literalsFrom_eq (before : Text) (inside : Option Text) (t : Text) :
    literalsFrom before inside t =
      (⟨inside.isSome, Mode.escapes before⟩ : Mode).literals (inside.getD []) t := by
  induction t generalizing before inside with
  | nil => rfl
  | cons c t ih =>
    rw [Mode.literals, Mode.next_of_before, Mode.collect,
      ← Mode.isDelimiter_eq before inside.isSome c]
    -- a delimiter closes the open literal or opens one; any other character goes into it
    by_cases hd : isDelimiter before c = true
    · cases inside with
      | none => simp [literalsFrom, hd, ih]
      | some content => simp [literalsFrom, hd, ih]
    · cases inside with
      | none => simp [literalsFrom, hd, ih]
      | some content => simp [literalsFrom, hd, ih]

theorem codeLiterals_eq (code : Text) : codeLiterals code = Mode.start.literals [] code :=
  literalsFrom_eq [] none code

theorem length_codeLiterals (code : Text) :
    2 * (codeLiterals code).length + (Mode.start.after code).quoted.toNat =
      Mode.quotes .start code := by
  rw [codeLiterals_eq]
  exact Mode.length_literals .start [] code

/-! ## Texts put together -/

theorem codeLiterals_of_silent {t : Text} (h : Mode.silent .start t = true) :
    codeLiterals t = [] := by
  rw [codeLiterals_eq, Mode.literals_of_silent h]

/-- What no quote delimits adds no literal. -/
theorem codeLiterals_append_of_silent {s t : Text}
    (h : Mode.silent (Mode.start.after s) t = true) : codeLiterals (s ++ t) = codeLiterals s := by
  rw [codeLiterals_eq, codeLiterals_eq, Mode.literals_append, Mode.literals_of_silent h,
    List.append_nil]

/-- Where a scan starts afresh, the literals start afresh. -/
theorem codeLiterals_append_of_start {s : Text} (h : Mode.start.after s = .start) (t : Text) :
    codeLiterals (s ++ t) = codeLiterals s ++ codeLiterals t := by
  rw [codeLiterals_eq, codeLiterals_eq, codeLiterals_eq, Mode.literals_append, h,
    Mode.literals_of_not_quoted rfl (Mode.start.gather [] s)]

theorem codeLiterals_plain_append {lead : Text} (h : Mode.Plain lead) (t : Text) :
    codeLiterals (lead ++ t) = codeLiterals t := by
  rw [codeLiterals_append_of_start h.after_start, codeLiterals_of_silent (h.silent _),
    List.nil_append]

theorem codeLiterals_append_plain (t : Text) {back : Text} (h : Mode.Plain back) :
    codeLiterals (t ++ back) = codeLiterals t :=
  codeLiterals_append_of_silent (h.silent _)

theorem literals_of_trim_brace {line : Text} (h : line.trim = ['{']) : literals line = [] := by
  rw [literals, h]
  decide

theorem literals_nil : literals [] = [] := rfl

end Line

end YapAssist
