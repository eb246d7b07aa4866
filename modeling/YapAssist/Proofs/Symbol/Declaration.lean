import YapAssist.Proofs.Line.Automaton
import YapAssist.Symbol.Declaration

/-!
# Declarations as a scan

The declarations of a line of code are matched from left to right, none inside the one before, and
those inside string literals are passed over. A match has no quotes in it, so whatever it hides lies
inside the same literal as the match itself. Whether there is any declaration is known to a scan
that looks at one place after the other and carries what `Line.Mode` carries and whether it is
inside a word:

* `Declaration.afterFn?_eq_some_iff`, what stands at a declaration;
* `Declaration.inCode?_eq`, the first match outside literals against a look at every column;
* `Declaration.isSome_inCode?`, the matches and the scan agree;
* `Declaration.declaresFrom_append`, a text can be scanned in two pieces wherever the next visible
  character is none of a word. No declaration reaches across such a place.
-/

namespace YapAssist

open Line

namespace Declaration

/-! ## What stands at a declaration -/

theorem exists_gap_of_afterWordGap? {word t rest : Text} (h : afterWordGap? word t = some rest) :
    ∃ gap : Text, gap ≠ [] ∧ gap.Gap ∧ t = word ++ (gap ++ rest) := by
  unfold afterWordGap? at h
  rcases Option.bind_eq_some_iff.1 h with ⟨behind, hbehind, h⟩
  rw [Text.after?_eq_some_iff] at hbehind
  split at h
  · next hblank =>
    rcases Text.exists_gap_trimStart behind with ⟨gap, hgap, hcut⟩
    rcases Option.some.inj h with rfl
    refine ⟨gap, ?_, hgap, by rw [← hcut, hbehind]⟩
    rintro rfl
    rw [List.nil_append] at hcut
    rcases (Option.any_eq_true _ _).1 hblank with ⟨c, hc, hb⟩
    rw [hcut] at hc
    rw [Text.head?_trimStart_not_blank behind c hc] at hb
    exact absurd hb (by simp)
  · simp at h

theorem afterWordGap?_eq {gap rest : Text} (hne : gap ≠ []) (hgap : gap.Gap)
    (hrest : ∀ c ∈ rest.head?, isBlank c = false) (word : Text) :
    afterWordGap? word (word ++ (gap ++ rest)) = some rest := by
  have hword : Text.after? word (word ++ (gap ++ rest)) = some (gap ++ rest) :=
    Text.after?_eq_some_iff.2 rfl
  have hblank : (gap ++ rest).head?.any isBlank = true := by
    rcases List.exists_cons_of_ne_nil hne with ⟨b, more, rfl⟩
    simpa using hgap b List.mem_cons_self
  unfold afterWordGap?
  rw [hword, Option.bind_some, if_pos hblank, hgap.trimStart_append, Text.trimStart_eq_self hrest]

section
variable {name : Text} (hname : isIdentifier name = true)
include hname

theorem isWord_of_mem_name : ∀ c ∈ name, isWord c = true := fun c hc =>
  isWord_of_isNameChar ((isIdentifier_chars hname).2 c hc)

/-- A declaration is `fn`, a gap and the name, and the name ends there. -/
theorem afterFn?_eq_some_iff {t rest : Text} :
    afterFn? name t = some rest ↔ ∃ gap : Text, gap ≠ [] ∧ gap.Gap ∧
      t = ['f', 'n'] ++ (gap ++ (name ++ rest)) ∧ endsWord rest = true := by
  unfold afterFn?
  constructor
  · intro h
    rcases Option.bind_eq_some_iff.1 h with ⟨behind, hbehind, h⟩
    rw [afterWord?, Option.filter_eq_some_iff, Text.after?_eq_some_iff] at h
    rcases exists_gap_of_afterWordGap? hbehind with ⟨gap, hne, hgap, ht⟩
    exact ⟨gap, hne, hgap, by rw [ht, h.1], h.2⟩
  · rintro ⟨gap, hne, hgap, rfl, hend⟩
    have hvisible : ∀ c ∈ (name ++ rest).head?, isBlank c = false := by
      intro c hc
      rcases List.exists_cons_of_ne_nil (isIdentifier_chars hname).1 with ⟨d, more, rfl⟩
      have hd : d = c := by simpa using hc
      rw [← hd]
      exact isBlank_eq_false_of_isWord (isWord_of_mem_name hname d List.mem_cons_self)
    rw [afterWordGap?_eq hne hgap hvisible, Option.bind_some, afterWord?,
      Option.filter_eq_some_iff, Text.after?_eq_some_iff]
    exact ⟨rfl, hend⟩

end

/-- A text whose next visible character, if there is any, is none of a word. -/
def Stops (t : Text) : Prop := ∀ c ∈ t.trimStart.head?, isWord c = false

theorem stops_cons {c : Char} (hblank : isBlank c = false) (hword : isWord c = false) (t : Text) :
    Stops (c :: t) := by
  intro d hd
  rw [Text.trimStart_cons_of_not_blank hblank] at hd
  have hcd : c = d := by simpa using hd
  rw [← hcd, hword]

theorem Stops.gap_append {gap t : Text} (ht : Stops t) (h : gap.Gap) : Stops (gap ++ t) := by
  unfold Stops
  rw [h.trimStart_append]
  exact ht

theorem stops_nil : Stops [] := by simp [Stops]

theorem stops_gap {gap : Text} (h : gap.Gap) : Stops gap := by
  have hall := stops_nil.gap_append h
  rwa [List.append_nil] at hall

theorem Stops.endsWord {t : Text} (h : Stops t) : endsWord t = true := by
  unfold YapAssist.endsWord
  cases t with
  | nil => rfl
  | cons c t =>
    cases hblank : isBlank c with
    | true => simp [isWord_eq_false_of_isBlank hblank]
    | false =>
      have hword := h c (by rw [Text.trimStart_cons_of_not_blank hblank]; rfl)
      simp [hword]

/-- Words and blanks that are not all blank do not stop anything. -/
theorem not_stops_append {s : Text} (hall : ∀ c ∈ s, isWord c = true ∨ isBlank c = true)
    (hvisible : ∃ c ∈ s, isBlank c = false) (t : Text) : ¬ Stops (s ++ t) := by
  induction s with
  | nil => simp at hvisible
  | cons c s ih =>
    intro hstops
    cases hblank : isBlank c with
    | true =>
      apply ih (fun d hd => hall d (List.mem_cons_of_mem _ hd))
      · rcases hvisible with ⟨d, hd, hdv⟩
        rcases List.mem_cons.1 hd with rfl | hd
        · rw [hblank] at hdv
          exact absurd hdv (by simp)
        · exact ⟨d, hd, hdv⟩
      · intro d hd
        apply hstops d
        rwa [List.cons_append, Text.trimStart, List.dropWhile_cons_of_pos hblank]
    | false =>
      have hword : isWord c = true := by
        rcases hall c List.mem_cons_self with hw | hb
        · exact hw
        · rw [hblank] at hb
          exact absurd hb (by simp)
      have hnot := hstops c (by
        rw [List.cons_append, Text.trimStart_cons_of_not_blank hblank]
        rfl)
      rw [hword] at hnot
      exact absurd hnot (by simp)

/-- Whether a declaration stands at the beginning of a text is settled before a place that stops. -/
theorem isSome_afterFn?_append {name : Text} (hname : isIdentifier name = true) {x : Text}
    (hx : Stops x) (s : Text) :
    (afterFn? name (s ++ x)).isSome = (afterFn? name s).isSome := by
  rw [Bool.eq_iff_iff, Option.isSome_iff_exists, Option.isSome_iff_exists]
  simp only [afterFn?_eq_some_iff hname]
  constructor
  · rintro ⟨rest, gap, hne, hgap, hcut, hend⟩
    have hwhole : s ++ x = (['f', 'n'] ++ (gap ++ name)) ++ rest := by
      rw [hcut]
      simp
    rcases List.append_eq_append_iff.1 hwhole with ⟨mid, hmid, hx'⟩ | ⟨mid, hmid, hrest⟩
    · -- the name would reach into `x`
      by_cases hnil : mid = []
      · rw [hnil, List.append_nil] at hmid
        exact ⟨[], gap, hne, hgap, by rw [← hmid]; simp, rfl⟩
      · exfalso
        have hlast : mid.getLast? = name.getLast? := by
          have hboth := congrArg List.getLast? hmid
          rwa [← List.append_assoc, Text.getLast?_append_right (isIdentifier_chars hname).1,
            Text.getLast?_append_right hnil, eq_comm] at hboth
        have hmem : ∀ c ∈ mid, isWord c = true ∨ isBlank c = true := by
          intro c hc
          have hc' : c ∈ ['f', 'n'] ++ (gap ++ name) := by
            rw [hmid]
            exact List.mem_append_right _ hc
          rw [List.mem_append, List.mem_append] at hc'
          rcases hc' with hc | hc | hc
          · have hfn : ∀ c ∈ ['f', 'n'], isWord c = true := List.all_eq_true.1 (by decide)
            exact .inl (hfn c hc)
          · exact .inr (hgap c hc)
          · exact .inl (isWord_of_mem_name hname c hc)
        rw [hx'] at hx
        refine not_stops_append hmem ?_ rest hx
        have hd := List.getLast?_eq_some_getLast hnil
        refine ⟨_, List.mem_of_getLast? hd, isBlank_eq_false_of_isWord ?_⟩
        rw [hlast] at hd
        exact isWord_of_mem_name hname _ (List.mem_of_getLast? hd)
    · refine ⟨mid, gap, hne, hgap, by rw [hmid]; simp, ?_⟩
      rw [hrest] at hend
      cases mid with
      | nil => rfl
      | cons c mid => exact hend
  · rintro ⟨rest, gap, hne, hgap, rfl, hend⟩
    refine ⟨rest ++ x, gap, hne, hgap, by simp, ?_⟩
    cases rest with
    | nil => exact hx.endsWord
    | cons c rest => exact hend

/-! ## The scan -/

/-- What a scan for declarations knows after some characters of a line. -/
@[ext]
structure Scan where
  mode : Mode
  /-- A character of a word stands directly before. -/
  inWord : Bool
  deriving DecidableEq, Repr

namespace Scan

/-- Before the first character. -/
def start : Scan := ⟨.start, false⟩

/-- After one more character. -/
def next (p : Scan) (c : Char) : Scan := ⟨p.mode.next c, isWord c⟩

/-- After the characters of a text. -/
def after (p : Scan) (t : Text) : Scan := t.foldl next p

@[simp] theorem after_nil (p : Scan) : p.after [] = p := rfl

@[simp] theorem after_cons (p : Scan) (c : Char) (t : Text) :
    p.after (c :: t) = (p.next c).after t := rfl

@[simp] theorem after_append (p : Scan) (s t : Text) : p.after (s ++ t) = (p.after s).after t := by
  simp [after]

@[simp] theorem mode_after (p : Scan) (t : Text) : (p.after t).mode = p.mode.after t := by
  induction t generalizing p with
  | nil => rfl
  | cons c t ih => rw [after_cons, ih, Mode.after_cons, next]

theorem inWord_after (p : Scan) (t : Text) :
    (p.after t).inWord = (t.getLast?.map isWord).getD p.inWord := by
  rcases List.eq_nil_or_concat t with rfl | ⟨front, c, rfl⟩
  · rfl
  · rw [List.concat_eq_append, after_append, List.getLast?_concat]
    rfl

theorem inWord_after_start (t : Text) : (start.after t).inWord = t.getLast?.any isWord := by
  rw [inWord_after]
  cases t.getLast? <;> rfl

/-- Behind a character that is none of a word and means nothing to a scan only an open literal
counts. -/
theorem next_of_plain {c : Char} (hc : Mode.Plain [c]) (hword : isWord c = false) (p : Scan) :
    p.next c = ⟨⟨p.mode.quoted, false⟩, false⟩ := by
  have hplain := hc c List.mem_cons_self
  rw [next, Mode.next_of_ne hplain.1 hplain.2.1, hword]

/-- Blanks change nothing where no backslash is pending and no word has just ended. -/
theorem after_gap {gap : Text} (h : gap.Gap) (quoted : Bool) :
    (⟨⟨quoted, false⟩, false⟩ : Scan).after gap = ⟨⟨quoted, false⟩, false⟩ := by
  induction gap with
  | nil => rfl
  | cons c gap ih =>
    have hblank := h c List.mem_cons_self
    have hplain : Mode.Plain [c] := Mode.plain_of_gap fun d hd => by
      rwa [List.mem_singleton.1 hd]
    rw [after_cons, next_of_plain hplain (isWord_eq_false_of_isBlank hblank),
      ih fun d hd => h d (List.mem_cons_of_mem _ hd)]

end Scan

/-- Whether a declaration of `name` stands at some place of a text, outside literals and not inside
a word, when the text is read from `p` on. -/
def declaresFrom (name : Text) (p : Scan) : Text → Bool
  | [] => false
  | c :: rest =>
    (!p.mode.quoted && !p.inWord && (afterFn? name (c :: rest)).isSome) ||
      declaresFrom name (p.next c) rest

/-- Whether a line of code declares `name`. -/
def declares (name code : Text) : Bool := declaresFrom name .start code

theorem declaresFrom_append_right {name : Text} {p : Scan} {s t : Text}
    (h : declaresFrom name (p.after s) t = true) : declaresFrom name p (s ++ t) = true := by
  induction s generalizing p with
  | nil => exact h
  | cons c s ih => rw [List.cons_append, declaresFrom, ih h, Bool.or_true]

theorem declaresFrom_cons {c : Char} (hc : c ≠ 'f') (name : Text) (p : Scan) (t : Text) :
    declaresFrom name p (c :: t) = declaresFrom name (p.next c) t := by
  have hnone : afterFn? name (c :: t) = none := by
    simp [afterFn?, afterWordGap?, Text.after?, Ne.symm hc]
  rw [declaresFrom, hnone, Option.isSome_none, Bool.and_false, Bool.false_or]

theorem declaresFrom_gap_append {gap : Text} (h : gap.Gap) (name : Text) (p : Scan) (t : Text) :
    declaresFrom name p (gap ++ t) = declaresFrom name (p.after gap) t := by
  induction gap generalizing p with
  | nil => rfl
  | cons c gap ih =>
    have hne : c ≠ 'f' := by
      rintro rfl
      exact absurd (h 'f' List.mem_cons_self) (by decide)
    rw [List.cons_append, declaresFrom_cons hne, ih fun d hd => h d (List.mem_cons_of_mem _ hd)]
    rfl

theorem declaresFrom_gap {gap : Text} (h : gap.Gap) (name : Text) (p : Scan) :
    declaresFrom name p gap = false := by
  have hall := declaresFrom_gap_append h name p []
  rw [List.append_nil] at hall
  rw [hall]
  rfl

/-- No declaration begins inside a word. -/
theorem declaresFrom_inWord {word : Text} (h : ∀ c ∈ word, isWord c = true) (name : Text)
    {p : Scan} (hp : p.inWord = true) (t : Text) :
    declaresFrom name p (word ++ t) = declaresFrom name (p.after word) t := by
  induction word generalizing p with
  | nil => rfl
  | cons c word ih =>
    have hnext : (p.next c).inWord = true := h c List.mem_cons_self
    rw [List.cons_append, declaresFrom, hp, ih (fun d hd => h d (List.mem_cons_of_mem _ hd)) hnext]
    simp

/-- A word that is not `fn` begins no declaration. -/
theorem declaresFrom_word {word : Text} (h : ∀ c ∈ word, isWord c = true)
    (hf : word.head? ≠ some 'f') (name : Text) (p : Scan) (t : Text) :
    declaresFrom name p (word ++ t) = declaresFrom name (p.after word) t := by
  cases word with
  | nil => rfl
  | cons c word =>
    have hc : c ≠ 'f' := by simpa using hf
    rw [List.cons_append, declaresFrom_cons hc]
    exact declaresFrom_inWord (fun d hd => h d (List.mem_cons_of_mem _ hd)) name
      (h c List.mem_cons_self) t

/-- A text can be scanned in two pieces wherever the next visible character is none of a word. -/
theorem declaresFrom_append {name : Text} (hname : isIdentifier name = true) {x : Text}
    (hx : Stops x) (p : Scan) (s : Text) :
    declaresFrom name p (s ++ x) =
      (declaresFrom name p s || declaresFrom name (p.after s) x) := by
  induction s generalizing p with
  | nil => rfl
  | cons c s ih =>
    have hhere := isSome_afterFn?_append hname hx (c :: s)
    rw [List.cons_append] at hhere
    rw [List.cons_append, declaresFrom, declaresFrom, hhere, ih, Scan.after_cons, Bool.or_assoc]

theorem declares_gap_append {gap : Text} (h : gap.Gap) (name t : Text) :
    declares name (gap ++ t) = declares name t := by
  unfold declares
  rw [declaresFrom_gap_append h]
  exact congrArg (declaresFrom name · t) (Scan.after_gap h false)

theorem declares_append_gap {name : Text} (hname : isIdentifier name = true) {gap : Text}
    (h : gap.Gap) (t : Text) : declares name (t ++ gap) = declares name t := by
  unfold declares
  rw [declaresFrom_append hname (stops_gap h), declaresFrom_gap h, Bool.or_false]

/-! ## Matches from left to right -/

theorem columnsFrom_skip (name : Text) (before : Option Char) (column : Nat) (s t : Text) :
    columnsFrom name before s.length column (s ++ t) =
      columnsFrom name (s.getLast?.or before) 0 (column + s.length) t := by
  induction s generalizing before column with
  | nil => rfl
  | cons c s ih =>
    have hlast : (c :: s).getLast?.or before = s.getLast?.or (some c) := by
      rw [List.getLast?_cons]
      cases s.getLast? <;> rfl
    have hcolumn : column + (c :: s).length = column + 1 + s.length := by
      rw [List.length_cons]
      omega
    rw [hlast, hcolumn, ← ih, List.cons_append, List.length_cons, columnsFrom]

/-- Where nothing is matched the search goes on behind one character. -/
theorem columnsFrom_of_size?_eq_none {name done rest : Text} {c : Char}
    (h : size? name done.getLast? (c :: rest) = none) :
    columnsFrom name done.getLast? 0 done.length (c :: rest) =
      columnsFrom name (done ++ [c]).getLast? 0 (done ++ [c]).length rest := by
  rw [columnsFrom, h, List.getLast?_concat, List.length_append, List.length_singleton]

/-- Behind a match the search goes on. -/
theorem columnsFrom_of_size?_eq_length {name done s rest : Text} (hs : s ≠ [])
    (h : size? name done.getLast? (s ++ rest) = some s.length) :
    columnsFrom name done.getLast? 0 done.length (s ++ rest) =
      done.length :: columnsFrom name (done ++ s).getLast? 0 (done ++ s).length rest := by
  obtain ⟨c, s, rfl⟩ := List.exists_cons_of_ne_nil hs
  have hlast : s.getLast?.or (some c) = (done ++ c :: s).getLast? := by
    rw [List.getLast?_append, List.getLast?_cons]
    cases s.getLast? <;> rfl
  have hlength : done.length + 1 + s.length = (done ++ c :: s).length := by
    rw [List.length_append, List.length_cons]
    omega
  rw [List.cons_append] at h
  rw [List.cons_append, columnsFrom, h]
  simp only [List.length_cons, Nat.add_sub_cancel, columnsFrom_skip]
  rw [hlast, hlength]

/-- Whether a declaration starts at a column of a line of code, outside string literals. -/
def startsAt (name code : Text) (column : Nat) : Bool :=
  !insideString code (Text.byteSize (code.take column)) &&
    (size? name (code.take column).getLast? (code.drop column)).isSome

theorem startsAt_length (name s t : Text) : startsAt name (s ++ t) s.length =
    (!(Mode.start.after s).quoted && (size? name s.getLast? t).isSome) := by
  rw [startsAt, List.take_left, List.drop_left, Mode.insideString_eq]

/-- No declaration starts in a plain text inside a literal. -/
theorem startsAt_of_quoted (name : Text) {done s : Text}
    (hq : (Mode.start.after done).quoted = true) (hs : Mode.Plain s) (t : Text) {k : Nat}
    (hk : k ≤ s.length) :
    startsAt name (done ++ (s ++ t)) (done.length + k) = false := by
  have hplain : Mode.Plain (s.take k) := fun c hc => hs c (List.mem_of_mem_take hc)
  have hcut : done ++ (s ++ t) = (done ++ s.take k) ++ (s.drop k ++ t) := by
    rw [List.append_assoc, ← List.append_assoc (s.take k), List.take_append_drop]
  have hlength : done.length + k = (done ++ s.take k).length := by
    rw [List.length_append, List.length_take_of_le hk]
  rw [hcut, hlength, startsAt_length, Mode.after_append, hplain.quoted_after, hq]
  rfl

theorem find?_startsAt_of_quoted (name : Text) {done s : Text}
    (hq : (Mode.start.after done).quoted = true) (hs : Mode.Plain s) (t : Text) :
    (List.range' done.length s.length).find? (startsAt name (done ++ (s ++ t))) = none := by
  rw [List.find?_eq_none]
  intro column hcolumn
  rw [List.mem_range'_1] at hcolumn
  obtain ⟨k, rfl⟩ := Nat.exists_eq_add_of_le hcolumn.1
  rw [startsAt_of_quoted name hq hs t (by omega)]
  simp

theorem isSome_size? (name t : Text) (before : Option Char) :
    (size? name before t).isSome = (!before.any isWord && (after? name t).isSome) := by
  unfold size?
  cases before.any isWord with
  | true => rfl
  | false => simp

/-- Where no match begins the scan finds nothing. -/
theorem afterFn?_of_after?_eq_none {name t : Text} (h : after? name t = none) :
    afterFn? name t = none := by
  unfold after? at h
  exact (Option.or_eq_none_iff.1 h).2

section
variable {name : Text} (hname : isIdentifier name = true)
include hname

/-- What a match covers: plain text, at the beginning of which the scan finds a declaration. -/
theorem exists_of_after? {t rest : Text} (h : after? name t = some rest) :
    ∃ s : Text, s ≠ [] ∧ t = s ++ rest ∧ Mode.Plain s ∧
      ∀ p : Scan, p.mode.quoted = false → p.inWord = false → declaresFrom name p t = true := by
  have hplain : Mode.Plain name := by
    intro c hc
    have hword := isWord_of_mem_name hname c hc
    refine ⟨?_, ?_, ?_⟩ <;> rintro rfl <;> revert hword <;> decide
  have hfn : ∀ {u : Text}, afterFn? name u = some rest → ∃ s : Text, s ≠ [] ∧ u = s ++ rest ∧
      Mode.Plain s ∧
      ∀ p : Scan, p.mode.quoted = false → p.inWord = false → declaresFrom name p u = true := by
    intro u hu
    rcases (afterFn?_eq_some_iff hname).1 hu with ⟨gap, -, hgap, hcut, -⟩
    refine ⟨['f', 'n'] ++ (gap ++ name), by simp, by simp [hcut],
      Mode.Plain.append (by decide) ((Mode.plain_of_gap hgap).append hplain), ?_⟩
    intro p hq hw
    rw [hcut] at hu ⊢
    rw [List.cons_append] at hu ⊢
    rw [declaresFrom, hq, hw, hu]
    rfl
  unfold after? at h
  rcases Option.or_eq_some_iff.1 h with h | ⟨-, h⟩
  · rcases Option.bind_eq_some_iff.1 h with ⟨u, hu, h⟩
    rcases exists_gap_of_afterWordGap? hu with ⟨gap, hne, hgap, ht⟩
    rcases hfn h with ⟨s, hs, hcut, hsplain, hfound⟩
    have hlead : Mode.Plain (['e', 'x', 'p', 'o', 'r', 't'] ++ gap) :=
      Mode.Plain.append (by decide) (Mode.plain_of_gap hgap)
    have ht' : t = (['e', 'x', 'p', 'o', 'r', 't'] ++ gap) ++ u := by rw [ht]; simp
    refine ⟨(['e', 'x', 'p', 'o', 'r', 't'] ++ gap) ++ s, by simp, by rw [ht', hcut]; simp,
      hlead.append hsplain, ?_⟩
    intro p hq hw
    -- the scan comes upon the declaration behind `export`
    rw [ht']
    apply declaresFrom_append_right
    apply hfound
    · rw [Scan.mode_after, hlead.quoted_after, hq]
    · rw [Scan.inWord_after, Text.getLast?_append_right hne,
        List.getLast?_eq_some_getLast hne]
      exact isWord_eq_false_of_isBlank (hgap _ (List.getLast_mem hne))
  · exact hfn h

theorem exists_of_size? {t : Text} {before : Option Char} {size : Nat}
    (h : size? name before t = some size) :
    ∃ s rest : Text, s ≠ [] ∧ t = s ++ rest ∧ Mode.Plain s ∧ size = s.length := by
  unfold size? at h
  split at h
  · simp at h
  · obtain ⟨rest, hrest, rfl⟩ := Option.map_eq_some_iff.1 h
    obtain ⟨s, hs, rfl, hplain, -⟩ := exists_of_after? hname hrest
    exact ⟨s, rest, hs, rfl, hplain, by rw [List.length_append, Nat.add_sub_cancel]⟩

/-- The first match in the rest of a line that is not inside a literal is at the first column at
which a declaration starts. -/
theorem find?_columnsFrom (done rest : Text) :
    (columnsFrom name done.getLast? 0 done.length rest).find? (fun column =>
      !insideString (done ++ rest) (Text.byteSize ((done ++ rest).take column))) =
      (List.range' done.length rest.length).find? (startsAt name (done ++ rest)) := by
  induction hn : rest.length using Nat.strongRecOn generalizing done rest with
  | _ n ih =>
    subst hn
    cases hrest : rest with
    | nil => rfl
    | cons c more =>
      cases hsize : size? name done.getLast? (c :: more) with
      | none =>
        have hhere : startsAt name (done ++ c :: more) done.length = false := by
          rw [startsAt_length, hsize]
          simp
        have hmore := ih more.length (by simp [hrest]) (done ++ [c]) more rfl
        rw [List.append_assoc, List.singleton_append] at hmore
        rw [columnsFrom_of_size?_eq_none hsize, hmore, List.length_cons, List.range'_succ,
          List.find?_cons, hhere, List.length_append, List.length_singleton]
      | some size =>
        obtain ⟨s, after, hs, hcut, hplain, rfl⟩ := exists_of_size? hname hsize
        have hafter := ih after.length (by
          have := List.length_pos_iff.2 hs
          rw [hrest, hcut, List.length_append]
          omega) (done ++ s) after rfl
        have hhere : startsAt name (done ++ (s ++ after)) done.length =
            !(Mode.start.after done).quoted := by
          rw [hcut] at hsize
          rw [startsAt_length, hsize, Option.isSome_some, Bool.and_true]
        rw [List.append_assoc] at hafter
        rw [hcut] at hsize ⊢
        rw [columnsFrom_of_size?_eq_length hs hsize, List.find?_cons, hafter, List.take_left,
          Mode.insideString_eq]
        cases hq : (Mode.start.after done).quoted with
        | false =>
          obtain ⟨d, s, rfl⟩ := List.exists_cons_of_ne_nil hs
          rw [List.cons_append, List.length_cons, List.range'_succ, List.find?_cons,
            ← List.cons_append, hhere, hq]
          rfl
        | true =>
          -- all of the match is inside the literal, and so is whatever starts in it
          have hnone := find?_startsAt_of_quoted name hq hplain after
          rw [@List.length_append _ s, ← List.range'_append_1, List.find?_append, hnone,
            Option.none_or, List.length_append]
          rfl

/-- The first declaration of a line of code is at the first column at which one starts. -/
theorem inCode?_eq (code : Text) :
    inCode? name code = (List.range code.length).find? (startsAt name code) := by
  rw [List.range_eq_range']
  exact find?_columnsFrom hname [] code

/-- A declaration starts at some column if and only if the scan comes upon one. -/
theorem any_startsAt (done rest : Text) :
    (List.range' done.length rest.length).any (startsAt name (done ++ rest)) =
      declaresFrom name (Scan.start.after done) rest := by
  induction rest generalizing done with
  | nil => rfl
  | cons c rest ih =>
    have hrest := ih (done ++ [c])
    rw [List.length_append, List.length_singleton, List.append_assoc, List.singleton_append,
      Scan.after_append] at hrest
    rw [List.length_cons, List.range'_succ, List.any_cons, hrest, startsAt_length,
      isSome_size?, ← Scan.inWord_after_start, ← Bool.and_assoc]
    have hmode : (Scan.start.after done).mode = Mode.start.after done := Scan.mode_after _ _
    rw [← hmode, declaresFrom]
    cases hafter : after? name (c :: rest) with
    | none => rw [afterFn?_of_after?_eq_none hafter]; rfl
    | some t =>
      cases hq : (Scan.start.after done).mode.quoted with
      | true => rfl
      | false =>
        cases hw : (Scan.start.after done).inWord with
        | true => rfl
        | false =>
          -- a match starts here, and the scan comes upon it by its end
          obtain ⟨s, -, -, -, hfound⟩ := exists_of_after? hname hafter
          have hhere := hfound (Scan.start.after done) hq hw
          rw [declaresFrom, hq, hw] at hhere
          exact hhere.symm

/-- The matches and the scan agree on whether a line of code declares a name. -/
theorem isSome_inCode? (code : Text) : (inCode? name code).isSome = declares name code := by
  have hscan := any_startsAt hname [] code
  rw [inCode?_eq hname, List.isSome_find?, List.range_eq_range']
  exact hscan

end

end Declaration

end YapAssist
