import Mathlib.Order.Monotone.Defs
import YapAssist.Proofs.Edit

/-!
# The order of positions

Positions are ordered by their lines, and on one line by their columns. Offsets follow that order,
also where a position points past the end of its line or of the text and is moved back:

* `Text.isSome_cutAt?_iff`, a text can be cut between its characters (`Text.IsBoundary`) and nowhere
  else;
* `Position.monotone_toOffset`, a later position does not lead to an earlier offset;
* `Position.strictMonoOn_ofOffset`, of two boundaries the later one has the later position;
* `Position.offsets_positions_ordered`, both ways together;
* `Edit.resolve_of_le`, a span with its ends in order covers what lies between their offsets.
-/

namespace YapAssist

namespace Text

/-! ## Where a text can be cut -/

/-- The offsets between two characters of a text, and those of its two ends. -/
def IsBoundary (text : Text) (offset : Nat) : Prop :=
  ∃ s t, text = s ++ t ∧ offset = s.byteSize

theorem eq_append_of_cutAt? {text s t : Text} {offset : Nat}
    (h : text.cutAt? offset = some (s, t)) : text = s ++ t ∧ offset = s.byteSize := by
  fun_induction cutAt? text offset generalizing s with
  | case1 text =>
    simp only [Option.some.injEq, Prod.mk.injEq] at h
    obtain ⟨rfl, rfl⟩ := h
    exact ⟨rfl, rfl⟩
  | case2 n => simp at h
  | case3 c rest n hsize ih =>
    obtain ⟨⟨front, back⟩, hcut, heq⟩ := Option.map_eq_some_iff.1 h
    simp only [Prod.mk.injEq] at heq
    obtain ⟨rfl, rfl⟩ := heq
    obtain ⟨hrest, hfront⟩ := ih hcut
    refine ⟨by rw [hrest, List.cons_append], ?_⟩
    rw [byteSize_cons]
    omega
  | case4 c rest n hsize => simp at h

/-- A text can be cut at its boundaries and nowhere else. -/
theorem isSome_cutAt?_iff {text : Text} {offset : Nat} :
    (text.cutAt? offset).isSome = true ↔ text.IsBoundary offset := by
  constructor
  · intro h
    obtain ⟨⟨s, t⟩, hcut⟩ := Option.isSome_iff_exists.1 h
    exact ⟨s, t, eq_append_of_cutAt? hcut⟩
  · rintro ⟨s, t, rfl, rfl⟩
    rw [cutAt?_byteSize, Option.isSome_some]

instance (text : Text) : DecidablePred text.IsBoundary :=
  fun _ => decidable_of_iff _ isSome_cutAt?_iff

theorem IsBoundary.le_byteSize {text : Text} {offset : Nat} (h : text.IsBoundary offset) :
    offset ≤ text.byteSize := by
  obtain ⟨s, t, rfl, rfl⟩ := h
  exact byteSize_le_of_isPrefix (List.prefix_append s t)

end Text

namespace Position

/-! ## Lines before columns -/

/-- One place does not come after another one: lines first, then columns. -/
def NotAfter (p q : Position) : Prop :=
  p.line < q.line ∨ p.line = q.line ∧ p.character ≤ q.character

theorem NotAfter.antisymm {p q : Position} (hpq : p.NotAfter q) (hqp : q.NotAfter p) : p = q := by
  obtain ⟨pline, pcharacter⟩ := p
  obtain ⟨qline, qcharacter⟩ := q
  unfold NotAfter at hpq hqp
  simp only [mk.injEq]
  simp only at hpq hqp
  omega

instance : LE Position := ⟨NotAfter⟩

theorem le_iff {p q : Position} :
    p ≤ q ↔ p.line < q.line ∨ p.line = q.line ∧ p.character ≤ q.character := Iff.rfl

instance : LinearOrder Position where
  le_refl p := .inr ⟨rfl, Nat.le_refl _⟩
  le_trans p q r hpq hqr := by
    rw [le_iff] at *
    omega
  le_antisymm p q := NotAfter.antisymm
  le_total p q := by
    rw [le_iff, le_iff]
    omega
  toDecidableLE p q := decidable_of_iff _ le_iff.symm
  toDecidableEq := inferInstance

theorem lt_iff {p q : Position} :
    p < q ↔ p.line < q.line ∨ p.line = q.line ∧ p.character < q.character := by
  rw [lt_iff_le_not_ge, le_iff, le_iff]
  omega

/-! ## From positions to offsets -/

/-- Among blocks of lines a later place has no smaller offset. Each block ends before the next one
begins, so a column that is moved back stays in front of all later lines. -/
theorem offsetIn_le_offsetIn (blocks : List Text) {line column line' column' : Nat}
    (h : (⟨line, column⟩ : Position) ≤ ⟨line', column'⟩) :
    offsetIn blocks line column ≤ offsetIn blocks line' column' := by
  rw [le_iff] at h
  induction blocks generalizing line line' with
  | nil => exact Nat.le_refl 0
  | cons block blocks ih =>
    cases line with
    | zero =>
      cases line' with
      | zero =>
        have hcolumn : column ≤ column' := by simpa using h
        exact Text.byteSize_le_of_isPrefix (List.take_prefix_take_left hcolumn)
      | succ line' =>
        have hblock : block.columns.take column <+: block :=
          (List.take_prefix _ _).trans (Text.columns_isPrefix block)
        exact (Text.byteSize_le_of_isPrefix hblock).trans (Nat.le_add_right _ _)
    | succ line =>
      cases line' with
      | zero => simp at h
      | succ line' =>
        apply Nat.add_le_add_left
        apply ih
        simpa using h

/-- Offsets follow the order of positions. -/
theorem monotone_toOffset (text : Text) : Monotone (toOffset text) :=
  fun _ _ h => offsetIn_le_offsetIn text.blocks h

theorem isBoundary_toOffset (text : Text) (p : Position) : text.IsBoundary (p.toOffset text) :=
  exists_toOffset text p

/-! ## From offsets to positions -/

theorem lt_next (p : Position) (c : Char) : p < p.next c := by
  rw [lt_iff, next]
  split
  · exact .inl (Nat.lt_succ_self _)
  · exact .inr ⟨rfl, Nat.lt_succ_self _⟩

theorem le_foldl_next (t : Text) (p : Position) : p ≤ t.foldl next p := by
  induction t generalizing p with
  | nil => exact le_refl p
  | cons c t ih => exact (p.lt_next c).le.trans (ih _)

theorem lt_foldl_next {t : Text} (h : t ≠ []) (p : Position) : p < t.foldl next p := by
  cases t with
  | nil => exact absurd rfl h
  | cons c t => exact (p.lt_next c).trans_le (le_foldl_next t _)

/-- Positions follow the order of the boundaries of a text: at least one character stands between
two of them. -/
theorem strictMonoOn_ofOffset (text : Text) :
    StrictMonoOn (ofOffset text) {offset | text.IsBoundary offset} := by
  rintro _ ⟨s, t, rfl, rfl⟩ _ ⟨u, v, hcut, rfl⟩ hlt
  obtain ⟨mid, rfl, rfl⟩ := Text.exists_append_of_byteSize_le hcut hlt.le
  have hmid : mid ≠ [] := by
    rintro rfl
    simp at hlt
  rw [ofOffset_byteSize, hcut, ofOffset_byteSize, List.foldl_append]
  exact lt_foldl_next hmid _

/-! ## Both ways -/

/-- Offsets and positions are in the same order. A position that does not come after another one
leads to an offset that is not larger, also past the end of a line or of the text, and every
position leads to a boundary of the text. Of two boundaries the smaller one has the earlier
position, also when positions are held in words. -/
theorem offsets_positions_ordered (text : Text) :
    Monotone (toOffset text) ∧
    (∀ p : Position, p.toOffset text ≤ text.byteSize ∧ text.IsBoundary (p.toOffset text)) ∧
    StrictMonoOn (ofOffset text) {offset | text.IsBoundary offset} ∧
    (text.byteSize < UInt32.size →
      StrictMonoOn (fun offset => (ofOffset text offset).words)
        {offset | text.IsBoundary offset}) := by
  have hstrict := strictMonoOn_ofOffset text
  refine ⟨monotone_toOffset text, ?_, hstrict, ?_⟩
  · intro p
    have hplace := isBoundary_toOffset text p
    exact ⟨hplace.le_byteSize, hplace⟩
  · intro hsize
    simpa only [words_ofOffset hsize] using hstrict

/-- A column past the end of a line that ends with a carriage return, the line below, and a line
past the last one; the offset inside a character is no boundary. -/
theorem offsets_positions_ordered_past_ends :
    ∃ text : Text, text = "é\r\nab".toList ∧
      toOffset text ⟨0, 9⟩ = 2 ∧ toOffset text ⟨1, 0⟩ = 4 ∧ toOffset text ⟨7, 3⟩ = 6 ∧
      (⟨0, 9⟩ : Position) ≤ ⟨1, 0⟩ ∧ toOffset text ⟨0, 9⟩ ≤ toOffset text ⟨1, 0⟩ ∧
      (⟨1, 0⟩ : Position) ≤ ⟨7, 3⟩ ∧ toOffset text ⟨1, 0⟩ ≤ toOffset text ⟨7, 3⟩ ∧
      toOffset text ⟨7, 3⟩ ≤ text.byteSize ∧ text.IsBoundary (toOffset text ⟨0, 9⟩) ∧
      text.IsBoundary 2 ∧ text.IsBoundary 3 ∧ ¬ text.IsBoundary 1 ∧
      ofOffset text 2 < ofOffset text 3 ∧ text.byteSize < UInt32.size ∧
      (ofOffset text 2).words < (ofOffset text 3).words := by
  let text : Text := "é\r\nab".toList
  obtain ⟨hmono, hplace, hstrict, hwords⟩ := offsets_positions_ordered text
  have hline : (⟨0, 9⟩ : Position) ≤ ⟨1, 0⟩ := by decide
  have hlast : (⟨1, 0⟩ : Position) ≤ ⟨7, 3⟩ := by decide
  have htwo : text.IsBoundary 2 := by decide
  have hthree : text.IsBoundary 3 := by decide
  have hlt : 2 < 3 := by decide
  have hsize : text.byteSize < UInt32.size := by decide
  exact ⟨text, rfl, by decide, by decide, by decide, hline, hmono hline, hlast, hmono hlast,
    (hplace _).1, (hplace _).2, htwo, hthree, by decide, hstrict htwo hthree hlt, hsize,
    hwords hsize htwo hthree hlt⟩

end Position

/-! ## Spans with their ends in order -/

/-- A span with its ends in order covers what lies between their offsets: only a span that is turned
round is cut down to nothing. -/
theorem Edit.resolve_of_le (text : Text) {e : Edit} (h : e.span.first ≤ e.span.last) :
    e.resolve text = ⟨e.span.first.toOffset text, e.span.last.toOffset text, e.newText⟩ := by
  rw [Edit.resolve, Nat.max_eq_right (Position.monotone_toOffset text h)]

end YapAssist
