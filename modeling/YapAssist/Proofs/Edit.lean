import Mathlib.Data.List.Pairwise
import YapAssist.Edit
import YapAssist.Proofs.Position
import YapAssist.Proofs.Sorting

/-!
# Batches of edits

The edits of a batch all refer to the text before any of them, and they are carried out one after
the other. As long as their ranges do not overlap, the outcome is that of replacing all ranges at
once (`Edit.Substituted`): what lies between the ranges is kept.

* `Edit.replaceAll?_of_substituted`, ranges that are replaced from the last to the first do not move
  those still to come;
* `Edit.exists_substituted`, ranges in a row can be replaced at once;
* `Edit.applyAll?_substituted`, the two agree on every batch without overlaps;
* `Edit.applyAll?_insert` and `Edit.applyAll?_whole`, what a single insertion and the replacement of
  the whole text make of a text.
-/

namespace YapAssist

namespace Text

theorem eq_nil_of_byteSize {t : Text} (h : t.byteSize = 0) : t = [] := by
  have hlength := t.length_le_byteSize
  exact List.eq_nil_of_length_eq_zero (by omega)

/-- Of two beginnings of a text the smaller one is a beginning of the other. -/
theorem exists_append_of_byteSize_le {s t u v : Text} (h : s ++ t = u ++ v)
    (hsize : s.byteSize ≤ u.byteSize) : ∃ mid, u = s ++ mid ∧ t = mid ++ v := by
  obtain hmid | ⟨mid, rfl, rfl⟩ := List.append_eq_append_iff.1 h
  · exact hmid
  · have hnil : mid = [] := eq_nil_of_byteSize (by rw [byteSize_append] at hsize; omega)
    exact ⟨[], by simp [hnil], by simp [hnil]⟩

end Text

namespace Edit

/-! ## A single edit -/

/-- A range covers `removed` behind `kept`. -/
structure Resolved.Covers (e : Resolved) (kept removed : Text) : Prop where
  first : e.first = kept.byteSize
  last : e.last = kept.byteSize + removed.byteSize

theorem Resolved.Covers.replace? {e : Resolved} {kept removed : Text} (h : e.Covers kept removed)
    (rest : Text) :
    e.replace? (kept ++ (removed ++ rest)) = some (kept ++ (e.newText ++ rest)) := by
  have hsize : e.last - e.first = removed.byteSize := by
    rw [h.first, h.last]
    omega
  rw [Resolved.replace?, hsize, h.first, Text.cutAt?_byteSize, Option.bind_some,
    Text.cutAt?_byteSize, Option.map_some, List.append_assoc]

theorem applyAll?_singleton (text : Text) (e : Edit) :
    applyAll? text [e] = (resolve text e).replace? text := by
  show ((resolve text e).replace? text).bind some = _
  rw [Option.bind_fun_some]

/-- A single insertion puts its text between the two halves of the text at its place. -/
theorem applyAll?_insert {s t : Text} {p : Position} (h : p.toOffset (s ++ t) = s.byteSize)
    (newText : Text) :
    applyAll? (s ++ t) [.insert p newText] = some (s ++ newText ++ t) := by
  have hcovers : (resolve (s ++ t) (.insert p newText)).Covers s [] :=
    ⟨h, (Nat.max_self _).trans h⟩
  rw [applyAll?_singleton, List.append_assoc]
  exact hcovers.replace? t

/-- The edit that replaces a whole text leaves the carriage returns at its end behind. -/
theorem applyAll?_whole (text newText : Text) :
    applyAll? text [⟨⟨Position.start, Position.ofOffset text text.byteSize⟩, newText⟩] =
      some (newText ++ text.returns) := by
  have hcovers : (resolve text
      ⟨⟨Position.start, Position.ofOffset text text.byteSize⟩, newText⟩).Covers []
        text.dropReturns := by
    refine ⟨Position.toOffset_start text, ?_⟩
    show max (Position.start.toOffset text)
      ((Position.ofOffset text text.byteSize).toOffset text) = _
    rw [Position.toOffset_start, Position.toOffset_ofOffset_end, Text.byteSize_nil]
    omega
  have hreplace := hcovers.replace? text.returns
  rw [List.nil_append, Text.dropReturns_append_returns] at hreplace
  rw [applyAll?_singleton, hreplace]
  rfl

/-! ## All ranges at once -/

/-- `result` is `text`, which starts at byte `offset`, with the ranges of `edits` replaced from the
first to the last. What lies between the ranges is kept. -/
inductive Substituted : (offset : Nat) → (text : Text) → (edits : List Resolved) →
    (result : Text) → Prop
  | kept (offset : Nat) (text : Text) : Substituted offset text [] text
  | replaced {offset : Nat} {kept removed rest result : Text} {e : Resolved}
      {edits : List Resolved} (hfirst : e.first = offset + kept.byteSize)
      (hlast : e.last = e.first + removed.byteSize) (hrest : Substituted e.last rest edits result) :
    Substituted offset (kept ++ (removed ++ rest)) (e :: edits) (kept ++ (e.newText ++ result))

theorem replaceAll?_append (text : Text) (front back : List Resolved) :
    replaceAll? text (front ++ back) = (replaceAll? text front).bind (replaceAll? · back) := by
  induction front generalizing text with
  | nil => rfl
  | cons e front ih =>
    rw [List.cons_append, replaceAll?, replaceAll?, Option.bind_assoc]
    exact congrArg _ (funext ih)

/-- Ranges replaced one after the other, from the last to the first, are replaced at once: what
stands before a range is still as it was when its turn comes. -/
theorem replaceAll?_of_substituted {offset : Nat} {text result : Text} {edits : List Resolved}
    (h : Substituted offset text edits result) {done : Text} (hdone : done.byteSize = offset) :
    replaceAll? (done ++ text) edits.reverse = some (done ++ result) := by
  induction h generalizing done with
  | kept offset text => rfl
  | @replaced offset kept removed rest result e edits hfirst hlast _ ih =>
    have hcovers : e.Covers (done ++ kept) removed := by
      constructor
      · rw [hfirst, Text.byteSize_append, hdone]
      · rw [hlast, hfirst, Text.byteSize_append, hdone]
    have hbehind : (done ++ kept ++ removed).byteSize = e.last := by
      rw [Text.byteSize_append, hcovers.last]
    have hlater := ih hbehind
    have hhere := hcovers.replace? result
    simp only [List.append_assoc] at hlater hhere ⊢
    rw [List.reverse_cons, replaceAll?_append, hlater, Option.bind_some, replaceAll?, hhere]
    rfl

/-- A range of a text. -/
def Resolved.IsIn (e : Resolved) (text : Text) : Prop :=
  ∃ kept removed rest, text = kept ++ (removed ++ rest) ∧ e.Covers kept removed

theorem isIn_resolve (text : Text) (e : Edit) : (resolve text e).IsIn text := by
  obtain ⟨s, t, hfirst, hs⟩ := Position.exists_toOffset text e.span.first
  obtain ⟨u, v, hlast, hu⟩ := Position.exists_toOffset text e.span.last
  have hend : (resolve text e).last = max s.byteSize u.byteSize := by
    rw [← hs, ← hu]
    rfl
  rcases Nat.le_total s.byteSize u.byteSize with hle | hle
  · obtain ⟨mid, rfl, rfl⟩ := Text.exists_append_of_byteSize_le (hfirst.symm.trans hlast) hle
    refine ⟨s, mid, v, hfirst, hs, ?_⟩
    rw [hend, Nat.max_eq_right hle, Text.byteSize_append]
  · -- a span that ends before it starts is empty
    refine ⟨s, [], t, hfirst, hs, ?_⟩
    rw [hend, Nat.max_eq_left hle]
    rfl

/-- Ranges of a text of which each ends before the next one starts can be replaced at once. -/
theorem exists_substituted {done rest : Text} {edits : List Resolved}
    (hin : ∀ e ∈ edits, e.IsIn (done ++ rest)) (hbehind : ∀ e ∈ edits, done.byteSize ≤ e.first)
    (hrow : edits.Pairwise fun a b => a.last ≤ b.first) :
    ∃ result, Substituted done.byteSize rest edits result := by
  induction edits generalizing done rest with
  | nil => exact ⟨rest, .kept _ rest⟩
  | cons e edits ih =>
    obtain ⟨kept, removed, later, hcut, hcovers⟩ := hin e List.mem_cons_self
    have hstart := hbehind e List.mem_cons_self
    rw [hcovers.first] at hstart
    obtain ⟨between, rfl, rfl⟩ := Text.exists_append_of_byteSize_le hcut hstart
    have hsize : (done ++ between ++ removed).byteSize = e.last := by
      rw [Text.byteSize_append, hcovers.last]
    obtain ⟨hnext, hrow⟩ := List.pairwise_cons.1 hrow
    have hlater : ∀ b ∈ edits, b.IsIn (done ++ between ++ removed ++ later) := by
      intro b hb
      simpa using hin b (List.mem_cons_of_mem e hb)
    rw [← hsize] at hnext
    obtain ⟨result, hresult⟩ := ih hlater hnext hrow
    rw [hsize] at hresult
    refine ⟨between ++ (e.newText ++ result), .replaced ?_ ?_ hresult⟩
    · rw [hcovers.first, Text.byteSize_append]
    · rw [hcovers.last, hcovers.first]

/-! ## The order of a batch -/

/-- Two ranges do not overlap: one ends before the other starts, or where it does. -/
def Resolved.Apart (a b : Resolved) : Prop := a.last ≤ b.first ∨ b.last ≤ a.first

instance : DecidableRel Resolved.Apart := fun a b =>
  inferInstanceAs (Decidable (a.last ≤ b.first ∨ b.last ≤ a.first))

/-- Whether a range is empty. -/
def Resolved.isInsertion (e : Resolved) : Bool := e.first == e.last

/-- The edits of a batch from the first to the last by their ranges. Of edits with the same range
the last one comes first. -/
structure Arranged (batch arranged : List Resolved) : Prop where
  perm : arranged.Perm batch
  ascending : arranged.Pairwise fun a b =>
    a.first < b.first ∨ a.first = b.first ∧ a.last ≤ b.last
  ties : ∀ first last, arranged.filter (fun e => e.first == first && e.last == last) =
    (batch.filter fun e => e.first == first && e.last == last).reverse

theorem Resolved.before_iff {a b : Resolved} :
    a.before b = true ↔ b.first < a.first ∨ b.first = a.first ∧ b.last ≤ a.last := by
  rw [before, Bool.or_eq_true, Bool.and_eq_true, decide_eq_true_eq, decide_eq_true_eq, beq_iff_eq,
    eq_comm (a := a.first)]

theorem Resolved.before_total (a b : Resolved) : a.before b = true ∨ b.before a = true := by
  rw [before_iff, before_iff]
  omega

theorem Resolved.before_trans (a b c : Resolved) (hab : a.before b = true)
    (hbc : b.before c = true) : a.before c = true := by
  rw [before_iff] at *
  omega

/-- A batch is carried out from the last to the first edit of its arrangement. -/
theorem arranged_sortBy (batch : List Resolved) :
    Arranged batch (sortBy Resolved.before batch).reverse := by
  refine ⟨(List.reverse_perm _).trans (sortBy_perm _ batch), ?_, ?_⟩
  · rw [List.pairwise_reverse]
    apply (pairwise_sortBy Resolved.before_total Resolved.before_trans batch).imp
    intro a b h
    exact Resolved.before_iff.1 h
  · intro first last
    rw [List.filter_reverse, filter_sortBy]
    intro a b ha hb
    simp only [Bool.and_eq_true, beq_iff_eq] at ha hb
    rw [Resolved.before_iff]
    omega

theorem Resolved.IsIn.first_le_last {e : Resolved} {text : Text} (h : e.IsIn text) :
    e.first ≤ e.last := by
  obtain ⟨kept, removed, rest, -, hcovers⟩ := h
  rw [hcovers.first, hcovers.last]
  omega

/-- Ranges that do not overlap stand in a row when they are arranged. -/
theorem Arranged.row {batch arranged : List Resolved} (h : Arranged batch arranged)
    (hbatch : ∀ e ∈ batch, e.first ≤ e.last) (hapart : batch.Pairwise Resolved.Apart) :
    arranged.Pairwise fun a b => a.last ≤ b.first := by
  have hpairs : arranged.Pairwise Resolved.Apart := h.perm.symm.pairwise hapart Or.symm
  apply (h.ascending.and hpairs).imp_of_mem
  rintro a b ha hb ⟨hascending, hab⟩
  have hfirst := hbatch a (h.perm.mem_iff.1 ha)
  have hlast := hbatch b (h.perm.mem_iff.1 hb)
  rw [Resolved.Apart] at hab
  omega

/-- Of ranges that do not overlap two are the same only if both are empty. -/
theorem eq_of_apart {batch : List Resolved} (hbatch : ∀ e ∈ batch, e.first ≤ e.last)
    (hapart : batch.Pairwise Resolved.Apart)
    (hinsertions : batch.Pairwise fun a b =>
      a.isInsertion = true → b.isInsertion = true → a.first ≠ b.first)
    {a b : Resolved} (ha : a ∈ batch) (hb : b ∈ batch) (hfirst : a.first = b.first)
    (hlast : a.last = b.last) : a = b := by
  by_contra hne
  have : Std.Symm fun a b : Resolved => a.Apart b ∧
      (a.isInsertion = true → b.isInsertion = true → a.first ≠ b.first) :=
    ⟨fun a b h => ⟨h.1.symm, fun hb ha => (h.2 ha hb).symm⟩⟩
  obtain ⟨hab, hplace⟩ := (hapart.and hinsertions).forall ha hb hne
  have hle := hbatch a ha
  rw [Resolved.Apart] at hab
  have hempty : a.first = a.last ∧ b.first = b.last := by omega
  exact hplace (beq_iff_eq.2 hempty.1) (beq_iff_eq.2 hempty.2) hfirst

/-! ## Batches without overlaps -/

/-- The edits of a batch without overlaps are carried out, and the outcome is the text with all
their ranges replaced at once. The order of the batch matters only to insertions at the same
place. -/
theorem applyAll?_substituted (text : Text) (edits : List Edit)
    (hapart : (edits.map (resolve text)).Pairwise Resolved.Apart) :
    (∃ arranged result, Arranged (edits.map (resolve text)) arranged ∧
      Substituted 0 text arranged result ∧ applyAll? text edits = some result) ∧
    ((edits.map (resolve text)).Pairwise (fun a b =>
        a.isInsertion = true → b.isInsertion = true → a.first ≠ b.first) →
      ∀ edits' : List Edit, edits'.Perm edits → applyAll? text edits' = applyAll? text edits) := by
  have hin : ∀ e ∈ edits.map (resolve text), e.IsIn text := by
    intro e he
    obtain ⟨edit, -, rfl⟩ := List.mem_map.1 he
    exact isIn_resolve text edit
  have hbatch : ∀ e ∈ edits.map (resolve text), e.first ≤ e.last := fun e he =>
    (hin e he).first_le_last
  refine ⟨?_, ?_⟩
  · have harranged := arranged_sortBy (edits.map (resolve text))
    obtain ⟨result, hresult⟩ : ∃ result, Substituted (Text.byteSize []) text
        (sortBy Resolved.before (edits.map (resolve text))).reverse result := by
      apply exists_substituted
      · intro e he
        exact hin e (harranged.perm.mem_iff.1 he)
      · intro e _
        exact Nat.zero_le _
      · exact harranged.row hbatch hapart
    have happly := replaceAll?_of_substituted hresult rfl
    rw [List.reverse_reverse] at happly
    exact ⟨_, result, harranged, hresult, happly⟩
  · intro hinsertions edits' hperm
    have hsame : sortBy Resolved.before (edits.map (resolve text)) =
        sortBy Resolved.before (edits'.map (resolve text)) := by
      apply sortBy_eq_of_perm Resolved.before_total Resolved.before_trans (hperm.symm.map _)
      intro a b ha hb hab hba
      rw [Resolved.before_iff] at hab hba
      exact eq_of_apart hbatch hapart hinsertions ha hb (by omega) (by omega)
    rw [applyAll?, applyAll?, hsame]

/-- Two insertions at the place where a replacement starts: the later one of the batch comes first,
and both come before the replacement. -/
theorem applyAll?_substituted_ties :
    ∃ text batch, text = "abc".toList ∧
      batch = [.insert ⟨0, 1⟩ ['X'], ⟨⟨⟨0, 1⟩, ⟨0, 2⟩⟩, ['Z']⟩, .insert ⟨0, 1⟩ ['Y']] ∧
      (batch.map (resolve text)).Pairwise Resolved.Apart ∧
      (∃ arranged, Arranged (batch.map (resolve text)) arranged ∧
        Substituted 0 text arranged "aYXZc".toList) ∧
      ((batch.drop 1).map (resolve text)).Pairwise Resolved.Apart ∧
      ((batch.drop 1).map (resolve text)).Pairwise (fun a b =>
        a.isInsertion = true → b.isInsertion = true → a.first ≠ b.first) ∧
      applyAll? text (batch.drop 1).reverse = applyAll? text (batch.drop 1) := by
  refine ⟨_, _, rfl, rfl, by decide, ?_, by decide, by decide, ?_⟩
  · obtain ⟨arranged, result, harranged, hresult, happly⟩ :=
      (applyAll?_substituted "abc".toList
        [.insert ⟨0, 1⟩ ['X'], ⟨⟨⟨0, 1⟩, ⟨0, 2⟩⟩, ['Z']⟩, .insert ⟨0, 1⟩ ['Y']] (by decide)).1
    obtain rfl : "aYXZc".toList = result := by
      rw [← Option.some.injEq, ← happly]
      decide
    exact ⟨arranged, harranged, hresult⟩
  · exact (applyAll?_substituted _ _ (by decide)).2 (by decide) _ (List.reverse_perm _)

end Edit

end YapAssist
