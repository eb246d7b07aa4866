import YapAssist.Position
import YapAssist.Sorting

/-!
# Edits

An edit replaces the text of a span by a new text. All edits of one batch refer to the text before
any of them: they are carried out from the last to the first, so that an edit does not move the
place of those still to come. Edits that overlap may end up cutting outside the text or inside a
character; then there is no result.
-/

namespace YapAssist

/-- A replacement of a span of a text. -/
structure Edit where
  span : Span
  newText : Text
  deriving DecidableEq, Repr

namespace Edit

/-- The edit that inserts a text at a position. -/
def insert (p : Position) (newText : Text) : Edit := ⟨Span.empty p, newText⟩

/-- Whether an edit removes nothing. -/
def isInsertion (e : Edit) : Bool := e.span.isEmpty

/-- An edit with its span in byte offsets. -/
structure Resolved where
  first : Nat
  last : Nat
  newText : Text
  deriving DecidableEq, Repr

/-- The byte offsets of an edit; a span that ends before it starts is empty. -/
def resolve (text : Text) (e : Edit) : Resolved :=
  let first := e.span.first.toOffset text
  ⟨first, max first (e.span.last.toOffset text), e.newText⟩

/-- Whether `a` is carried out before `b`, or in the order of the batch: later places first. -/
def Resolved.before (a b : Resolved) : Bool :=
  b.first < a.first || (a.first == b.first && b.last ≤ a.last)

/-- The text with the bytes of one edit replaced. -/
def Resolved.replace? (text : Text) (e : Resolved) : Option Text :=
  (text.cutAt? e.first).bind fun halves =>
    (halves.2.cutAt? (e.last - e.first)).map fun removed => halves.1 ++ e.newText ++ removed.2

/-- The text after the edits of a list, one after the other. -/
def replaceAll? : Text → List Resolved → Option Text
  | text, [] => some text
  | text, e :: edits => (e.replace? text).bind fun next => replaceAll? next edits

/-- The text after a batch of edits that all refer to it. -/
def applyAll? (text : Text) (edits : List Edit) : Option Text :=
  replaceAll? text (sortBy Resolved.before (edits.map (resolve text)))

/-- The text after a batch of edits; unchanged where `applyAll?` has no result. -/
def applyAll (text : Text) (edits : List Edit) : Text := (applyAll? text edits).getD text

end Edit

end YapAssist
