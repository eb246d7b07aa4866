/-!
# Texts

A text is the list of its characters. Offsets into a text count UTF-8 bytes, columns count
characters, so the two measures live side by side:

* `Text.byteSize`, the size of a text in bytes;
* `Text.cutAt?`, the two halves of a text around a byte offset;
* `Text.after?`, what follows a given beginning;
* `Text.cutAtEach` and `Text.joinWith`, the pieces between separators, of a text or of its bytes.
-/

namespace YapAssist

/-- A text: its characters from first to last. -/
abbrev Text := List Char

namespace Text

/-- The size of a text in UTF-8 bytes, the unit of every offset. -/
def byteSize : Text → Nat
  | [] => 0
  | c :: rest => c.utf8Size + byteSize rest

@[simp] theorem byteSize_nil : byteSize [] = 0 := rfl

@[simp] theorem byteSize_cons (c : Char) (t : Text) :
    byteSize (c :: t) = c.utf8Size + byteSize t := rfl

@[simp] theorem byteSize_append (s t : Text) :
    byteSize (s ++ t) = byteSize s + byteSize t := by
  induction s with
  | nil => simp
  | cons c s ih => simp [ih, Nat.add_assoc]

/-- The two halves of a text around a byte offset; `none` past its end or inside a character. -/
def cutAt? : Text → Nat → Option (Text × Text)
  | text, 0 => some ([], text)
  | [], _ + 1 => none
  | c :: rest, n + 1 =>
    if c.utf8Size ≤ n + 1 then
      (cutAt? rest (n + 1 - c.utf8Size)).map fun halves => (c :: halves.1, halves.2)
    else none

/-- What follows `lead` at the beginning of a text. -/
def after? : (lead text : Text) → Option Text
  | [], text => some text
  | _ :: _, [] => none
  | a :: lead, c :: text => if a = c then after? lead text else none

theorem after?_eq_some_iff {lead text rest : Text} :
    after? lead text = some rest ↔ text = lead ++ rest := by
  induction lead generalizing text with
  | nil => simp [after?, eq_comm]
  | cons a lead ih =>
    cases text with
    | nil => simp [after?]
    | cons c text =>
      by_cases h : a = c
      · simp [after?, h, ih]
      · simp [after?, h, Ne.symm h]

/-- Whether a text begins with `lead`. -/
def startsWith (text lead : Text) : Bool := (after? lead text).isSome

/-- The text without its ending `tail`, if it has one. -/
def before? (tail text : Text) : Option Text :=
  (after? tail.reverse text.reverse).map List.reverse

section
variable {α : Type} [DecidableEq α]

/-- The pieces of a text between the occurrences of a separating character; at least one. -/
def cutAtEach (mark : α) : List α → List (List α)
  | [] => [[]]
  | c :: rest =>
    if c = mark then [] :: cutAtEach mark rest
    else
      match cutAtEach mark rest with
      | [] => [[c]]
      | piece :: pieces => (c :: piece) :: pieces

/-- The two sides of the last occurrence of a separating character. -/
def cutAtLast? (mark : α) (t : List α) : Option (List α × List α) :=
  match t.reverse.dropWhile (· != mark) with
  | [] => none
  | _ :: before => some (before.reverse, (t.reverse.takeWhile (· != mark)).reverse)

end

/-- The pieces with `glue` between any two neighbours. -/
def joinWith {α : Type} (glue : List α) (pieces : List (List α)) : List α :=
  (pieces.intersperse glue).flatten

end Text

end YapAssist
