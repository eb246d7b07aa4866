import YapAssist.Text.Basic

/-!
# Blank characters

A character is blank when Unicode gives it the property White_Space. Trimming, the gaps between
the words of a statement and the question whether a line is empty all use this one class.

Main statement: `Text.ink_append`, the visible characters of a text are those of its parts.
-/

namespace YapAssist

/-- The code points of the 25 characters with the Unicode property White_Space. -/
def blankCodes : List Nat :=
  [ 0x09, 0x0A, 0x0B, 0x0C, 0x0D, 0x20, 0x85, 0xA0, 0x1680, 0x2000, 0x2001, 0x2002, 0x2003, 0x2004,
    0x2005, 0x2006, 0x2007, 0x2008, 0x2009, 0x200A, 0x2028, 0x2029, 0x202F, 0x205F, 0x3000]

/-- Whether a character is blank. -/
def isBlank (c : Char) : Bool := blankCodes.contains c.toNat

namespace Text

/-- A text without the blanks it begins with. -/
def trimStart (t : Text) : Text := t.dropWhile isBlank

/-- A text without the blanks it ends with. -/
def trimEnd (t : Text) : Text := (t.reverse.dropWhile isBlank).reverse

/-- A text without the blanks at both ends. -/
def trim (t : Text) : Text := trimEnd (trimStart t)

/-- The visible characters of a text, in order. -/
def ink (t : Text) : Text := t.filter fun c => !isBlank c

@[simp] theorem ink_nil : ink [] = [] := rfl

theorem ink_cons (c : Char) (t : Text) :
    ink (c :: t) = if isBlank c then ink t else c :: ink t := by
  cases h : isBlank c <;> simp [ink, h]

@[simp] theorem ink_append (s t : Text) : ink (s ++ t) = ink s ++ ink t := by
  simp [ink]

@[simp] theorem ink_reverse (t : Text) : ink t.reverse = (ink t).reverse := by
  simp [ink, List.filter_reverse]

/-- Blanks at the beginning leave no trace among the visible characters. -/
@[simp] theorem ink_trimStart (t : Text) : ink (trimStart t) = ink t := by
  induction t with
  | nil => rfl
  | cons c t ih =>
    cases h : isBlank c
    · simp [trimStart, h]
    · simpa [trimStart, List.dropWhile_cons, h, ink_cons] using ih

@[simp] theorem ink_trimEnd (t : Text) : ink (trimEnd t) = ink t := by
  have h := ink_trimStart t.reverse
  rw [trimStart] at h
  rw [trimEnd, ink_reverse, h, ink_reverse, List.reverse_reverse]

@[simp] theorem ink_trim (t : Text) : ink (trim t) = ink t := by simp [trim]

/-- The non-blank pieces between the commas of a list, trimmed. -/
def listItems (t : Text) : List Text :=
  ((cutAtEach ',' t).map trim).filter fun item => !item.isEmpty

end Text

end YapAssist
