import YapAssist.Edit
import YapAssist.Layout.Row

/-!
# The formatting edit

Formatting is offered as one edit that replaces the whole text, or as none when the text is laid
out already.
-/

namespace YapAssist.Layout

/-- The edit that lays a text out; `none` when it is laid out already. -/
def edit? (width : Nat) (text : Text) : Option Edit :=
  let formatted := format width text
  if formatted = text then none
  else some ⟨⟨Position.start, Position.ofOffset text text.byteSize⟩, formatted⟩

end YapAssist.Layout
