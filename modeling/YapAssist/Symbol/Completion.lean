import YapAssist.Import.Ensure
import YapAssist.Symbol.BuiltIn

/-!
# Completion

The words offered at any place of a text: the language's keywords and functions, the functions of
the math module, and the constants. A math function carries the edits that import it. Inserted
texts are snippets with numbered tab stops.
-/

namespace YapAssist.Completion

/-- A word of the language with the snippet that is inserted for it. -/
structure Entry where
  label : String
  kind : WordKind
  snippet : String
  description : String
  deriving DecidableEq, Repr

/-- Keywords and functions, in the order in which they are offered. -/
def language : List Entry :=
  [ ⟨"var", .keyword, "var $\x7b1:name\x7d = $\x7b2:value\x7d;", "Variable declaration"⟩,
    ⟨"fn", .keyword, "fn $\x7b1:name\x7d($\x7b2:params\x7d) \x7b\n\t$\x7b3:// body\x7d\n\x7d",
      "Function declaration"⟩,
    ⟨"export fn", .keyword,
      "export fn $\x7b1:name\x7d($\x7b2:params\x7d) \x7b\n\t$\x7b3:// body\x7d\n\x7d",
      "Exported function declaration"⟩,
    ⟨"if", .keyword, "if ($\x7b1:condition\x7d) \x7b\n\t$\x7b2:// code\x7d\n\x7d",
      "If statement"⟩,
    ⟨"else", .keyword, "else \x7b\n\t$\x7b1:// code\x7d\n\x7d", "Else statement"⟩,
    ⟨"while", .keyword, "while ($\x7b1:condition\x7d) \x7b\n\t$\x7b2:// code\x7d\n\x7d",
      "While loop"⟩,
    ⟨"return", .keyword, "return $\x7b1:value\x7d;", "Return statement"⟩,
    ⟨"import", .keyword, "import \x7b $\x7b1:name\x7d \x7d from \"$\x7b2:path\x7d\";",
      "Import named exports"⟩,
    ⟨"import all", .keyword, "import \"$\x7b1:path\x7d\";", "Import all exports"⟩,
    ⟨"print", .function, "print($\x7b1:value\x7d);", "Print to console"⟩,
    ⟨"read", .function, "read(\"$\x7b1:path\x7d\")", "Read file contents"⟩,
    ⟨"write", .function, "write(\"$\x7b1:path\x7d\", $\x7b2:content\x7d);",
      "Write file contents"⟩,
    ⟨"append", .function, "append(\"$\x7b1:path\x7d\", $\x7b2:content\x7d);",
      "Append file contents"⟩,
    ⟨"push", .function, "push($\x7b1:array\x7d, $\x7b2:value\x7d)", "Push value to array"⟩,
    ⟨"pop", .function, "pop($\x7b1:array\x7d)", "Pop value from array"⟩,
    ⟨"timestamp", .function, "timestamp()", "Current time in milliseconds"⟩,
    ⟨"random", .function, "random($\x7b1:max\x7d)", "Random integer below max"⟩]

/-- Constants and variables, offered last. -/
def values : List Entry :=
  [ ⟨"true", .constant, "true", "Boolean true"⟩,
    ⟨"false", .constant, "false", "Boolean false"⟩,
    ⟨"args", .variable, "args", "Program arguments array"⟩]

/-- A word that is offered. -/
structure Item where
  label : Text
  kind : WordKind
  insertText : Text
  detail : Text
  documentation : Text
  /-- The module the word is imported from, if it has to be. -/
  module? : Option Text
  /-- The edits that import the word. -/
  additionalEdits : List Edit
  deriving DecidableEq, Repr

/-- The name of the language, shown beside every item. -/
def detail : Text := "YAP".toList

/-- The item of a word of the language. -/
def Entry.item (e : Entry) : Item :=
  ⟨e.label.toList, e.kind, e.snippet.toList, detail, e.description.toList, none, []⟩

/-- The item of a math function for a text. -/
def mathItem (text stdModule : Text) (f : MathFunction) : Item :=
  { label := f.name.toList
    kind := .function
    insertText := f.snippet.toList
    detail := detail
    documentation :=
      ("Math." ++ f.name ++ " (").toList ++ stdModule ++ ".yap)".toList
    module? := some stdModule
    additionalEdits := Import.ensure text f.name.toList stdModule }

/-- All items for a text, in the order in which they are offered. -/
def items (text stdModule : Text) : List Item :=
  language.map Entry.item ++ MathFunction.all.map (mathItem text stdModule) ++
    values.map Entry.item

end YapAssist.Completion
