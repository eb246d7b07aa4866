import YapAssist.Text.Basic

/-!
# Built-in words

The words that every text can use without declaring them: keywords, constants and functions of the
language, and the functions of the standard math module, which have to be imported. Each has a
signature and a sentence of documentation.
-/

namespace YapAssist

/-- What a built-in word is. -/
inductive WordKind where
  | keyword
  | function
  | constant
  | variable
  deriving DecidableEq, Repr

/-- The documentation of a built-in word. -/
structure BuiltIn where
  name : String
  kind : WordKind
  signature : String
  summary : String
  /-- Whether the word has to be imported from the standard module. -/
  inStdModule : Bool
  deriving DecidableEq, Repr

/-- A function of the standard math module. -/
structure MathFunction where
  name : String
  parameters : List String
  summary : String
  deriving DecidableEq, Repr

namespace MathFunction

/-- All functions of the standard math module. -/
def all : List MathFunction :=
  [ ⟨"abs", ["x"], "Absolute value of `x`."⟩,
    ⟨"sign", ["x"], "`-1`, `0` or `1` according to the sign of `x`."⟩,
    ⟨"max", ["a", "b"], "The larger of `a` and `b`."⟩,
    ⟨"min", ["a", "b"], "The smaller of `a` and `b`."⟩,
    ⟨"clamp", ["x", "lo", "hi"], "`x` limited to the range `lo..=hi`."⟩,
    ⟨"is_even", ["x"], "`true` when `x` is even."⟩,
    ⟨"is_odd", ["x"], "`true` when `x` is odd."⟩,
    ⟨"pow", ["base", "exp"], "`base` raised to the integer power `exp`."⟩,
    ⟨"gcd", ["a", "b"], "Greatest common divisor."⟩,
    ⟨"lcm", ["a", "b"], "Least common multiple."⟩,
    ⟨"factorial", ["n"], "`n!` for non-negative `n`."⟩,
    ⟨"int_sqrt", ["n"], "Integer square root, rounded down."⟩]

/-- The head of a call, with the parameters by name. -/
def signature (f : MathFunction) : String :=
  f.name ++ "(" ++ ", ".intercalate f.parameters ++ ")"

/-- A call with one numbered tab stop for each parameter. -/
def snippet (f : MathFunction) : String :=
  let stops := f.parameters.mapIdx fun i parameter =>
    "$\x7b" ++ toString (i + 1) ++ ":" ++ parameter ++ "\x7d"
  f.name ++ "(" ++ ", ".intercalate stops ++ ")"

/-- The function of a given name. -/
def find? (name : Text) : Option MathFunction := all.find? fun f => f.name.toList == name

/-- The place of a function in the table. -/
def index? (name : Text) : Option Nat := all.findIdx? fun f => f.name.toList == name

end MathFunction

namespace BuiltIn

/-- The words of the language itself. -/
def language : List BuiltIn :=
  [ ⟨"var", .keyword, "var name = value;", "Declares a variable.", false⟩,
    ⟨"fn", .keyword, "fn name(params) \x7b ... \x7d", "Declares a function.", false⟩,
    ⟨"export", .keyword, "export fn name(params) \x7b ... \x7d",
      "Declares a function visible to importing files.", false⟩,
    ⟨"if", .keyword, "if (condition) \x7b ... \x7d",
      "Runs the block when the condition is non-zero.", false⟩,
    ⟨"else", .keyword, "else \x7b ... \x7d",
      "Runs the block when the preceding `if` condition was zero.", false⟩,
    ⟨"while", .keyword, "while (condition) \x7b ... \x7d",
      "Repeats the block while the condition is non-zero.", false⟩,
    ⟨"return", .keyword, "return value;", "Returns a value from the current function.", false⟩,
    ⟨"import", .keyword, "import \x7b name \x7d from \"path\";\nimport \"path\";",
      "Imports named exports, or every export, from another file.", false⟩,
    ⟨"true", .constant, "true", "Boolean true (1).", false⟩,
    ⟨"false", .constant, "false", "Boolean false (0).", false⟩,
    ⟨"args", .variable, "args", "Array of the program's command line arguments.", false⟩,
    ⟨"print", .function, "print(value)", "Prints a value followed by a newline.", false⟩,
    ⟨"read", .function, "read(path)", "Returns the contents of a file as a string.", false⟩,
    ⟨"write", .function, "write(path, content)", "Writes content to a file, replacing it.", false⟩,
    ⟨"append", .function, "append(path, content)", "Appends content to the end of a file.", false⟩,
    ⟨"push", .function, "push(array, value)", "Appends a value to an array.", false⟩,
    ⟨"pop", .function, "pop(array)", "Removes and returns the last element of an array.", false⟩,
    ⟨"timestamp", .function, "timestamp()", "Current time in milliseconds.", false⟩,
    ⟨"random", .function, "random(max)", "Random integer in `0..max`.", false⟩]

/-- A math function as a built-in word. -/
def ofMath (f : MathFunction) : BuiltIn := ⟨f.name, .function, f.signature, f.summary, true⟩

/-- All built-in words. No two share a name. -/
def all : List BuiltIn := language ++ MathFunction.all.map ofMath

/-- The documentation of a word, if it is built in. -/
def find? (name : Text) : Option BuiltIn := all.find? fun b => b.name.toList == name

/-- The documentation as it is shown: the signature in a fenced block, the summary, and where the
word has to be imported from. -/
def markdown (b : BuiltIn) (stdModule : Text) : Text :=
  ("```yap\n" ++ b.signature ++ "\n```\n\n" ++ b.summary).toList ++
    if b.inStdModule then "\n\n*Module:* `".toList ++ stdModule ++ "`".toList else []

end BuiltIn

end YapAssist
