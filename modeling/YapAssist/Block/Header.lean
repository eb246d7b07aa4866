import YapAssist.Text.Blank
import YapAssist.Text.Word

/-!
# Block headers

A block header is the beginning of a line up to and including the brace that opens the block:
`if (c) {`, `else if (c) {`, `else {`, `while (c) {`, `fn f(p) {` or `export fn f(p) {`. Gaps
between its words are free when it is read and fixed when it is written.

A condition is the shortest stretch on one line whose closing parenthesis is followed by the
brace; a parameter list ends at its first closing parenthesis and may cross lines.

Main statement: `Header.ink_of_read?`, a header that was read and is written again differs in
blanks only.
-/

namespace YapAssist

/-- A block header, gaps aside. -/
inductive Header where
  | ifThen (condition : Text)
  | elseIf (condition : Text)
  | elseThen
  | whileDo (condition : Text)
  | function (exported : Bool) (name parameters : Text)
  deriving DecidableEq, Repr

namespace Header

/-- What follows one or more blanks. -/
def afterGap? (t : Text) : Option Text :=
  if t.head?.any isBlank then some t.trimStart else none

/-- What follows an opening brace, blanks before it aside. -/
def afterBrace? (t : Text) : Option Text := Text.after? ['{'] t.trimStart

/-- The shortest condition that ends at a closing parenthesis before an opening brace, and what
follows that brace. A condition does not cross a line feed. -/
def condition? : Text → Option (Text × Text)
  | [] => none
  | c :: rest =>
    match if c = ')' then afterBrace? rest else none with
    | some body => some ([], body)
    | none =>
      if c = '\n' then none
      else (condition? rest).map fun found => (c :: found.1, found.2)

/-- A condition in parentheses with the brace behind it. -/
def guard? (t : Text) : Option (Text × Text) :=
  (Text.after? ['('] t.trimStart).bind condition?

/-- The name and the parameters of a function from `fn` on, and what follows the brace. -/
def signature? (t : Text) : Option (Text × Text × Text) :=
  ((Text.after? ['f', 'n'] t).bind afterGap?).bind fun t =>
    let name := t.takeWhile isWord
    if name.isEmpty then none
    else
      (Text.after? ['('] (Text.trimStart (t.dropWhile isWord))).bind fun t =>
        ((Text.after? [')'] (t.dropWhile (· != ')'))).bind afterBrace?).map fun body =>
          (name, t.takeWhile (· != ')'), body)

/-- `if`, its condition and the brace. -/
def readIf? (t : Text) : Option (Header × Text) :=
  ((Text.after? ['i', 'f'] t).bind guard?).map fun found => (ifThen found.1, found.2)

/-- `else if`, its condition and the brace. -/
def readElseIf? (t : Text) : Option (Header × Text) :=
  (((Text.after? ['e', 'l', 's', 'e'] t).bind afterGap?).bind (Text.after? ['i', 'f'])).bind guard?
    |>.map fun found => (elseIf found.1, found.2)

/-- `else` and the brace. -/
def readElse? (t : Text) : Option (Header × Text) :=
  ((Text.after? ['e', 'l', 's', 'e'] t).bind afterBrace?).map fun body => (elseThen, body)

/-- `while`, its condition and the brace. -/
def readWhile? (t : Text) : Option (Header × Text) :=
  (Text.after? ['w', 'h', 'i', 'l', 'e'] t).bind guard?
    |>.map fun found => (whileDo found.1, found.2)

/-- `fn` or `export fn`, name, parameters and the brace. -/
def readFunction? (t : Text) : Option (Header × Text) :=
  match Text.after? ['e', 'x', 'p', 'o', 'r', 't'] t with
  | some rest =>
    ((afterGap? rest).bind signature?).map fun found => (function true found.1 found.2.1, found.2.2)
  | none => (signature? t).map fun found => (function false found.1 found.2.1, found.2.2)

/-- The header at the beginning of a text, and what follows its brace. -/
def read? (t : Text) : Option (Header × Text) :=
  (readIf? t).or <| (readElseIf? t).or <| (readElse? t).or <| (readWhile? t).or (readFunction? t)

/-- A header as it is written: one blank between words, none inside the parentheses. -/
def write : Header → Text
  | ifThen condition => ['i', 'f', ' ', '('] ++ condition ++ [')', ' ', '{']
  | elseIf condition =>
    ['e', 'l', 's', 'e', ' ', 'i', 'f', ' ', '('] ++ condition ++ [')', ' ', '{']
  | elseThen => ['e', 'l', 's', 'e', ' ', '{']
  | whileDo condition => ['w', 'h', 'i', 'l', 'e', ' ', '('] ++ condition ++ [')', ' ', '{']
  | function exported name parameters =>
    (if exported then ['e', 'x', 'p', 'o', 'r', 't', ' '] else []) ++ ['f', 'n', ' '] ++ name ++
      ['('] ++ parameters ++ [')', ' ', '{']

/-- Whether a header may stand behind the brace that closes the block before it. -/
def mayFollowBrace : Header → Bool
  | ifThen _ | elseIf _ | elseThen => true
  | whileDo _ | function .. => false

/-! ## Visible characters -/

theorem ink_of_after? {lead t rest : Text} (h : Text.after? lead t = some rest) :
    t.ink = Text.ink lead ++ Text.ink rest := by
  rw [Text.after?_eq_some_iff] at h
  subst h
  exact Text.ink_append lead rest

theorem ink_of_afterGap? {t rest : Text} (h : afterGap? t = some rest) :
    t.ink = rest.ink := by
  rw [afterGap?] at h
  split at h
  · obtain rfl := Option.some.inj h
    exact (Text.ink_trimStart t).symm
  · exact absurd h (by simp)

theorem ink_of_afterBrace? {t rest : Text} (h : afterBrace? t = some rest) :
    t.ink = '{' :: rest.ink := by
  rw [← Text.ink_trimStart t]
  exact ink_of_after? h

theorem ink_of_condition? {t condition body : Text} (h : condition? t = some (condition, body)) :
    t.ink = condition.ink ++ ')' :: '{' :: body.ink := by
  induction t generalizing condition with
  | nil => simp [condition?] at h
  | cons c t ih =>
    rw [condition?] at h
    split at h
    · next found hb =>
      -- the parenthesis right here closes the condition
      simp only [Option.some.injEq, Prod.mk.injEq] at h
      obtain ⟨rfl, rfl⟩ := h
      split at hb
      · next hc => subst hc; simp [Text.ink_cons, ink_of_afterBrace? hb, isBlank, blankCodes]
      · simp at hb
    · split at h
      · simp at h
      · obtain ⟨⟨condition', body'⟩, hr, he⟩ := Option.map_eq_some_iff.1 h
        simp only [Prod.mk.injEq] at he
        obtain ⟨rfl, rfl⟩ := he
        rw [Text.ink_cons, Text.ink_cons, ih hr]
        split <;> simp

theorem ink_of_guard? {t condition body : Text} (h : guard? t = some (condition, body)) :
    t.ink = '(' :: condition.ink ++ ')' :: '{' :: body.ink := by
  obtain ⟨rest, ha, hr⟩ := Option.bind_eq_some_iff.1 h
  rw [← Text.ink_trimStart t, ink_of_after? ha, ink_of_condition? hr]
  rfl

theorem ink_of_signature? {t name parameters body : Text}
    (h : signature? t = some (name, parameters, body)) :
    t.ink = 'f' :: 'n' :: name.ink ++ '(' :: parameters.ink ++ ')' :: '{' :: body.ink := by
  obtain ⟨t₁, h₁, h⟩ := Option.bind_eq_some_iff.1 h
  obtain ⟨t₀, h₀, h₁⟩ := Option.bind_eq_some_iff.1 h₁
  rw [ink_of_after? h₀, ink_of_afterGap? h₁]
  simp only at h
  split at h
  · simp at h
  · obtain ⟨t₂, h₂, h⟩ := Option.bind_eq_some_iff.1 h
    obtain ⟨t₄, h₄, h⟩ := Option.map_eq_some_iff.1 h
    obtain ⟨t₃, h₃, h₄⟩ := Option.bind_eq_some_iff.1 h₄
    simp only [Prod.mk.injEq] at h
    obtain ⟨rfl, rfl, rfl⟩ := h
    have name_cut : t₁.ink =
        Text.ink (t₁.takeWhile isWord) ++ Text.ink (t₁.dropWhile isWord) := by
      rw [← Text.ink_append, List.takeWhile_append_dropWhile]
    have list_cut : t₂.ink =
        Text.ink (t₂.takeWhile (· != ')')) ++ Text.ink (t₂.dropWhile (· != ')')) := by
      rw [← Text.ink_append, List.takeWhile_append_dropWhile]
    rw [name_cut, ← Text.ink_trimStart (t₁.dropWhile isWord), ink_of_after? h₂, list_cut,
      ink_of_after? h₃, ink_of_afterBrace? h₄]
    simp [Text.ink_cons, isBlank, blankCodes]

/-- The visible characters of a written header. -/
theorem ink_write (header : Header) : (write header).ink =
    match header with
    | ifThen condition => ['i', 'f', '('] ++ condition.ink ++ [')', '{']
    | elseIf condition => ['e', 'l', 's', 'e', 'i', 'f', '('] ++ condition.ink ++ [')', '{']
    | elseThen => ['e', 'l', 's', 'e', '{']
    | whileDo condition => ['w', 'h', 'i', 'l', 'e', '('] ++ condition.ink ++ [')', '{']
    | function exported name parameters =>
      (if exported then ['e', 'x', 'p', 'o', 'r', 't'] else []) ++ ['f', 'n'] ++ name.ink ++
        ['('] ++ parameters.ink ++ [')', '{'] := by
  have close : Text.ink [')', ' ', '{'] = [')', '{'] := by decide +kernel
  have open_ : Text.ink ['('] = ['('] := by decide +kernel
  cases header with
  | ifThen condition =>
    have lead : Text.ink ['i', 'f', ' ', '('] = ['i', 'f', '('] := by decide +kernel
    rw [write, Text.ink_append, Text.ink_append, lead, close]
  | elseIf condition =>
    have lead : Text.ink ['e', 'l', 's', 'e', ' ', 'i', 'f', ' ', '('] =
        ['e', 'l', 's', 'e', 'i', 'f', '('] := by decide +kernel
    rw [write, Text.ink_append, Text.ink_append, lead, close]
  | elseThen =>
    have all : Text.ink ['e', 'l', 's', 'e', ' ', '{'] = ['e', 'l', 's', 'e', '{'] := by
      decide +kernel
    rw [write, all]
  | whileDo condition =>
    have lead : Text.ink ['w', 'h', 'i', 'l', 'e', ' ', '('] =
        ['w', 'h', 'i', 'l', 'e', '('] := by decide +kernel
    rw [write, Text.ink_append, Text.ink_append, lead, close]
  | function exported name parameters =>
    have lead : Text.ink ['f', 'n', ' '] = ['f', 'n'] := by decide +kernel
    have mark : Text.ink (if exported then ['e', 'x', 'p', 'o', 'r', 't', ' '] else []) =
        if exported then ['e', 'x', 'p', 'o', 'r', 't'] else [] := by
      cases exported <;> decide +kernel
    rw [write, Text.ink_append, Text.ink_append, Text.ink_append, Text.ink_append,
      Text.ink_append, mark, lead, close, open_]

/-- A header that was read and is written again differs in blanks only. -/
theorem ink_of_read? {t : Text} {header : Header} {body : Text}
    (h : read? t = some (header, body)) : t.ink = (write header).ink ++ body.ink := by
  have inkIf : Text.ink ['i', 'f'] = ['i', 'f'] := by decide +kernel
  have inkElse : Text.ink ['e', 'l', 's', 'e'] = ['e', 'l', 's', 'e'] := by decide +kernel
  have inkWhile : Text.ink ['w', 'h', 'i', 'l', 'e'] = ['w', 'h', 'i', 'l', 'e'] := by
    decide +kernel
  have inkExport : Text.ink ['e', 'x', 'p', 'o', 'r', 't'] =
      ['e', 'x', 'p', 'o', 'r', 't'] := by decide +kernel
  rw [read?, Option.or_eq_some_iff, Option.or_eq_some_iff, Option.or_eq_some_iff,
    Option.or_eq_some_iff] at h
  rw [ink_write]
  rcases h with h | ⟨_, h | ⟨_, h | ⟨_, h | ⟨_, h⟩⟩⟩⟩
  · obtain ⟨⟨condition, rest⟩, h₁, he⟩ := Option.map_eq_some_iff.1 h
    obtain ⟨t₀, h₀, h₁⟩ := Option.bind_eq_some_iff.1 h₁
    obtain ⟨rfl, rfl⟩ := Prod.mk.inj he
    simp [ink_of_after? h₀, ink_of_guard? h₁, inkIf]
  · obtain ⟨⟨condition, rest⟩, h₃, he⟩ := Option.map_eq_some_iff.1 h
    obtain ⟨t₂, h₂, h₃⟩ := Option.bind_eq_some_iff.1 h₃
    obtain ⟨t₁, h₁, h₂⟩ := Option.bind_eq_some_iff.1 h₂
    obtain ⟨t₀, h₀, h₁⟩ := Option.bind_eq_some_iff.1 h₁
    obtain ⟨rfl, rfl⟩ := Prod.mk.inj he
    simp [ink_of_after? h₀, ink_of_afterGap? h₁, ink_of_after? h₂, ink_of_guard? h₃, inkIf,
      inkElse]
  · obtain ⟨rest, h₁, he⟩ := Option.map_eq_some_iff.1 h
    obtain ⟨t₀, h₀, h₁⟩ := Option.bind_eq_some_iff.1 h₁
    obtain ⟨rfl, rfl⟩ := Prod.mk.inj he
    simp [ink_of_after? h₀, ink_of_afterBrace? h₁, inkElse]
  · obtain ⟨⟨condition, rest⟩, h₁, he⟩ := Option.map_eq_some_iff.1 h
    obtain ⟨t₀, h₀, h₁⟩ := Option.bind_eq_some_iff.1 h₁
    obtain ⟨rfl, rfl⟩ := Prod.mk.inj he
    simp [ink_of_after? h₀, ink_of_guard? h₁, inkWhile]
  · rw [readFunction?] at h
    split at h
    · next rest h₀ =>
      obtain ⟨⟨name, parameters, body'⟩, h₂, he⟩ := Option.map_eq_some_iff.1 h
      obtain ⟨t₁, h₁, h₂⟩ := Option.bind_eq_some_iff.1 h₂
      obtain ⟨rfl, rfl⟩ := Prod.mk.inj he
      simp [ink_of_after? h₀, ink_of_afterGap? h₁, ink_of_signature? h₂, inkExport]
    · obtain ⟨⟨name, parameters, body'⟩, h₁, he⟩ := Option.map_eq_some_iff.1 h
      obtain ⟨rfl, rfl⟩ := Prod.mk.inj he
      simp [ink_of_signature? h₁]

/-- A header has visible characters. -/
theorem ink_write_ne_nil (header : Header) : (write header).ink ≠ [] := by
  rw [ink_write]
  cases header <;> simp

end Header

end YapAssist
