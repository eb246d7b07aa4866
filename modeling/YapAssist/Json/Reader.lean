import YapAssist.Json.Value

/-!
# Reading JSON

A strict reader: no comments, no comma at the end of a list, nothing but blanks around the value.
The text is cut into tokens first. The tokens are then taken one at a time, with the containers
that are still open held in a list of frames.

Strings are read into pieces, characters and escaped code units, and only then into text: half a
surrogate pair is an error where the text is used, not where it is skipped.

Cutting ends because a token takes at least one character (`length_lt_of_token?`).
-/

namespace YapAssist.Json

/-! ## Strings -/

/-- A piece of a string: a character, or a code unit written in hexadecimal. -/
inductive Piece where
  | char (c : Char)
  | unit (n : Nat)

/-- The value of a hexadecimal digit. -/
def hexValue? (c : Char) : Option Nat :=
  if c.isDigit then some (c.toNat - '0'.toNat)
  else if 'a' ≤ c ∧ c ≤ 'f' then some (c.toNat - 'a'.toNat + 10)
  else if 'A' ≤ c ∧ c ≤ 'F' then some (c.toNat - 'A'.toNat + 10)
  else none

/-- The code unit that four hexadecimal digits denote. -/
def unit? (a b c d : Char) : Option Nat :=
  match hexValue? a, hexValue? b, hexValue? c, hexValue? d with
  | some a, some b, some c, some d => some (((a * 16 + b) * 16 + c) * 16 + d)
  | _, _, _, _ => none

/-- The character that an escape of one letter stands for. -/
def escaped? : Char → Option Char
  | '"' => some '"'
  | '\\' => some '\\'
  | '/' => some '/'
  | 'b' => some (Char.ofNat 0x08)
  | 'f' => some (Char.ofNat 0x0C)
  | 'n' => some '\n'
  | 'r' => some '\r'
  | 't' => some '\t'
  | _ => none

/-- The pieces of a string behind its opening quote, and what follows its closing quote. -/
def pieces? : Text → Option (List Piece × Text)
  | [] => none
  | '"' :: rest => some ([], rest)
  | '\\' :: 'u' :: a :: b :: c :: d :: rest =>
    (unit? a b c d).bind fun n => (pieces? rest).map fun found => (.unit n :: found.1, found.2)
  | '\\' :: e :: rest =>
    (escaped? e).bind fun c => (pieces? rest).map fun found => (.char c :: found.1, found.2)
  | c :: rest =>
    if c.toNat < 0x20 || c == '\\' then none
    else (pieces? rest).map fun found => (.char c :: found.1, found.2)

theorem length_lt_of_pieces? {t after : Text} {ps : List Piece} (h : pieces? t = some (ps, after)) :
    after.length < t.length := by
  fun_induction pieces? t generalizing ps with
  | case1 => simp at h
  | case2 rest =>
    obtain ⟨-, rfl⟩ := Prod.mk.inj (Option.some.inj h)
    simp
  | case3 a b c d rest ih =>
    obtain ⟨n, -, h⟩ := Option.bind_eq_some_iff.1 h
    obtain ⟨found, hf, he⟩ := Option.map_eq_some_iff.1 h
    obtain ⟨-, rfl⟩ := Prod.mk.inj he
    have := ih hf
    simp only [List.length_cons]
    omega
  | case4 e rest _ ih =>
    obtain ⟨n, -, h⟩ := Option.bind_eq_some_iff.1 h
    obtain ⟨found, hf, he⟩ := Option.map_eq_some_iff.1 h
    obtain ⟨-, rfl⟩ := Prod.mk.inj he
    have := ih hf
    simp only [List.length_cons]
    omega
  | case5 => simp at h
  | case6 c rest _ _ _ _ ih =>
    obtain ⟨found, hf, he⟩ := Option.map_eq_some_iff.1 h
    obtain ⟨-, rfl⟩ := Prod.mk.inj he
    have := ih hf
    simp only [List.length_cons]
    omega

/-- The text of a list of pieces; `none` when half a surrogate pair stands alone. -/
def text? : List Piece → Option Text
  | [] => some []
  | .char c :: rest => (text? rest).map (c :: ·)
  | .unit high :: .unit low :: rest =>
    if 0xD800 ≤ high ∧ high ≤ 0xDBFF then
      if 0xDC00 ≤ low ∧ low ≤ 0xDFFF then
        (text? rest).map (Char.ofNat (0x10000 + (high - 0xD800) * 0x400 + (low - 0xDC00)) :: ·)
      else none
    else if 0xDC00 ≤ high ∧ high ≤ 0xDFFF then none
    else (text? (.unit low :: rest)).map (Char.ofNat high :: ·)
  | .unit n :: rest =>
    if 0xD800 ≤ n ∧ n ≤ 0xDFFF then none else (text? rest).map (Char.ofNat n :: ·)

/-! ## Numbers -/

/-- One or more digits and what follows them. -/
def digits? (t : Text) : Option (Text × Text) :=
  let digits := t.takeWhile Char.isDigit
  if digits.isEmpty then none else some (digits, t.dropWhile Char.isDigit)

/-- The part of a number before its point: no zero stands in front of another digit. -/
def whole? : Text → Option (Text × Text)
  | '0' :: rest => some (['0'], rest)
  | t => digits? t

/-- The part of a number from its point on; empty when there is no point. -/
def fraction? : Text → Option (Text × Text)
  | '.' :: rest => (digits? rest).map fun found => ('.' :: found.1, found.2)
  | t => some ([], t)

/-- The exponent of a number; empty when there is none. -/
def exponent? : Text → Option (Text × Text)
  | e :: rest =>
    if e == 'e' || e == 'E' then
      match rest with
      | s :: more =>
        if s == '+' || s == '-' then
          (digits? more).map fun found => (e :: s :: found.1, found.2)
        else (digits? rest).map fun found => (e :: found.1, found.2)
      | [] => none
    else some ([], e :: rest)
  | [] => some ([], [])

/-- A number without its sign. -/
def unsigned? (t : Text) : Option (Text × Text) :=
  (whole? t).bind fun whole =>
    (fraction? whole.2).bind fun fraction =>
      (exponent? fraction.2).map fun exponent =>
        (whole.1 ++ fraction.1 ++ exponent.1, exponent.2)

/-- A number as it is written. -/
def number? : Text → Option (Text × Text)
  | '-' :: rest => (unsigned? rest).map fun found => ('-' :: found.1, found.2)
  | t => unsigned? t

theorem length_lt_of_digits? {t digits after : Text} (h : digits? t = some (digits, after)) :
    after.length < t.length := by
  rw [digits?] at h
  split at h
  · simp at h
  · next some_digit =>
    obtain ⟨-, rfl⟩ := Prod.mk.inj (Option.some.inj h)
    have whole : (t.takeWhile Char.isDigit).length + (t.dropWhile Char.isDigit).length =
        t.length := by
      rw [← List.length_append, List.takeWhile_append_dropWhile]
    have pos : 0 < (t.takeWhile Char.isDigit).length := by
      rw [List.length_pos_iff]
      simpa using some_digit
    omega

theorem length_lt_of_whole? {t whole after : Text} (h : whole? t = some (whole, after)) :
    after.length < t.length := by
  unfold whole? at h
  split at h
  · obtain ⟨-, rfl⟩ := Prod.mk.inj (Option.some.inj h)
    simp
  · exact length_lt_of_digits? h

theorem length_le_of_fraction? {t part after : Text} (h : fraction? t = some (part, after)) :
    after.length ≤ t.length := by
  unfold fraction? at h
  split at h
  · obtain ⟨found, hf, he⟩ := Option.map_eq_some_iff.1 h
    obtain ⟨-, rfl⟩ := Prod.mk.inj he
    have := length_lt_of_digits? hf
    simp only [List.length_cons]
    omega
  · obtain ⟨-, rfl⟩ := Prod.mk.inj (Option.some.inj h)
    exact Nat.le_refl _

theorem length_le_of_exponent? {t part after : Text} (h : exponent? t = some (part, after)) :
    after.length ≤ t.length := by
  unfold exponent? at h
  split at h
  · split at h
    · split at h
      · split at h
        · obtain ⟨found, hf, he⟩ := Option.map_eq_some_iff.1 h
          obtain ⟨-, rfl⟩ := Prod.mk.inj he
          have := length_lt_of_digits? hf
          simp only [List.length_cons]
          omega
        · obtain ⟨found, hf, he⟩ := Option.map_eq_some_iff.1 h
          obtain ⟨-, rfl⟩ := Prod.mk.inj he
          have := length_lt_of_digits? hf
          simp only [List.length_cons] at this ⊢
          omega
      · simp at h
    · obtain ⟨-, rfl⟩ := Prod.mk.inj (Option.some.inj h)
      exact Nat.le_refl _
  · obtain ⟨-, rfl⟩ := Prod.mk.inj (Option.some.inj h)
    exact Nat.le_refl _

theorem length_lt_of_unsigned? {t part after : Text} (h : unsigned? t = some (part, after)) :
    after.length < t.length := by
  obtain ⟨whole, hw, h⟩ := Option.bind_eq_some_iff.1 h
  obtain ⟨fraction, hf, h⟩ := Option.bind_eq_some_iff.1 h
  obtain ⟨exponent, he, h⟩ := Option.map_eq_some_iff.1 h
  obtain ⟨-, rfl⟩ := Prod.mk.inj h
  have := length_lt_of_whole? hw
  have := length_le_of_fraction? hf
  have := length_le_of_exponent? he
  omega

theorem length_lt_of_number? {t part after : Text} (h : number? t = some (part, after)) :
    after.length < t.length := by
  unfold number? at h
  split at h
  · obtain ⟨found, hf, he⟩ := Option.map_eq_some_iff.1 h
    obtain ⟨-, rfl⟩ := Prod.mk.inj he
    exact Nat.lt_succ_of_lt (length_lt_of_unsigned? hf)
  · exact length_lt_of_unsigned? h

/-! ## Tokens -/

/-- The smallest units of a JSON text. -/
inductive Token where
  | openArray
  | closeArray
  | openObject
  | closeObject
  | comma
  | colon
  /-- A value without parts. -/
  | scalar (value : Json)

/-- The blanks between tokens. -/
def isGap (c : Char) : Bool := c == ' ' || c == '\n' || c == '\t' || c == '\r'

/-- The token at the beginning of a text, and what follows it. -/
def token? : Text → Option (Token × Text)
  | [] => none
  | '[' :: rest => some (.openArray, rest)
  | ']' :: rest => some (.closeArray, rest)
  | '{' :: rest => some (.openObject, rest)
  | '}' :: rest => some (.closeObject, rest)
  | ',' :: rest => some (.comma, rest)
  | ':' :: rest => some (.colon, rest)
  | '"' :: rest => (pieces? rest).map fun found => (.scalar (.string (text? found.1)), found.2)
  | 'n' :: 'u' :: 'l' :: 'l' :: rest => some (.scalar .null, rest)
  | 't' :: 'r' :: 'u' :: 'e' :: rest => some (.scalar (.bool true), rest)
  | 'f' :: 'a' :: 'l' :: 's' :: 'e' :: rest => some (.scalar (.bool false), rest)
  | t => (number? t).map fun found => (.scalar (.number found.1), found.2)

/-- A token takes at least one character. -/
theorem length_lt_of_token? {t after : Text} {token : Token} (h : token? t = some (token, after)) :
    after.length < t.length := by
  unfold token? at h
  split at h
  case h_1 => simp at h
  case h_8 =>
    obtain ⟨found, hf, he⟩ := Option.map_eq_some_iff.1 h
    obtain ⟨-, rfl⟩ := Prod.mk.inj he
    exact Nat.lt_succ_of_lt (length_lt_of_pieces? hf)
  case h_12 =>
    obtain ⟨found, hf, he⟩ := Option.map_eq_some_iff.1 h
    obtain ⟨-, rfl⟩ := Prod.mk.inj he
    exact length_lt_of_number? hf
  all_goals
    obtain ⟨-, rfl⟩ := Prod.mk.inj (Option.some.inj h)
    simp only [List.length_cons]
    omega

/-- The tokens of a text. -/
def tokens? (t : Text) : Option (List Token) :=
  match t with
  | [] => some []
  | c :: rest =>
    if isGap c then tokens? rest
    else
      match _h : token? (c :: rest) with
      | none => none
      | some (token, after) => (tokens? after).map (token :: ·)
termination_by t.length
decreasing_by
  · exact Nat.lt_succ_self _
  · exact length_lt_of_token? _h

/-! ## Values -/

/-- A container part way through, its parts in reverse. -/
inductive Frame where
  | array (done : List Json)
  | object (done : List (Option Text × Json)) (key : Option Text)

/-- What may come next. -/
inductive Stage where
  /-- A value. -/
  | value
  /-- The first item of an array, or its end. -/
  | firstItem
  /-- A key of an object with the fields `done`, or its end if it is still `fresh`. -/
  | key (done : List (Option Text × Json)) (fresh : Bool)
  /-- The colon behind a key. -/
  | colon (done : List (Option Text × Json)) (key : Option Text)
  /-- What follows a complete value. -/
  | complete (value : Json)

/-- The reader between two tokens: the open containers, innermost first, and what may come next. -/
structure State where
  frames : List Frame
  stage : Stage

/-- The reader after the first token of a value. -/
def beginValue? (frames : List Frame) : Token → Option State
  | .openArray => some ⟨.array [] :: frames, .firstItem⟩
  | .openObject => some ⟨frames, .key [] true⟩
  | .scalar value => some ⟨frames, .complete value⟩
  | _ => none

/-- The reader after the token behind a complete value. -/
def endValue? (frames : List Frame) (value : Json) (token : Token) : Option State :=
  match frames, token with
  | .array done :: frames, .comma => some ⟨.array (value :: done) :: frames, .value⟩
  | .array done :: frames, .closeArray =>
    some ⟨frames, .complete (.array (value :: done).reverse)⟩
  | .object done key :: frames, .comma => some ⟨frames, .key ((key, value) :: done) false⟩
  | .object done key :: frames, .closeObject =>
    some ⟨frames, .complete (.object ((key, value) :: done).reverse)⟩
  | _, _ => none

/-- The reader after one more token. -/
def step? (state : State) (token : Token) : Option State :=
  match state.stage, token with
  | .value, token => beginValue? state.frames token
  | .firstItem, .closeArray => some ⟨state.frames.tail, .complete (.array [])⟩
  | .firstItem, token => beginValue? state.frames token
  | .key _ true, .closeObject => some ⟨state.frames, .complete (.object [])⟩
  | .key done _, .scalar (.string key) => some ⟨state.frames, .colon done key⟩
  | .colon done key, .colon => some ⟨.object done key :: state.frames, .value⟩
  | .complete value, token => endValue? state.frames value token
  | _, _ => none

/-- The value of a list of tokens. -/
def ofTokens? (tokens : List Token) : Option Json :=
  (tokens.foldlM step? ⟨[], .value⟩).bind fun state =>
    match state with
    | ⟨[], .complete value⟩ => some value
    | _ => none

/-- The value that a text writes. -/
def read? (t : Text) : Option Json := (tokens? t).bind ofTokens?

end YapAssist.Json
