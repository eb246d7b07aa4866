import YapAssist.Command.Place
import YapAssist.Proofs.Text.Bytes
import YapAssist.Proofs.Text.Trim

/-!
# Places that are written and read back

A place is read from its end, and its path may hold colons and digits of its own. What decides is
the piece before the last one: a number is the line, anything else belongs to the path.

* `Numeral.read?_eq_some_iff`, the numbers that numerals denote (`Numeral.Denotes`);
* `Place.read_eq_ok_iff`, the places that can be read, and as what;
* `Place.read_write`, a written place reads back, and what is read was written that way.
-/

namespace YapAssist

namespace Numeral

/-! ## Numerals -/

/-- The text is a decimal numeral of `n`: digits, at least one, behind an optional plus sign. -/
def Denotes (t : Text) (n : Nat) : Prop :=
  ∃ digits : Text, (t = digits ∨ t = '+' :: digits) ∧ digits ≠ [] ∧
    (∀ c ∈ digits, c.isDigit = true) ∧ Nat.ofDigitChars 10 digits 0 = n

theorem valueFrom_eq (high : Nat) (digits : Text) :
    valueFrom high digits = Nat.ofDigitChars 10 digits high := by
  induction digits generalizing high with
  | nil => rfl
  | cons c digits ih =>
    have hstep : Nat.ofDigitChars 10 (c :: digits) high =
        Nat.ofDigitChars 10 digits (10 * high + digitValue c) := Nat.ofDigitChars_cons
    rw [hstep, Nat.mul_comm 10 high, ← ih]
    rfl

theorem readDigits?_eq_some_iff {bound n : Nat} {digits : Text} :
    readDigits? bound digits = some n ↔ digits ≠ [] ∧ (∀ c ∈ digits, c.isDigit = true) ∧
      Nat.ofDigitChars 10 digits 0 = n ∧ n ≤ bound := by
  unfold readDigits?
  rw [valueFrom_eq]
  by_cases hdigits : (digits.isEmpty || !digits.all Char.isDigit) = true
  · rw [if_pos hdigits]
    constructor
    · simp
    · intro h
      have hall := List.all_eq_true.2 h.2.1
      simp [h.1, hall] at hdigits
  · rw [if_neg hdigits]
    have hboth : digits ≠ [] ∧ ∀ c ∈ digits, c.isDigit = true := by simpa using hdigits
    by_cases hle : Nat.ofDigitChars 10 digits 0 ≤ bound
    · simp only [hle, if_true, Option.some.injEq]
      constructor
      · intro h
        exact ⟨hboth.1, hboth.2, h, h ▸ hle⟩
      · intro h
        exact h.2.2.1
    · simp only [hle, if_false]
      constructor
      · simp
      · intro h
        rw [← h.2.2.1] at h
        exact absurd h.2.2.2 hle

theorem isDigit_plus : Char.isDigit '+' = false := by decide

theorem isDigit_colon : Char.isDigit ':' = false := by decide

/-- A numeral is read as the number that it denotes, up to the bound. -/
theorem read?_eq_some_iff {bound n : Nat} {t : Text} :
    read? bound t = some n ↔ Denotes t n ∧ n ≤ bound := by
  unfold read?
  split
  · next digits =>
    rw [readDigits?_eq_some_iff]
    constructor
    · intro h
      exact ⟨⟨digits, .inr rfl, h.1, h.2.1, h.2.2.1⟩, h.2.2.2⟩
    · intro h
      obtain ⟨⟨found, hfound, hne, hall, hvalue⟩, hle⟩ := h
      obtain rfl | hfound := hfound
      · -- the plus sign is no digit
        have hplus := hall '+' List.mem_cons_self
        rw [isDigit_plus] at hplus
        simp at hplus
      · obtain rfl : digits = found := by simpa using hfound
        exact ⟨hne, hall, hvalue, hle⟩
  · next hno =>
    rw [readDigits?_eq_some_iff]
    constructor
    · intro h
      exact ⟨⟨t, .inl rfl, h.1, h.2.1, h.2.2.1⟩, h.2.2.2⟩
    · intro h
      obtain ⟨⟨found, hfound, hne, hall, hvalue⟩, hle⟩ := h
      obtain rfl | hfound := hfound
      · exact ⟨hne, hall, hvalue, hle⟩
      · exact absurd hfound (hno found)

theorem denotes_write (n : Nat) : Denotes (write n) n := by
  refine ⟨write n, .inl rfl, Nat.toDigits_ne_nil, ?_, Nat.ofDigitChars_ten_toDigits⟩
  intro c hc
  exact Nat.isDigit_of_mem_toDigits (by omega) (by omega) hc

theorem Denotes.colon_not_mem {t : Text} {n : Nat} (h : Denotes t n) : ':' ∉ t := by
  obtain ⟨digits, ht, -, hall, -⟩ := h
  have hdigits : ':' ∉ digits := by
    intro hmem
    have hcolon := hall ':' hmem
    rw [isDigit_colon] at hcolon
    simp at hcolon
  obtain rfl | rfl := ht
  · exact hdigits
  · simpa using hdigits

end Numeral

namespace Place

open Numeral

/-! ## Reading a place -/

theorem index?_eq_some_iff {value : Text} {n : Nat} :
    index? value = some n ↔ Denotes value (n + 1) ∧ n < max32 := by
  have hread : index? value = some n ↔ read? max32 value = some (n + 1) := by
    unfold index?
    split
    · next m hm => rw [hm]; simp
    · next hno =>
      constructor
      · simp
      · intro h
        exact absurd h (hno n)
  rw [hread, read?_eq_some_iff]
  rfl

/-- A path that ends with a colon and a number, and so could be taken for one with a line. -/
def Numbered (path : Text) : Prop :=
  ∃ front l n, path = front ++ ':' :: l ∧ Denotes l n ∧ n ≤ max32

/-- The piece before the last one is the line if it is a number. -/
theorem cut?_numbered {l c : Text} {n : Nat} (hl : Denotes l n) (hn : n ≤ max32) (hc : ':' ∉ c)
    (path : Text) : cut? (path ++ ':' :: (l ++ ':' :: c)) = some (path, l, some c) := by
  have hcut : path ++ ':' :: (l ++ ':' :: c) = (path ++ ':' :: l) ++ ':' :: c := by simp
  have hread : read? max32 l = some n := read?_eq_some_iff.2 ⟨hl, hn⟩
  unfold cut?
  rw [hcut, Text.cutAtLast?_append_mark hc]
  simp [Text.cutAtLast?_append_mark hl.colon_not_mem, hread]

/-- Otherwise it belongs to the path. -/
theorem cut?_not_numbered {path l : Text} (hpath : ¬ Numbered path) (hl : ':' ∉ l) :
    cut? (path ++ ':' :: l) = some (path, l, none) := by
  unfold cut?
  rw [Text.cutAtLast?_append_mark hl]
  by_cases hmem : ':' ∈ path
  · obtain ⟨front, middle, rfl, hmiddle⟩ := Text.exists_last_mark hmem
    have hread : read? max32 middle = none := by
      rw [Option.eq_none_iff_forall_ne_some]
      intro n hn
      obtain ⟨hdenotes, hle⟩ := read?_eq_some_iff.1 hn
      exact hpath ⟨front, middle, n, rfl, hdenotes, hle⟩
    simp [Text.cutAtLast?_append_mark hmiddle, hread]
  · simp [Text.cutAtLast?_of_not_mem hmem]

/-- How a place is written: with line and column, or with a line only. -/
inductive Written (place path : Text) (p : Position) : Prop
  | column {l c : Text} (place_eq : place = path ++ ':' :: (l ++ ':' :: c))
      (line : Denotes l (p.line + 1)) (character : Denotes c (p.character + 1))
      (line_lt : p.line < max32) (character_lt : p.character < max32) : Written place path p
  | line {l : Text} (place_eq : place = path ++ ':' :: l) (line : Denotes l (p.line + 1))
      (line_lt : p.line < max32) (character : p.character = 0) (path_ends : ¬ Numbered path) :
      Written place path p

/-- A place with a line and a column is read as such. -/
theorem read_numbered {l c : Text} {n : Nat} (hl : Denotes l n) (hn : n ≤ max32) (hc : ':' ∉ c)
    (path path' : Text) (p : Position) :
    read (path ++ ':' :: (l ++ ':' :: c)) = .ok (path', p) ↔
      path = path' ∧ index? l = some p.line ∧ index? c = some p.character := by
  obtain ⟨line, character⟩ := p
  unfold read
  rw [cut?_numbered hl hn hc]
  cases hline : index? l with
  | none => simp [hline]
  | some i =>
    cases hcharacter : index? c with
    | none => simp [hline, hcharacter]
    | some j => simp [hline, hcharacter]

/-- A place with a line only is read as its first column. -/
theorem read_not_numbered {path l : Text} (hpath : ¬ Numbered path) (hl : ':' ∉ l) (path' : Text)
    (p : Position) :
    read (path ++ ':' :: l) = .ok (path', p) ↔
      path = path' ∧ index? l = some p.line ∧ p.character = 0 := by
  obtain ⟨line, character⟩ := p
  unfold read
  rw [cut?_not_numbered hpath hl]
  cases hline : index? l with
  | none => simp [hline]
  | some i => simp [hline, @eq_comm _ 0]

/-- The places that can be read, and as what. -/
theorem read_eq_ok_iff {place path : Text} {p : Position} :
    read place = .ok (path, p) ↔ Written place path p := by
  constructor
  · intro h
    by_cases hmem : ':' ∈ place
    · obtain ⟨front, last, rfl, hlast⟩ := Text.exists_last_mark hmem
      by_cases hnumbered : Numbered front
      · obtain ⟨found, l, n, rfl, hl, hn⟩ := hnumbered
        rw [List.append_assoc, List.cons_append] at h ⊢
        obtain ⟨rfl, hline, hcharacter⟩ := (read_numbered hl hn hlast found path p).1 h
        obtain ⟨hline, hline_lt⟩ := index?_eq_some_iff.1 hline
        obtain ⟨hcharacter, hcharacter_lt⟩ := index?_eq_some_iff.1 hcharacter
        exact .column rfl hline hcharacter hline_lt hcharacter_lt
      · obtain ⟨rfl, hline, hcharacter⟩ := (read_not_numbered hnumbered hlast path p).1 h
        obtain ⟨hline, hline_lt⟩ := index?_eq_some_iff.1 hline
        exact .line rfl hline hline_lt hcharacter hnumbered
    · -- without a colon there is no line
      unfold read cut? at h
      rw [Text.cutAtLast?_of_not_mem hmem] at h
      simp at h
  · intro h
    cases h with
    | column place_eq line character line_lt character_lt =>
      rw [place_eq, read_numbered line line_lt character.colon_not_mem]
      exact ⟨rfl, index?_eq_some_iff.2 ⟨line, line_lt⟩,
        index?_eq_some_iff.2 ⟨character, character_lt⟩⟩
    | line place_eq line line_lt character path_ends =>
      rw [place_eq, read_not_numbered path_ends line.colon_not_mem]
      exact ⟨rfl, index?_eq_some_iff.2 ⟨line, line_lt⟩, character⟩

end Place

/-! ## Writing a place -/

/-- A path lies at or below a directory: its names begin with those of the directory. -/
def Path.AtOrBelow (dir path : Bytes) : Prop :=
  isAbsolute path = true ∧ names dir <+: names path

theorem Path.display_of_not_atOrBelow {currentDir path : Bytes} (h : ¬ AtOrBelow currentDir path) :
    display currentDir path = Text.lossy path := by
  unfold display
  by_cases habsolute : isAbsolute path = true
  · have hbehind : namesBehind? (names currentDir) (names path) = none := by
      unfold namesBehind?
      rw [if_neg]
      rw [List.isPrefixOf_iff_prefix]
      exact fun hprefix => h ⟨habsolute, hprefix⟩
    rw [if_pos habsolute, hbehind]
  · rw [if_neg habsolute]

namespace Place

open Numeral

theorem writeIndex_eq {n : Nat} (h : n < max32) : writeIndex n = Numeral.write (n + 1) := by
  have hlt : n + 1 < UInt32.size := by
    unfold max32 at h
    omega
  unfold writeIndex
  rw [Nat.mod_eq_of_lt hlt]

/-- **Places are read back.** A path that is not shown relative to the current directory reads back
from its written place together with the position, whatever colons and digits it holds. Conversely
what can be read is a path, a colon and the number of a line, with or without a colon and the number
of a column behind it; both count from one and fit in 32 bits. -/
theorem read_write :
    (∀ (currentDir : Bytes) (file : Text) (p : Position), ¬ Path.AtOrBelow currentDir file.bytes →
      p.line + 1 < UInt32.size → p.character + 1 < UInt32.size →
        read (write currentDir file p) = .ok (file, p)) ∧
    ∀ (place path : Text) (p : Position), read place = .ok (path, p) →
      p.line + 1 < UInt32.size ∧ p.character + 1 < UInt32.size ∧
      ((∃ l : Text, place = path ++ ':' :: l ∧ Denotes l (p.line + 1) ∧ p.character = 0) ∨
        ∃ l c : Text, place = path ++ ':' :: (l ++ ':' :: c) ∧ Denotes l (p.line + 1) ∧
          Denotes c (p.character + 1)) := by
  have hmax : ∀ n, n + 1 < UInt32.size ↔ n < max32 := fun n => Nat.lt_sub_iff_add_lt.symm
  constructor
  · intro currentDir file p hfile hline hcharacter
    rw [hmax] at hline hcharacter
    unfold write
    rw [Path.display_of_not_atOrBelow hfile, Text.lossy_bytes, writeIndex_eq hline,
      writeIndex_eq hcharacter, read_eq_ok_iff]
    exact .column (by simp) (denotes_write _) (denotes_write _) hline hcharacter
  · intro place path p h
    rw [hmax, hmax]
    cases read_eq_ok_iff.1 h with
    | column place_eq line character line_lt character_lt =>
      exact ⟨line_lt, character_lt, .inr ⟨_, _, place_eq, line, character⟩⟩
    | line place_eq line line_lt character _ =>
      exact ⟨line_lt, by rw [character]; decide, .inl ⟨_, place_eq, line, character⟩⟩

/-- A path that looks like a place is read back, and so is a line with a sign and zeros. -/
theorem read_write_colons :
    ¬ Path.AtOrBelow (Text.bytes "/work".toList) (Text.bytes "/lib/a:3:0".toList) ∧
      read (write (Text.bytes "/work".toList) "/lib/a:3:0".toList ⟨0, 4294967294⟩) =
        .ok ("/lib/a:3:0".toList, ⟨0, 4294967294⟩) ∧
      read "a:x:+07".toList = .ok ("a:x".toList, ⟨6, 0⟩) ∧
      ((∃ l : Text, "a:x:+07".toList = "a:x".toList ++ ':' :: l ∧ Denotes l 7 ∧ 0 = 0) ∨
        ∃ l c : Text, "a:x:+07".toList = "a:x".toList ++ ':' :: (l ++ ':' :: c) ∧ Denotes l 7 ∧
          Denotes c 1) := by
  have hfile : ¬ Path.AtOrBelow (Text.bytes "/work".toList) (Text.bytes "/lib/a:3:0".toList) := by
    unfold Path.AtOrBelow
    decide
  have hplace : read "a:x:+07".toList = .ok ("a:x".toList, ⟨6, 0⟩) := by rfl
  exact ⟨hfile, read_write.1 _ _ _ hfile (by decide) (by decide), hplace,
    (read_write.2 _ _ _ hplace).2.2⟩

end Place

end YapAssist
