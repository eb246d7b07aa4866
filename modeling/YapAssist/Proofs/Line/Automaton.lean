import Mathlib.Order.Bounds.Defs
import YapAssist.Proofs.Line.Mode
import YapAssist.Proofs.Text.Bytes
import YapAssist.Proofs.Text.Columns

/-!
# Reading a line byte by byte

Lines are scanned for string literals in two ways, by counting the delimiting quotes before an
offset and by looking for the first `//` outside a literal. Both follow from one automaton that
reads the bytes of a line from left to right and never looks back:

* `Mode.afterBytes`, the automaton, with `Mode.afterBytes_bytes` for its runs over whole characters;
* `Mode.insideString_eq_beforeByte`, the count of delimiting quotes is the state of the automaton,
  also for an offset inside a character;
* `Line.CommentAt`, the places where a comment could start, the first of which is where
  `Line.split` cuts;
* `Line.scanners_automaton`, all of this together.
-/

namespace YapAssist.Line

namespace Mode

/-- After one more byte. The byte behind an escaping backslash means nothing, inside a literal or
not. -/
def nextByte (m : Mode) (b : UInt8) : Mode :=
  if m.escaped then ⟨m.quoted, false⟩
  else if b = '"'.toUInt8 then ⟨!m.quoted, false⟩
  else ⟨m.quoted, b == '\\'.toUInt8⟩

/-- After some bytes. -/
def afterBytes (m : Mode) (bs : List UInt8) : Mode := bs.foldl nextByte m

/-- Before the byte `i` of a line, or behind the last one. -/
def beforeByte (line : Text) (i : Nat) : Mode := start.afterBytes (line.bytes.take i)

@[simp] theorem afterBytes_nil (m : Mode) : m.afterBytes [] = m := rfl

@[simp] theorem afterBytes_cons (m : Mode) (b : UInt8) (bs : List UInt8) :
    m.afterBytes (b :: bs) = (m.nextByte b).afterBytes bs := rfl

theorem afterBytes_append (m : Mode) (bs cs : List UInt8) :
    m.afterBytes (bs ++ cs) = (m.afterBytes bs).afterBytes cs := List.foldl_append

/-! ## The bytes of one character -/

theorem nextByte_of_ne {m : Mode} {b : UInt8} (hq : b ≠ '"'.toUInt8) (hb : b ≠ '\\'.toUInt8) :
    m.nextByte b = ⟨m.quoted, false⟩ := by
  unfold nextByte
  rw [if_neg hq, beq_false_of_ne hb, ite_self]

/-- Bytes beyond ASCII open and close no literal, and the last of them escapes nothing. -/
theorem afterBytes_cons_of_le {b : UInt8} {bs : List UInt8} (h : ∀ d ∈ b :: bs, 128 ≤ d.toNat)
    (m : Mode) : m.afterBytes (b :: bs) = ⟨m.quoted, false⟩ := by
  have hstep : ∀ (m : Mode) {d : UInt8}, 128 ≤ d.toNat → m.nextByte d = ⟨m.quoted, false⟩ := by
    intro m d hd
    apply nextByte_of_ne <;> rintro rfl <;> exact absurd hd (by decide)
  induction bs generalizing b m with
  | nil => exact hstep m (h b List.mem_cons_self)
  | cons d bs ih =>
    rw [afterBytes_cons, ih fun e he => h e (List.mem_cons_of_mem b he),
      hstep m (h b List.mem_cons_self)]

theorem quoted_afterBytes {bs : List UInt8} (h : ∀ d ∈ bs, 128 ≤ d.toNat) (m : Mode) :
    (m.afterBytes bs).quoted = m.quoted := by
  cases bs with
  | nil => rfl
  | cons b bs => rw [afterBytes_cons_of_le h]

theorem nextByte_toUInt8 {c : Char} (h : c.toNat < 128) (m : Mode) :
    m.nextByte c.toUInt8 = m.next c := by
  have hquote := Text.toUInt8_eq_iff h (show '"'.toNat < 128 by decide)
  have hslash := Text.toUInt8_eq_iff h (show '\\'.toNat < 128 by decide)
  unfold nextByte next delimits
  cases m.escaped with
  | true => simp
  | false =>
    by_cases hq : c = '"'
    · simp [hq]
    · simp [hq, hquote, Bool.beq_eq_decide_eq, hslash]

/-- The bytes of a character do what the character does. -/
theorem afterBytes_encode (m : Mode) (c : Char) :
    m.afterBytes (String.utf8EncodeChar c) = m.next c := by
  by_cases h : c.toNat < 128
  · rw [Text.encode_of_ascii h]
    exact nextByte_toUInt8 h m
  · have hbytes := Text.le_of_mem_encode (Nat.le_of_not_lt h)
    have hsize := c.utf8Size_pos
    rw [← String.length_utf8EncodeChar] at hsize
    obtain ⟨b, bs, he⟩ := List.exists_cons_of_length_pos hsize
    rw [he] at hbytes ⊢
    rw [afterBytes_cons_of_le hbytes, next_of_ne]
    · rintro rfl
      exact h (by decide)
    · rintro rfl
      exact h (by decide)

theorem afterBytes_bytes (m : Mode) (t : Text) : m.afterBytes t.bytes = m.after t := by
  induction t generalizing m with
  | nil => rfl
  | cons c t ih => rw [Text.bytes_cons, afterBytes_append, afterBytes_encode, ih, after_cons]

theorem beforeByte_append (s t : Text) : beforeByte (s ++ t) s.byteSize = start.after s := by
  rw [beforeByte, Text.bytes_append, ← Text.length_bytes, List.take_left, afterBytes_bytes]

/-! ## The automaton and the count of delimiting quotes -/

/-- Fewer bytes than a character has change nothing about the open literal. -/
theorem quoted_afterBytes_take {c : Char} {n : Nat} (h : n < c.utf8Size) (m : Mode) :
    (m.afterBytes ((String.utf8EncodeChar c).take n)).quoted = m.quoted := by
  by_cases hc : c.toNat < 128
  · have hsize := String.length_utf8EncodeChar c
    rw [Text.encode_of_ascii hc, List.length_singleton] at hsize
    have hzero : n = 0 := by omega
    rw [hzero, List.take_zero, afterBytes_nil]
  · apply quoted_afterBytes
    intro b hb
    exact Text.le_of_mem_encode (Nat.le_of_not_lt hc) b (List.mem_of_mem_take hb)

theorem le_of_mem_delimiterOffsetsFrom {before : Text} {offset : Nat} {t : Text} {n : Nat}
    (h : n ∈ delimiterOffsetsFrom before offset t) : offset ≤ n := by
  induction t generalizing before offset with
  | nil => simp [delimiterOffsetsFrom] at h
  | cons c t ih =>
    unfold delimiterOffsetsFrom at h
    split at h
    · rcases List.mem_cons.1 h with rfl | h
      · exact Nat.le_refl n
      · have := ih h
        omega
    · have := ih h
      omega

/-- No delimiter lies before an offset inside the first character of a text. -/
theorem countP_delimiterOffsetsFrom_eq_zero (before : Text) (offset : Nat) {c : Char} (t : Text)
    {n : Nat} (h : n < c.utf8Size) :
    (delimiterOffsetsFrom before offset (c :: t)).countP (· < offset + n) = 0 := by
  rw [List.countP_eq_zero]
  intro d hd
  have hle := le_of_mem_delimiterOffsetsFrom hd
  rw [decide_eq_true_eq]
  unfold delimiterOffsetsFrom at hd
  split at hd
  · next hdelimiter =>
    -- a quote is a single byte
    have hquote : c = '"' := by
      unfold isDelimiter at hdelimiter
      simpa using (Bool.and_eq_true_iff.1 hdelimiter).1
    have hsize : c.utf8Size = 1 := by rw [hquote]; rfl
    omega
  · have hlater := le_of_mem_delimiterOffsetsFrom hd
    omega

/-- The parity of the delimiters before an offset is what the automaton has changed up to there. -/
theorem countP_delimiterOffsetsFrom (before : Text) (offset : Nat) (t : Text) (n : Nat)
    (quoted : Bool) :
    ((delimiterOffsetsFrom before offset t).countP (· < offset + n) % 2 == 1) =
      (quoted ^^ ((⟨quoted, escapes before⟩ : Mode).afterBytes (t.bytes.take n)).quoted) := by
  induction t generalizing before offset n quoted with
  | nil => simp [delimiterOffsetsFrom]
  | cons c t ih =>
    have hsize := String.length_utf8EncodeChar c
    by_cases hn : n < c.utf8Size
    · -- the offset lies in `c`, where nothing has happened yet
      have htake : (Text.bytes (c :: t)).take n = (String.utf8EncodeChar c).take n := by
        rw [Text.bytes_cons, List.take_append_of_le_length (by omega)]
      rw [countP_delimiterOffsetsFrom_eq_zero before offset t hn, htake, quoted_afterBytes_take hn]
      simp
    · have htake : (Text.bytes (c :: t)).take n =
          String.utf8EncodeChar c ++ (Text.bytes t).take (n - c.utf8Size) := by
        rw [Text.bytes_cons, List.take_append, List.take_of_length_le (by omega), hsize]
      have hoffset : offset + n = offset + c.utf8Size + (n - c.utf8Size) := by omega
      have hpos : offset < offset + c.utf8Size + (n - c.utf8Size) := by
        have := c.utf8Size_pos
        omega
      have hrest := ih (c :: before) (offset + c.utf8Size) (n - c.utf8Size)
        (quoted ^^ isDelimiter before c)
      rw [htake, hoffset, afterBytes_append, afterBytes_encode, next_of_before,
        delimiterOffsetsFrom]
      cases hd : isDelimiter before c with
      | false =>
        rw [hd, Bool.xor_false] at hrest
        simpa [hd] using hrest
      | true =>
        rw [hd, Bool.xor_true] at hrest
        rw [Bool.xor_true, if_pos rfl, List.countP_cons_of_pos (by simpa using hpos)]
        -- one more delimiter flips both sides
        have hflip : ∀ k : Nat, ((k + 1) % 2 == 1) = !(k % 2 == 1) := by
          intro k
          rcases Nat.mod_two_eq_zero_or_one k with h | h <;> simp [Nat.add_mod, h]
        rw [hflip, hrest]
        cases quoted <;> simp

theorem insideString_eq_beforeByte (line : Text) (offset : Nat) :
    insideString line offset = (beforeByte line offset).quoted := by
  have h := countP_delimiterOffsetsFrom [] 0 line offset false
  rw [Nat.zero_add, Bool.false_xor] at h
  rw [insideString, delimiterOffsets, h]
  rfl

/-- The scan of what stands before an offset agrees with the count of delimiting quotes. -/
theorem insideString_eq (s t : Text) :
    insideString (s ++ t) s.byteSize = (start.after s).quoted := by
  rw [insideString_eq_beforeByte, beforeByte_append]

end Mode

/-! ## The first comment -/

/-- Two slashes stand at byte `i` of a line, and no literal is open before them. -/
def CommentAt (line : Text) (i : Nat) : Prop :=
  line.bytes[i]? = some '/'.toUInt8 ∧ line.bytes[i + 1]? = some '/'.toUInt8 ∧
    (Mode.beforeByte line i).quoted = false

theorem commentAt_iff {line : Text} {i : Nat} : CommentAt line i ↔
    ∃ s t, line = s ++ '/' :: '/' :: t ∧ i = s.byteSize ∧ (Mode.start.after s).quoted = false := by
  have hslash : String.utf8EncodeChar '/' = ['/'.toUInt8] := Text.encode_of_ascii (by decide)
  constructor
  · rintro ⟨hfirst, hsecond, hquoted⟩
    obtain ⟨s, u, rfl, rfl⟩ := Text.exists_of_byte (by decide) hfirst
    rw [Mode.beforeByte_append] at hquoted
    -- behind the byte of the first slash the bytes of `u` begin
    have hnext : (Text.bytes u)[0]? = some '/'.toUInt8 := by
      rw [Text.bytes_append, List.getElem?_append_right (by simp), Text.length_bytes,
        Text.bytes_cons, hslash, Nat.add_sub_cancel_left] at hsecond
      exact hsecond
    obtain ⟨none, t, rfl, hzero⟩ := Text.exists_of_byte (by decide) hnext
    have hnone : none = [] := by
      have hle := Text.length_le_byteSize none
      rw [← hzero] at hle
      exact List.length_eq_zero_iff.1 (Nat.le_zero.1 hle)
    exact ⟨s, t, by rw [hnone]; rfl, rfl, hquoted⟩
  · rintro ⟨s, t, rfl, rfl, hquoted⟩
    refine ⟨?_, ?_, by rw [Mode.beforeByte_append, hquoted]⟩
    · rw [Text.bytes_append, List.getElem?_append_right (by simp)]
      simp [Text.bytes_cons, hslash]
    · rw [Text.bytes_append, List.getElem?_append_right (by simp)]
      simp [Text.bytes_cons, hslash]

theorem not_commentFree_comment {m : Mode} (h : m.quoted = false) (t : Text) :
    commentFree m ('/' :: '/' :: t) = false := by
  simp [commentFree, h]

theorem not_commentAt_of_commentFree {line : Text} (h : commentFree .start line = true) (i : Nat) :
    ¬ CommentAt line i := by
  rw [commentAt_iff]
  rintro ⟨s, t, rfl, -, hquoted⟩
  have hrest := commentFree_append_right h
  rw [not_commentFree_comment hquoted] at hrest
  exact absurd hrest (by simp)

/-- The first comment of a line comes first among the places where a comment could start. -/
theorem isLeast_commentAt {s : Text} (t : Text) (h : commentFree .start (s ++ ['/']) = true)
    (hquoted : (Mode.start.after s).quoted = false) :
    IsLeast {i | CommentAt (s ++ '/' :: '/' :: t) i} s.byteSize := by
  refine ⟨commentAt_iff.2 ⟨s, t, rfl, rfl, hquoted⟩, ?_⟩
  intro i hi
  obtain ⟨s', t', hcut, rfl, hquoted'⟩ := commentAt_iff.1 hi
  rw [List.append_eq_append_iff] at hcut
  rcases hcut with ⟨mid, rfl, -⟩ | ⟨mid, rfl, hmid⟩
  · rw [Text.byteSize_append]
    exact Nat.le_add_right _ _
  · cases mid with
    | nil => exact Nat.le_of_eq (by rw [List.append_nil])
    | cons c mid =>
      -- the other two slashes would both stand before the end of `s ++ ['/']`
      rw [List.cons_append, List.cons.injEq] at hmid
      obtain ⟨rfl, hmid⟩ := hmid
      obtain ⟨rest, hrest⟩ : ∃ rest, mid ++ ['/'] = '/' :: rest := by
        cases mid with
        | nil => exact ⟨[], rfl⟩
        | cons d mid =>
          rw [List.cons_append, List.cons.injEq] at hmid
          exact ⟨mid ++ ['/'], by rw [← hmid.1, List.cons_append]⟩
      rw [List.append_assoc] at h
      have hfree := commentFree_append_right h
      rw [List.cons_append, hrest, not_commentFree_comment hquoted'] at hfree
      exact absurd hfree (by simp)

/-! ## Both scanners -/

theorem split_trimEnd {t : Text} (h : commentFree .start t = true) :
    split t.trimEnd = ⟨t.trimEnd, []⟩ := by
  rw [split_of_commentFree (commentFree_trimEnd h),
    Text.trimEnd_eq_self (Text.getLast?_trimEnd_not_blank t)]

/-- Both scanners of a line agree with the automaton. An offset lies inside a literal when the
automaton is inside one before the byte there, or behind the last byte. A line is cut at the least
byte where two slashes stand with the automaton outside a literal before them, and has no comment
exactly when there is none; both parts lose the blanks at their end. The code of a line has no
comment of its own. -/
theorem scanners_automaton (line : Text) :
    (∀ offset, insideString line offset =
      (Mode.beforeByte line (min offset line.byteSize)).quoted) ∧
    (∀ i, IsLeast {i | CommentAt line i} i → ∃ front back, line.cutAt? i = some (front, back) ∧
      split line = ⟨front.trimEnd, back.trimEnd⟩) ∧
    ((∀ i, ¬ CommentAt line i) → split line = ⟨line.trimEnd, []⟩) ∧
    ((split line).comment = [] ↔ ∀ i, ¬ CommentAt line i) ∧
    split (split line).code = ⟨(split line).code, []⟩ := by
  refine ⟨?_, ?_⟩
  · intro offset
    rw [Mode.insideString_eq_beforeByte, Mode.beforeByte, Mode.beforeByte, ← Text.length_bytes,
      ← List.take_eq_take_min]
  · rcases split_cases line with ⟨hfree, he⟩ | ⟨s, t, rfl, hfree, hquoted, he⟩
    · have hnone := not_commentAt_of_commentFree hfree
      rw [he]
      refine ⟨?_, fun _ => rfl, by simp [hnone], split_trimEnd hfree⟩
      intro i hi
      exact absurd hi.1 (hnone i)
    · have hleast := isLeast_commentAt t hfree hquoted
      obtain ⟨rest, hcomment⟩ := exists_comment_trimEnd t
      rw [he]
      refine ⟨?_, ?_, ?_, split_trimEnd (commentFree_append_left hfree)⟩
      · intro i hi
        have hsame : i = s.byteSize := Nat.le_antisymm (hi.2 hleast.1) (hleast.2 hi.1)
        rw [hsame, Text.cutAt?_byteSize]
        exact ⟨s, _, rfl, rfl⟩
      · intro hnone
        exact absurd hleast.1 (hnone _)
      · rw [hcomment]
        refine ⟨fun hnil => absurd hnil (by simp), fun hnone => absurd hleast.1 (hnone _)⟩

-- an escaped quote leaves the literal open, and byte 4 lies inside `é`
example : split "s(\"é\\\"//\"); // c".toList = ⟨"s(\"é\\\"//\");".toList, "// c".toList⟩ ∧
    insideString "s(\"é\\\"//\"); // c".toList 4 = true := by decide +kernel

end YapAssist.Line
