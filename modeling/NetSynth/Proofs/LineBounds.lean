import Mathlib.Data.List.DropRight
import NetSynth.Proofs.LineTable

/-! The line on which a byte lies, as the bytes before it and from it on up to the next line feeds.
Nothing here counts lines; the rows of a text turn out to be these same bytes. -/
namespace NetSynth.LineTable

def lineHead (bytes : List UInt8) (offset : Nat) : List UInt8 :=
  (bytes.take offset).rtakeWhile (· != 10)

def lineTail (bytes : List UInt8) (offset : Nat) : List UInt8 :=
  (bytes.drop offset).takeWhile (· != 10)

def lineStart (bytes : List UInt8) (offset : Nat) : Nat := offset - (lineHead bytes offset).length

/-- The offset of the line feed that ends the line of an offset, or of the end of the text. -/
def lineEnd (bytes : List UInt8) (offset : Nat) : Nat := offset + (lineTail bytes offset).length

/-- The offset at which the carriage returns begin that end the line of an offset, or where the line
ends if there are none. -/
def textEnd (bytes : List UInt8) (offset : Nat) : Nat :=
  lineStart bytes offset +
    ((lineHead bytes offset ++ lineTail bytes offset).rdropWhile (· == 13)).length

open Rows (byteCount before split Locates)

variable {text row : List Char} {front line back : List UInt8} {offset place : Nat}

theorem lineHead_append (starts : front = [] ∨ ∃ rest, front = rest ++ [10]) (plain : 10 ∉ line)
    (low : front.length ≤ offset) (high : offset ≤ front.length + line.length) :
    lineHead (front ++ (line ++ back)) offset = line.take (offset - front.length) := by
  obtain ⟨count, rfl⟩ := Nat.exists_eq_add_of_le low
  have short : count ≤ line.length := Nat.le_of_add_le_add_left high
  have onLine : ∀ byte ∈ (line.take count).reverse, (byte != 10) = true := by
    intro byte member
    have inLine := List.mem_of_mem_take (List.mem_reverse.mp member)
    exact bne_iff_ne.mpr fun feed => plain (feed ▸ inLine)
  have nothing : front.reverse.takeWhile (· != 10) = [] := by
    rcases starts with rfl | ⟨rest, rfl⟩
    · rfl
    · simp
  rw [lineHead, List.take_length_add_append, List.take_append_of_le_length short,
    Nat.add_sub_cancel_left, List.rtakeWhile, List.reverse_append,
    List.takeWhile_append_of_pos onLine, nothing, List.append_nil, List.reverse_reverse]

theorem lineTail_append (stops : back = [] ∨ ∃ rest, back = 10 :: rest) (plain : 10 ∉ line)
    (low : front.length ≤ offset) (high : offset ≤ front.length + line.length) :
    lineTail (front ++ (line ++ back)) offset = line.drop (offset - front.length) := by
  obtain ⟨count, rfl⟩ := Nat.exists_eq_add_of_le low
  have short : count ≤ line.length := Nat.le_of_add_le_add_left high
  have onLine : ∀ byte ∈ line.drop count, (byte != 10) = true :=
    fun byte member => bne_iff_ne.mpr fun feed => plain (feed ▸ List.mem_of_mem_drop member)
  have nothing : back.takeWhile (· != 10) = [] := by
    rcases stops with rfl | ⟨rest, rfl⟩ <;> rfl
  rw [lineTail, List.drop_length_add_append, List.drop_append_of_le_length short,
    Nat.add_sub_cancel_left, List.takeWhile_append_of_pos onLine, nothing, List.append_nil]

/-- A byte below 128 is in the encoding of a text only if its letter is in the text. -/
theorem notMem_bytes (ascii : Char) (low : ascii.val.toNat < 128) (none : ascii ∉ row) :
    UInt8.ofNat ascii.val.toNat ∉ bytes row := by
  intro member
  obtain ⟨letter, inRow, byte⟩ := List.mem_flatMap.mp member
  exact notMem_utf8EncodeChar ascii low (fun same => none (same ▸ inRow)) byte

theorem line_of_locates (located : Locates (split text) offset place)
    (inText : offset ≤ byteCount text) (known : (split text)[place]? = some row) :
    lineHead (bytes text) offset = (bytes row).take (offset - before (split text) place) ∧
      lineTail (bytes text) offset = (bytes row).drop (offset - before (split text) place) := by
  obtain ⟨first, last, same, count, starts, stops⟩ := Rows.exists_parts known
  have plain : 10 ∉ bytes row :=
    notMem_bytes '\n' (by decide) (Rows.feed_notMem_of_mem_split (List.mem_of_getElem? known))
  have low := located.start
  have high := located.lt_before_succ inText
  rw [Rows.before_succ known, Nat.lt_succ_iff, ← length_bytes row] at high
  rw [Rows.intercalate_split] at same
  rw [← count, ← length_bytes] at low high ⊢
  rw [same, bytes_append, bytes_append]
  constructor
  · apply lineHead_append ?_ plain low high
    rcases starts with rfl | ⟨rest, rfl⟩
    · exact .inl rfl
    · exact .inr ⟨bytes rest, bytes_append rest _⟩
  · apply lineTail_append ?_ plain low high
    rcases stops with rfl | ⟨rest, rfl⟩
    · exact .inl rfl
    · exact .inr ⟨bytes rest, rfl⟩

theorem bytes_trimmed (row : List Char) :
    bytes (Rows.trimmed row) = (bytes row).rdropWhile (· == 13) := by
  rw [show Rows.trimmed row = row.rdropWhile (· == '\r') from rfl]
  induction row using List.reverseRecOn with
  | nil => rfl
  | append_singleton row letter ih =>
    by_cases isReturn : letter = '\r'
    · subst isReturn
      rw [List.rdropWhile_concat_pos _ _ _ (by decide), ih, bytes_append,
        show bytes ['\r'] = [13] from rfl, List.rdropWhile_concat_pos _ _ _ (by decide)]
    · have kept : (bytes (row ++ [letter])).rdropWhile (· == 13) = bytes (row ++ [letter]) := by
        rw [List.rdropWhile_eq_self_iff, bytes_append,
          show bytes [letter] = String.utf8EncodeChar letter from List.append_nil _]
        intro nonempty ends
        have some : String.utf8EncodeChar letter ≠ [] :=
          List.ne_nil_of_length_pos (String.length_utf8EncodeChar letter ▸ letter.utf8Size_pos)
        rw [List.getLast_append_of_ne_nil _ some, beq_iff_eq] at ends
        have member := List.getLast_mem some
        rw [ends] at member
        exact notMem_utf8EncodeChar '\r' (by decide) isReturn member
      rw [List.rdropWhile_concat_neg _ _ _ (by simpa using isReturn), kept]

/-- The bounds of the line of an offset are those of the row in which it lies. -/
theorem bounds_of_locates (located : Locates (split text) offset place)
    (inText : offset ≤ byteCount text) (known : (split text)[place]? = some row) :
    lineStart (bytes text) offset = before (split text) place ∧
      lineEnd (bytes text) offset = before (split text) place + byteCount row := by
  obtain ⟨head, tail⟩ := line_of_locates located inText known
  have low := located.start
  have high := located.lt_before_succ inText
  rw [Rows.before_succ known, Nat.lt_succ_iff, ← length_bytes row] at high
  constructor
  · rw [lineStart, head, List.length_take]
    omega
  · rw [lineEnd, tail, List.length_drop, ← length_bytes row]
    omega

theorem length_lineHead_le (bytes : List UInt8) (offset : Nat) :
    (lineHead bytes offset).length ≤ offset :=
  (List.rtakeWhile_suffix _ _).length_le.trans (List.length_take_le _ _)

theorem untrimmed_of_notMem (plain : 13 ∉ line) (offset : Nat) :
    (lineHead line offset ++ lineTail line offset).rdropWhile (· == 13) =
        lineHead line offset ++ lineTail line offset ∧
      textEnd line offset = lineEnd line offset := by
  have kept : (lineHead line offset ++ lineTail line offset).rdropWhile (· == 13) =
      lineHead line offset ++ lineTail line offset := by
    rw [List.rdropWhile_eq_self_iff]
    intro nonempty isReturn
    have member := List.getLast_mem nonempty
    rw [beq_iff_eq.mp isReturn, List.mem_append] at member
    rcases member with inHead | inTail
    · exact plain (List.mem_of_mem_take ((List.rtakeWhile_suffix _ _).mem inHead))
    · exact plain (List.mem_of_mem_drop ((List.takeWhile_prefix _).mem inTail))
  have low := length_lineHead_le line offset
  refine ⟨kept, ?_⟩
  rw [textEnd, kept, lineStart, lineEnd, List.length_append]
  omega

end NetSynth.LineTable
