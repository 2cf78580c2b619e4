import TreeWalk.Span

/-!
# Texts as bytes

In UTF-8 a byte below 128 stands for the ASCII character of that number and for nothing else. So
line breaks and carriage returns are found among the bytes of a text as among its characters.
-/

namespace TreeWalk.Text

/-- The bytes of a text in UTF-8. -/
def bytes (text : List Char) : List UInt8 :=
  text.flatMap String.utf8EncodeChar

variable {mark character : Char} {text : List Char}

@[simp] theorem bytes_nil : bytes [] = [] := rfl

@[simp] theorem bytes_cons (head : Char) (tail : List Char) :
    bytes (head :: tail) = String.utf8EncodeChar head ++ bytes tail := rfl

@[simp] theorem bytes_append (first second : List Char) :
    bytes (first ++ second) = bytes first ++ bytes second :=
  List.flatMap_append

/-- A text has as many bytes as its characters take. -/
theorem length_bytes (text : List Char) : (bytes text).length = Place.byteLength text := by
  induction text with
  | nil => rfl
  | cons head tail inductionHypothesis =>
      rw [bytes_cons, List.length_append, String.length_utf8EncodeChar, inductionHypothesis,
        Place.byteLength_cons]

/-- A string is kept as its bytes. -/
theorem toUTF8_toList (text : String) : text.toUTF8.data.toList = bytes text.toList := by
  have kept := congrArg String.toByteArray (String.ofList_toList (s := text))
  rw [String.toByteArray_ofList] at kept
  rw [String.toUTF8, ← kept, List.utf8Encode, List.toList_data_toByteArray]
  rfl

/-- A text is read back from its bytes. -/
theorem fromUTF8?_toUTF8 (text : String) : String.fromUTF8? text.toUTF8 = some text := by
  rw [String.toUTF8, String.fromUTF8?, dif_pos text.isValidUTF8]
  rfl

/-- The bytes of a text are text. -/
theorem fromUTF8?_bytes (text : List Char) :
    String.fromUTF8? ⟨(bytes text).toArray⟩ = some (String.ofList text) := by
  have kept : (⟨(bytes text).toArray⟩ : ByteArray) = (String.ofList text).toByteArray := by
    apply ByteArray.ext
    rw [String.toByteArray_ofList, List.utf8Encode]
    apply Array.toList_inj.1
    rw [List.toList_data_toByteArray]
    rfl
  rw [kept]
  exact fromUTF8?_toUTF8 _

/-- An ASCII character is one byte. -/
theorem encode_ascii (ascii : mark.toNat < 128) : String.utf8EncodeChar mark = [mark.toUInt8] := by
  have low : mark.val.toNat ≤ 127 := Nat.le_of_lt_succ ascii
  rw [String.utf8EncodeChar, if_pos low]
  rfl

/-- All bytes of another character are higher than those of ASCII. -/
theorem high_of_mem_encode (other : ¬ character.toNat < 128) {byte : UInt8}
    (present : byte ∈ String.utf8EncodeChar character) : 128 ≤ byte.toNat := by
  have high : ¬ character.val.toNat ≤ 127 := fun low => other (Nat.lt_succ_of_le low)
  rw [String.utf8EncodeChar, if_neg high] at present
  split at present
  next =>
    simp only [List.mem_cons, List.not_mem_nil, or_false] at present
    rcases present with rfl | rfl <;> (rw [UInt8.toNat_ofNat']; omega)
  next =>
    split at present
    next =>
      simp only [List.mem_cons, List.not_mem_nil, or_false] at present
      rcases present with rfl | rfl | rfl <;> (rw [UInt8.toNat_ofNat']; omega)
    next =>
      simp only [List.mem_cons, List.not_mem_nil, or_false] at present
      rcases present with rfl | rfl | rfl | rfl <;> (rw [UInt8.toNat_ofNat']; omega)

/-- An ASCII character is a byte of its own number. -/
theorem toNat_toUInt8 (ascii : mark.toNat < 128) : mark.toUInt8.toNat = mark.toNat := by
  have small : mark.toNat < 256 := by omega
  exact Nat.mod_eq_of_lt small

/-- The byte of an ASCII character is part of no other character. -/
theorem mem_encode (ascii : mark.toNat < 128) :
    mark.toUInt8 ∈ String.utf8EncodeChar character ↔ mark = character := by
  by_cases other : character.toNat < 128
  case pos =>
    rw [encode_ascii other, List.mem_singleton, ← UInt8.toNat_inj, toNat_toUInt8 ascii,
      toNat_toUInt8 other, Char.toNat_inj]
  case neg =>
    refine ⟨fun present => ?_, ?_⟩
    · have high := high_of_mem_encode other present
      rw [toNat_toUInt8 ascii] at high
      omega
    · rintro rfl
      exact absurd ascii other

/-- As many bytes of an ASCII character as there are such characters. -/
theorem count_bytes (ascii : mark.toNat < 128) (text : List Char) :
    (bytes text).count mark.toUInt8 = text.count mark := by
  induction text with
  | nil => rfl
  | cons head tail inductionHypothesis =>
      rw [bytes_cons, List.count_append, inductionHypothesis, List.count_cons, Nat.add_comm]
      congr 1
      by_cases same : head = mark
      · subst same
        rw [encode_ascii ascii, List.count_singleton_self, beq_self_eq_true, if_pos rfl]
      · rw [List.count_eq_zero.2 (fun present => same ((mem_encode ascii).1 present).symm)]
        simp [same]

/-- A text ends in an ASCII character if its bytes end in that one's. -/
theorem getLast?_bytes (ascii : mark.toNat < 128) :
    (bytes text).getLast? = some mark.toUInt8 ↔ text.getLast? = some mark := by
  rcases List.eq_nil_or_concat text with rfl | ⟨front, last, rfl⟩
  · simp
  obtain ⟨final, found⟩ : ∃ final, (String.utf8EncodeChar last).getLast? = some final :=
    Option.isSome_iff_exists.1 (List.getLast?_isSome.2 String.utf8EncodeChar_ne_nil)
  rw [List.concat_eq_append]
  have ends : (bytes (front ++ [last])).getLast? = some final := by
    rw [bytes_append, bytes_cons, bytes_nil, List.append_nil, List.getLast?_append, found,
      Option.some_or]
  rw [ends, List.getLast?_concat, Option.some.injEq, Option.some.injEq]
  constructor
  · rintro rfl
    exact ((mem_encode ascii).1 (List.mem_of_getLast? found)).symm
  · rintro rfl
    rw [encode_ascii ascii, List.getLast?_singleton] at found
    exact (Option.some.inj found).symm

end TreeWalk.Text
