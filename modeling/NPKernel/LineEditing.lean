import NPKernel.PrefixRuns

/-!
# Editing a line

The terminal collects a line from the bytes of the keyboard.  A backspace removes the bytes of
one character, but the room is tested for one byte at a time, so a character can be cut at the
end of the buffer.
-/

namespace NPKernel.LineEditing

def TTY_INPUT_LINE_MAX : ℕ := 512

def isContinuation (byte : UInt8) : Bool := byte &&& 0xc0 == 0x80

/-- The bytes before the last character, from the end. -/
def eraseFrom : List UInt8 → List UInt8
  | [] => []
  | byte :: line => if line ≠ [] ∧ isContinuation byte then eraseFrom line else line

def erase (line : List UInt8) : List UInt8 := (eraseFrom line.reverse).reverse

/-- One byte in the loop of `tty_collect_canonical_line` that does not end the line. -/
def collectByte (line : List UInt8) (byte : UInt8) : List UInt8 :=
  if byte = 0x08 ∨ byte = 0x7f then erase line
  else if (byte < 0x20 ∧ byte ≠ 0x09) ∨ TTY_INPUT_LINE_MAX ≤ line.length + 1 then line
  else line ++ [byte]

/-- The loop: the line once it is ended, and nothing as long as bytes are missing. -/
def collectLine (line : List UInt8) : List UInt8 → Option (List UInt8)
  | [] => none
  | byte :: bytes =>
    if byte = 0x0a ∨ byte = 0x0d then
      some (if line.length < TTY_INPUT_LINE_MAX then line ++ [0x0a] else line)
    else collectLine (collectByte line byte) bytes

/-- A tab or a character that is no control character of ASCII. -/
abbrev Printable := { char : Char // char = '\t' ∨ 0x20 ≤ char.toNat ∧ char.toNat ≠ 0x7f }

/-- A control character that neither edits nor ends the line. -/
abbrev Control := { byte : UInt8 // byte < 0x20 ∧ byte ∉ [0x08, 0x09, 0x0a, 0x0d] }

inductive Key
  | character (char : Printable)
  | control (byte : Control)
  | backspace
  | delete

def Key.bytes : Key → List UInt8
  | .character char => String.utf8EncodeChar char
  | .control byte => [byte.1]
  | .backspace => [0x08]
  | .delete => [0x7f]

def encode (text : List Char) : List UInt8 := text.flatMap String.utf8EncodeChar

/-- The editing of characters: a printable one is appended if all of it fits. -/
def edit (text : List Char) : Key → List Char
  | .character char =>
    if (encode text).length + char.1.utf8Size < TTY_INPUT_LINE_MAX then text ++ [char.1] else text
  | .control _ => text
  | .backspace => text.dropLast
  | .delete => text.dropLast

def edited (keys : List Key) : List Char := keys.foldl edit []

/-- The line has no room at all for the character, or enough. -/
def FitsOrFull (text : List Char) : Key → Prop
  | .character char => TTY_INPUT_LINE_MAX ≤ (encode text).length + 1 ∨
      (encode text).length + char.1.utf8Size < TTY_INPUT_LINE_MAX
  | _ => True

def collectKey (line : List UInt8) (key : Key) : List UInt8 := key.bytes.foldl collectByte line

/-! ## The bytes of a character -/

/-- A character is one byte below 128, or a first byte from 192 on and bytes between. -/
theorem encoding_cases (char : Char) :
    (char.toNat < 128 ∧ String.utf8EncodeChar char = [UInt8.ofNat char.toNat]) ∨
      ∃ first, ∃ rest : List ℕ,
        String.utf8EncodeChar char = UInt8.ofNat first :: rest.map UInt8.ofNat ∧
        (192 ≤ first ∧ first < 256) ∧ ∀ value ∈ rest, 128 ≤ value ∧ value < 192 := by
  unfold String.utf8EncodeChar Char.toNat
  dsimp only
  split
  · exact .inl ⟨by omega, rfl⟩
  split
  · refine .inr ⟨_, [_], rfl, ?_⟩
    simp only [List.mem_cons, List.not_mem_nil, or_false, forall_eq]
    omega
  split
  · refine .inr ⟨_, [_, _], rfl, ?_⟩
    simp only [List.mem_cons, List.not_mem_nil, or_false, forall_eq_or_imp, forall_eq]
    omega
  · refine .inr ⟨_, [_, _, _], rfl, ?_⟩
    simp only [List.mem_cons, List.not_mem_nil, or_false, forall_eq_or_imp, forall_eq]
    omega

theorem isContinuation_ofNat : ∀ value < 256,
    isContinuation (UInt8.ofNat value) = (128 ≤ value ∧ value < 192 : Bool) := by
  decide +kernel

theorem encoding_shape (char : Char) : ∃ first rest, String.utf8EncodeChar char = first :: rest ∧
    isContinuation first = false ∧ ∀ byte ∈ rest, isContinuation byte := by
  rcases encoding_cases char with ⟨hchar, hbytes⟩ | ⟨first, rest, hbytes, hfirst, hrest⟩
  · refine ⟨_, _, hbytes, ?_, by simp⟩
    rw [isContinuation_ofNat _ (by omega), decide_eq_false (by omega)]
  · refine ⟨_, _, hbytes, ?_, ?_⟩
    · rw [isContinuation_ofNat _ hfirst.2, decide_eq_false (by omega)]
    · intro byte hbyte
      obtain ⟨value, hvalue, rfl⟩ := List.mem_map.1 hbyte
      have hrange := hrest value hvalue
      rw [isContinuation_ofNat _ (by omega), decide_eq_true hrange]

/-- A byte that is taken for itself. -/
def PlainByte (byte : UInt8) : Prop :=
  ¬(byte = 0x08 ∨ byte = 0x7f) ∧ ¬(byte < 0x20 ∧ byte ≠ 0x09) ∧ ¬(byte = 0x0a ∨ byte = 0x0d)

theorem plainByte_encoding (char : Printable) :
    ∀ byte ∈ String.utf8EncodeChar char, PlainByte byte := by
  have hplain : ∀ value < 256, value = 0x09 ∨ 0x20 ≤ value ∧ value ≠ 0x7f →
      PlainByte (UInt8.ofNat value) := by
    unfold PlainByte
    decide +kernel
  intro byte hbyte
  rcases encoding_cases char with ⟨hchar, hbytes⟩ | ⟨first, rest, hbytes, hfirst, hrest⟩
  · rw [hbytes, List.mem_singleton] at hbyte
    subst hbyte
    apply hplain _ (by omega)
    rcases char.2 with htab | hprintable
    · exact .inl (by rw [htab]; rfl)
    · exact .inr hprintable
  · rw [hbytes, ← List.map_cons] at hbyte
    obtain ⟨value, hvalue, rfl⟩ := List.mem_map.1 hbyte
    rcases List.mem_cons.1 hvalue with rfl | hvalue
    · exact hplain _ hfirst.2 (by omega)
    · have hrange := hrest value hvalue
      exact hplain _ (by omega) (by omega)

/-- Continuation bytes are removed up to the byte that begins the character. -/
theorem eraseFrom_append {rest : List UInt8} (hrest : ∀ byte ∈ rest, isContinuation byte)
    {first : UInt8} (hfirst : isContinuation first = false) (line : List UInt8) :
    eraseFrom (rest ++ first :: line) = line := by
  induction rest with
  | nil => simp [eraseFrom, hfirst]
  | cons byte rest ih =>
    rw [List.cons_append, eraseFrom, if_pos ⟨by simp, hrest byte List.mem_cons_self⟩]
    exact ih fun other hother => hrest other (List.mem_cons_of_mem byte hother)

theorem erase_encode (text : List Char) : erase (encode text) = encode text.dropLast := by
  cases text using List.reverseRecOn with
  | nil => rfl
  | append_singleton text char =>
    obtain ⟨first, rest, hbytes, hfirst, hrest⟩ := encoding_shape char
    have hreverse : (encode (text ++ [char])).reverse =
        rest.reverse ++ first :: (encode text).reverse := by
      simp [encode, hbytes]
    rw [erase, hreverse, eraseFrom_append (by simpa using hrest) hfirst, List.reverse_reverse,
      List.dropLast_concat]

/-! ## The line -/

theorem collectKey_character (line : List UInt8) (char : Printable) :
    collectKey line (.character char) =
      line ++ (String.utf8EncodeChar char).take (TTY_INPUT_LINE_MAX - 1 - line.length) := by
  rw [← PrefixRuns.foldl_bounded]
  apply List.foldl_ext
  intro line byte hbyte
  obtain ⟨herase, hcontrol, -⟩ := plainByte_encoding char byte hbyte
  rw [collectByte, if_neg herase]
  by_cases hroom : line.length < TTY_INPUT_LINE_MAX - 1
  · rw [if_pos hroom, if_neg]
    rintro (h | h)
    · exact hcontrol h
    · omega
  · rw [if_neg hroom, if_pos (.inr (by omega))]

theorem collectKey_control (line : List UInt8) (byte : Control) :
    collectKey line (.control byte) = line := by
  obtain ⟨byte, hcontrol, hplain⟩ := byte
  simp only [List.mem_cons, not_or] at hplain
  change collectByte line byte = line
  rw [collectByte, if_neg, if_pos (.inl ⟨hcontrol, hplain.2.1⟩)]
  rintro (rfl | rfl)
  · exact hplain.1 rfl
  · exact absurd hcontrol (by decide)

theorem collectKey_eq_iff (text : List Char) (key : Key) :
    collectKey (encode text) key = encode (edit text key) ↔ FitsOrFull text key := by
  cases key with
  | control byte => exact iff_of_true (collectKey_control _ byte) trivial
  | backspace | delete => exact iff_of_true (erase_encode text) trivial
  | character char =>
    rw [collectKey_character, edit, FitsOrFull]
    split
    next hfits =>
      apply iff_of_true _ (.inr hfits)
      rw [List.take_of_length_le]
      · simp [encode]
      · rw [String.length_utf8EncodeChar]
        omega
    next hcut =>
      rw [List.append_right_eq_self, List.take_eq_nil_iff,
        or_iff_left String.utf8EncodeChar_ne_nil, or_iff_left hcut]
      omega

theorem eraseFrom_length_le (line : List UInt8) : (eraseFrom line).length ≤ line.length := by
  induction line with
  | nil => exact Nat.le_refl 0
  | cons byte line ih =>
    rw [eraseFrom]
    split
    · exact Nat.le_succ_of_le ih
    · exact Nat.le_succ _

theorem collectByte_length_lt {line : List UInt8} (hline : line.length < TTY_INPUT_LINE_MAX)
    (byte : UInt8) : (collectByte line byte).length < TTY_INPUT_LINE_MAX := by
  unfold collectByte
  split
  · have hle := eraseFrom_length_le line.reverse
    simp only [erase, List.length_reverse] at hle ⊢
    omega
  split
  · exact hline
  next hroom =>
    rw [List.length_append, List.length_singleton]
    omega

theorem collectLine_plain {bytes : List UInt8}
    (hbytes : ∀ byte ∈ bytes, ¬(byte = 0x0a ∨ byte = 0x0d))
    (line : List UInt8) (hline : line.length < TTY_INPUT_LINE_MAX) :
    collectLine line (bytes ++ [0x0a]) = some (bytes.foldl collectByte line ++ [0x0a]) := by
  induction bytes generalizing line with
  | nil => simp [collectLine, hline]
  | cons byte bytes ih =>
    rw [List.cons_append, collectLine, if_neg (hbytes byte List.mem_cons_self)]
    exact ih (fun other hother => hbytes other (List.mem_cons_of_mem byte hother)) _
      (collectByte_length_lt hline byte)

theorem collectLine_keys (keys : List Key) :
    collectLine [] (keys.flatMap Key.bytes ++ [0x0a]) =
      some (keys.foldl collectKey [] ++ [0x0a]) := by
  rw [collectLine_plain _ _ (by decide), List.foldl_flatMap]
  · rfl
  · intro byte hbyte
    obtain ⟨key, -, hkey⟩ := List.mem_flatMap.1 hbyte
    cases key with
    | character char => exact (plainByte_encoding char byte hkey).2.2
    | control control =>
      rw [List.mem_singleton.1 hkey]
      have hplain := control.2.2
      simp only [List.mem_cons, not_or] at hplain
      exact not_or.2 ⟨hplain.2.2.1, hplain.2.2.2.1⟩
    | backspace =>
      rw [List.mem_singleton.1 hkey]
      decide
    | delete =>
      rw [List.mem_singleton.1 hkey]
      decide

/-- The line is the edited one all along exactly when no character is cut. -/
theorem line_edited_iff (keys : List Key) :
    (∀ front, front <+: keys → collectLine [] (front.flatMap Key.bytes ++ [0x0a]) =
        some (encode (edited front ++ ['\n']))) ↔
      ∀ front key, front ++ [key] <+: keys → FitsOrFull (edited front) key := by
  have hnewline : ∀ front line,
      some (line ++ [0x0a]) = some (encode (edited front ++ ['\n'])) ↔
        line = encode (edited front) := by
    intro front line
    rw [Option.some.injEq, encode, List.flatMap_append]
    exact List.append_left_inj _
  simp only [collectLine_keys, hnewline]
  apply PrefixRuns.related_iff (fun line text => line = encode text) (show [] = encode [] by rfl)
  rintro _ text key rfl
  exact collectKey_eq_iff text key

/-- The line has room for the first byte of the last letter only. -/
theorem character_split :
    collectLine [] (encode (List.replicate 510 'a' ++ ['ı']) ++ [0x0a]) =
      some (List.replicate 510 0x61 ++ [0xc4, 0x0a]) := by
  decide +kernel

end NPKernel.LineEditing
