import Mathlib.Tactic.ByContra
import Mathlib.Tactic.SplitIfs
import ModuleLoader.Json.Reader
/-!
# Every written form of a document is read back

A grammar of document texts: strings may escape any character in every way there is, blanks may
stand around each token, and containers nest up to the limit. The reader takes every text of the
grammar, whatever follows it, and finds the document it was written for. A number is any text that
is read as one by itself, since whether a magnitude overflows is a matter of doubles.
-/

namespace ModuleLoader.Json
set_option autoImplicit false

/-! ## Numbers -/

/-- Nothing at the start of `rest` continues a number. -/
def Ends (rest : List Char) : Prop :=
  ∀ c ∈ rest.head?, c.isDigit = false ∧ c ≠ '.' ∧ c ≠ 'e' ∧ c ≠ 'E'

theorem ends_nil : Ends [] := nofun

theorem dropWhile_digits_append (text : List Char) {rest : List Char} (ends : Ends rest) :
    (text ++ rest).dropWhile Char.isDigit = text.dropWhile Char.isDigit ++ rest := by
  induction text with
  | nil =>
    cases rest with
    | nil => rfl
    | cons c rest => simp [(ends c rfl).1]
  | cons c text ih =>
    by_cases digit : c.isDigit
    · simpa [digit] using ih
    · simp [digit]

theorem takeWhile_digits_append (text : List Char) {rest : List Char} (ends : Ends rest) :
    (text ++ rest).takeWhile Char.isDigit = text.takeWhile Char.isDigit := by
  induction text with
  | nil =>
    cases rest with
    | nil => rfl
    | cons c rest => simp [(ends c rfl).1]
  | cons c text ih =>
    by_cases digit : c.isDigit
    · simpa [digit] using ih
    · simp [digit]

theorem readPower_append (power : Nat) (text : List Char) {rest : List Char} (ends : Ends rest) :
    readPower power (text ++ rest) =
      ((readPower power text).1, (readPower power text).2 ++ rest) := by
  induction text generalizing power with
  | nil =>
    cases rest with
    | nil => rfl
    | cons c rest => simp [readPower, (ends c rfl).1]
  | cons c text ih =>
    simp only [List.cons_append, readPower]
    split
    · split
      · exact ih _
      · rw [dropWhile_digits_append text ends]
    · rfl

theorem readFraction_append (word : Nat) (power : Int) (text : List Char) {rest : List Char}
    (ends : Ends rest) :
    readFraction word power (text ++ rest) =
      ((readFraction word power text).1, (readFraction word power text).2.1,
        (readFraction word power text).2.2 ++ rest) := by
  induction text generalizing word power with
  | nil =>
    cases rest with
    | nil => rfl
    | cons c rest => simp [readFraction, (ends c rfl).1]
  | cons c text ih =>
    simp only [List.cons_append, readFraction]
    split
    · split
      · exact ih _ _
      · rw [dropWhile_digits_append text ends]
    · rfl

section
variable {positive upward : Bool} {word : Nat} {power : Int} {text left rest : List Char}
  {value : Number}

/-- The digits of a power of ten after its sign, then the whole number. -/
def readShift (positive upward : Bool) (word : Nat) (power : Int) (text : List Char) :
    Option (Number × List Char) :=
  match text with
  | [] => none
  | c :: _ =>
    if c.isDigit then
      match readPower 0 text with
      | (some shift, rest) =>
        let total := if upward then power + shift else power - shift
        let total := max (-(powerLimit : Int)) (min (powerLimit - 1) total)
        (assemble positive word total).map (·, rest)
      | (none, rest) =>
        if word ≠ 0 && upward then none
        else some (.real (if positive then 0.0 else -0.0), rest)
    else none

theorem readExponent_plus (positive : Bool) (word : Nat) (power : Int) (text : List Char) :
    readExponent positive word power ('+' :: text) = readShift positive true word power text := rfl

theorem readExponent_minus (positive : Bool) (word : Nat) (power : Int) (text : List Char) :
    readExponent positive word power ('-' :: text) = readShift positive false word power text := rfl

theorem readExponent_unsigned (positive : Bool) (word : Nat) (power : Int) {c : Char}
    (text : List Char) (plus : c ≠ '+') (minus : c ≠ '-') :
    readExponent positive word power (c :: text) =
      readShift positive true word power (c :: text) := by
  unfold readExponent
  split
  next sign digits found =>
    have unsigned : (true, c :: text) = (sign, digits) := by simpa [plus, minus] using found
    cases unsigned
    rfl

theorem readShift_append (taken : readShift positive upward word power text = some (value, left))
    (ends : Ends rest) :
    readShift positive upward word power (text ++ rest) = some (value, left ++ rest) := by
  cases text with
  | nil => cases taken
  | cons c text =>
    simp only [readShift, List.cons_append] at taken ⊢
    rw [← List.cons_append, readPower_append 0 (c :: text) ends]
    split
    next digit =>
      rw [if_pos digit] at taken
      rcases found : readPower 0 (c :: text) with ⟨_ | shift, others⟩
      · simp only [found] at taken ⊢
        split at taken
        next => cases taken
        next small => cases taken; rw [if_neg small]
      · simp only [found] at taken ⊢
        obtain ⟨number, made, same⟩ := Option.map_eq_some_iff.1 taken
        cases same
        rw [made]
        rfl
    next other => rw [if_neg other] at taken; cases taken

theorem readExponent_append (taken : readExponent positive word power text = some (value, left))
    (ends : Ends rest) :
    readExponent positive word power (text ++ rest) = some (value, left ++ rest) := by
  cases text with
  | nil => cases taken
  | cons c text =>
    by_cases plus : c = '+'
    · subst plus
      rw [readExponent_plus] at taken
      rw [List.cons_append, readExponent_plus]
      exact readShift_append taken ends
    by_cases minus : c = '-'
    · subst minus
      rw [readExponent_minus] at taken
      rw [List.cons_append, readExponent_minus]
      exact readShift_append taken ends
    · rw [readExponent_unsigned positive word power text plus minus] at taken
      rw [List.cons_append, readExponent_unsigned positive word power _ plus minus]
      exact readShift_append taken ends

theorem readEnding_append (taken : readEnding positive word power text = some (value, left))
    (ends : Ends rest) :
    readEnding positive word power (text ++ rest) = some (value, left ++ rest) := by
  cases text with
  | nil =>
    obtain ⟨number, made, same⟩ := Option.map_eq_some_iff.1 taken
    cases same
    cases rest with
    | nil => simp [readEnding, made]
    | cons c rest =>
      obtain ⟨-, -, small, capital⟩ := ends c rfl
      simp [readEnding, made, small, capital]
  | cons c text =>
    simp only [readEnding, List.cons_append] at taken ⊢
    split
    next mark =>
      rw [if_pos mark] at taken
      exact readExponent_append taken ends
    next other =>
      rw [if_neg other] at taken
      obtain ⟨number, made, same⟩ := Option.map_eq_some_iff.1 taken
      cases same
      simp [made]

theorem readPoint_append (taken : readPoint positive word power text = some (value, left))
    (ends : Ends rest) :
    readPoint positive word power (text ++ rest) = some (value, left ++ rest) := by
  cases text with
  | nil => cases taken
  | cons c text =>
    simp only [readPoint, List.cons_append] at taken ⊢
    split
    next digit =>
      rw [if_pos digit] at taken
      rw [← List.cons_append, readFraction_append word power (c :: text) ends]
      exact readEnding_append taken ends
    next other => rw [if_neg other] at taken; cases taken

theorem readWhole_append (taken : readWhole positive word text = some (value, left))
    (ends : Ends rest) :
    readWhole positive word (text ++ rest) = some (value, left ++ rest) := by
  cases text with
  | nil =>
    cases rest with
    | nil => simpa using taken
    | cons c rest =>
      obtain ⟨-, point, small, capital⟩ := ends c rfl
      cases taken
      simp [readWhole, small, capital]
  | cons c text =>
    by_cases point : c = '.'
    · subst point; exact readPoint_append taken ends
    · simp only [readWhole, List.cons_append] at taken ⊢
      split
      next mark =>
        rw [if_pos mark] at taken
        exact readExponent_append taken ends
      next other =>
        rw [if_neg other] at taken
        cases taken
        rfl

theorem readLong_append (taken : readLong positive word text = some (value, left))
    (ends : Ends rest) :
    readLong positive word (text ++ rest) = some (value, left ++ rest) := by
  simp only [readLong, takeWhile_digits_append text ends, dropWhile_digits_append text ends]
    at taken ⊢
  generalize (text.takeWhile Char.isDigit).length = power at taken ⊢
  generalize text.dropWhile Char.isDigit = others at taken ⊢
  cases others with
  | nil =>
    cases rest with
    | nil => simpa using taken
    | cons c rest =>
      have point := (ends c rfl).2.1
      have ending : readEnding positive word power ([] ++ c :: rest) =
          some (value, left ++ c :: rest) := readEnding_append taken ends
      simpa [point] using ending
  | cons c others =>
    by_cases point : c = '.'
    · subst point; exact readPoint_append taken ends
    · have ending : readEnding positive word power (c :: others) = some (value, left) := by
        simpa [point] using taken
      simpa [point] using readEnding_append ending ends

theorem readDigits_append (taken : readDigits positive word text = some (value, left))
    (ends : Ends rest) :
    readDigits positive word (text ++ rest) = some (value, left ++ rest) := by
  induction text generalizing word with
  | nil =>
    have whole : readWhole positive word ([] ++ rest) = some (value, left ++ rest) :=
      readWhole_append taken ends
    cases rest with
    | nil => exact whole
    | cons c rest => simpa [readDigits, (ends c rfl).1] using whole
  | cons c text ih =>
    simp only [readDigits, List.cons_append] at taken ⊢
    split
    next digit =>
      rw [if_pos digit] at taken
      split
      next room => rw [if_pos room] at taken; exact ih taken
      next full => rw [if_neg full] at taken; exact readLong_append taken ends
    next other => rw [if_neg other] at taken; exact readWhole_append taken ends

theorem readUnsigned_append (taken : readUnsigned positive text = some (value, left))
    (ends : Ends rest) :
    readUnsigned positive (text ++ rest) = some (value, left ++ rest) := by
  cases text with
  | nil => cases taken
  | cons c text =>
    simp only [readUnsigned, List.cons_append] at taken ⊢
    split
    next zero =>
      rw [if_pos zero] at taken
      cases text with
      | nil =>
        have whole : readWhole positive 0 ([] ++ rest) = some (value, left ++ rest) :=
      readWhole_append taken ends
        cases rest with
        | nil => exact whole
        | cons c rest => simpa [(ends c rfl).1] using whole
      | cons d text =>
        simp only [List.cons_append] at taken ⊢
        split
        next digit => rw [if_pos digit] at taken; cases taken
        next other => rw [if_neg other] at taken; exact readWhole_append taken ends
    next other =>
      rw [if_neg other] at taken
      split
      next digit => rw [if_pos digit] at taken; exact readDigits_append taken ends
      next digit => rw [if_neg digit] at taken; cases taken

theorem readNumber_unsigned {c : Char} (text : List Char) (minus : c ≠ '-') :
    readNumber (c :: text) = readUnsigned true (c :: text) := by
  simp [readNumber, minus]

/-- A number is read the same whatever follows it, as long as it does not go on there. -/
theorem readNumber_append (taken : readNumber text = some (value, left)) (ends : Ends rest) :
    readNumber (text ++ rest) = some (value, left ++ rest) := by
  cases text with
  | nil => cases taken
  | cons c text =>
    by_cases minus : c = '-'
    · subst minus; exact readUnsigned_append taken ends
    · rw [readNumber_unsigned text minus] at taken
      rw [List.cons_append, readNumber_unsigned _ minus]
      exact readUnsigned_append taken ends

end

/-! ## Strings -/

/-- The text between the quotes spells these characters: each stands for itself, or is escaped. -/
inductive Letters : List Char → List Char → Prop where
  | nil : Letters [] []
  | plain {c : Char} {chars text : List Char} (quote : c ≠ '"') (backslash : c ≠ '\\')
      (shown : 0x20 ≤ c.toNat) (letters : Letters chars text) : Letters (c :: chars) (c :: text)
  | escape {e c : Char} {chars text : List Char} (named : simpleEscape e = some c)
      (letters : Letters chars text) : Letters (c :: chars) ('\\' :: e :: text)
  | code {a b c d : Char} {code : Nat} {chars text : List Char} (hex : hexWord a b c d = some code)
      (whole : code < 0xD800 ∨ 0xE000 ≤ code) (letters : Letters chars text) :
      Letters (Char.ofNat code :: chars) ('\\' :: 'u' :: a :: b :: c :: d :: text)
  | pair {a b c d a' b' c' d' : Char} {high low : Nat} {chars text : List Char}
      (hexHigh : hexWord a b c d = some high) (hexLow : hexWord a' b' c' d' = some low)
      (upper : 0xD800 ≤ high ∧ high < 0xDC00) (lower : 0xDC00 ≤ low ∧ low < 0xE000)
      (letters : Letters chars text) :
      Letters (Char.ofNat (0x10000 + (high - 0xD800) * 1024 + (low - 0xDC00)) :: chars)
        ('\\' :: 'u' :: a :: b :: c :: d :: '\\' :: 'u' :: a' :: b' :: c' :: d' :: text)

theorem simpleEscape_ne {e c : Char} (named : simpleEscape e = some c) : e ≠ 'u' := by
  rintro rfl
  cases named

/-- A spelled string is read back, up to its closing quote. -/
theorem readString_letters {chars text : List Char} (letters : Letters chars text)
    (rest : List Char) : readString (text ++ '"' :: rest) = some (chars, rest) := by
  induction letters with
  | nil => simp [readString]
  | @plain c chars text quote backslash shown _ ih =>
    simp [readString, backslash, ih, Nat.not_lt.2 shown]
  | escape named _ ih =>
    simp [readString, simpleEscape_ne named, named, ih]
  | @code a b c d code chars text hex whole _ ih =>
    have high : ¬ (55296 ≤ code ∧ code < 56320) := by omega
    have low : ¬ (56320 ≤ code ∧ code < 57344) := by omega
    simp [readString, hex, ih, high, low]
  | pair hexHigh hexLow upper lower _ ih =>
    simp [readString, hexHigh, hexLow, upper, lower, ih]

theorem hexValue_digitChar {value : Nat} (small : value < 16) :
    hexValue (Nat.digitChar value) = some value := by
  have each : ∀ digit : Fin 16, hexValue (Nat.digitChar digit) = some digit.1 := by decide
  exact each ⟨value, small⟩

/-- Four hexadecimal digits give the number they were written for. -/
theorem hexWord_hexDigits (value : Nat) (small : value < 65536) :
    ∃ a b c d, Text.hexDigits value 4 = [a, b, c, d] ∧ hexWord a b c d = some value := by
  refine ⟨_, _, _, _, rfl, ?_⟩
  have digit (count : Nat) : hexValue (Nat.digitChar (count % 16)) = some (count % 16) :=
    hexValue_digitChar (Nat.mod_lt count (by decide))
  simp only [hexWord, digit, Option.bind_eq_bind, Option.bind_some, Option.pure_def,
    Option.some.injEq]
  omega

/-- A written character spells itself. -/
theorem Letters.documentChar {chars text : List Char} (letters : Letters chars text) (c : Char) :
    Letters (c :: chars) (Text.documentChar c ++ text) := by
  unfold Text.documentChar
  split_ifs with quote backslash back feed line carriage tab control
  · subst quote; exact .escape rfl letters
  · subst backslash; exact .escape rfl letters
  · subst back; exact .escape rfl letters
  · subst feed; exact .escape rfl letters
  · subst line; exact .escape rfl letters
  · subst carriage; exact .escape rfl letters
  · subst tab; exact .escape rfl letters
  · obtain ⟨x, y, z, w, digits, hex⟩ := hexWord_hexDigits c.toNat (by omega)
    have spelled := Letters.code hex (.inl (by omega)) letters
    rw [Char.ofNat_toNat] at spelled
    rwa [digits]
  · exact .plain quote backslash (Nat.not_lt.1 control) letters

/-- The written form of a string spells the string. -/
theorem letters_flatMap_documentChar (chars : List Char) :
    Letters chars (chars.flatMap Text.documentChar) := by
  induction chars with
  | nil => exact .nil
  | cons c chars ih => exact ih.documentChar c

/-! ## Blanks -/

/-- Only blanks, or nothing. -/
def Blank (text : List Char) : Prop :=
  ∀ c ∈ text, isBlank c = true

theorem blank_nil : Blank [] := nofun

theorem skipBlanks_append {blanks : List Char} (blank : Blank blanks) (text : List Char) :
    skipBlanks (blanks ++ text) = skipBlanks text := by
  exact List.dropWhile_append_of_pos blank

theorem skipBlanks_cons {c : Char} (token : isBlank c = false) (text : List Char) :
    skipBlanks (c :: text) = c :: text := by
  simp [skipBlanks, token]

theorem skipBlanks_append_cons {blanks : List Char} (blank : Blank blanks) {c : Char}
    (token : isBlank c = false) (text : List Char) : skipBlanks (blanks ++ c :: text) = c :: text := by
  rw [skipBlanks_append blank, skipBlanks_cons token]

/-! ## Documents -/

/-- The parts of a document text. -/
inductive Phrase where
  /-- A value, without blanks around it. -/
  | value (document : Json)
  /-- A value among blanks. -/
  | item (document : Json)
  /-- The items of an array with commas between them; at least one. -/
  | items (documents : List Json)
  /-- A name, a colon and a value, among blanks. -/
  | member (name : String) (document : Json)
  /-- The members of an object with commas between them; at least one. -/
  | members (pairs : List (String × Json))

/-- The text is a way to write the phrase in which at most so many containers stand inside each
other. -/
inductive Spells : Nat → Phrase → List Char → Prop where
  | null (depth : Nat) : Spells depth (.value .null) ['n', 'u', 'l', 'l']
  | yes (depth : Nat) : Spells depth (.value (.boolean true)) ['t', 'r', 'u', 'e']
  | no (depth : Nat) : Spells depth (.value (.boolean false)) ['f', 'a', 'l', 's', 'e']
  | number (depth : Nat) {value : Number} {text : List Char}
      (taken : readNumber text = some (value, [])) : Spells depth (.value (.number value)) text
  | string (depth : Nat) {chars text : List Char} (letters : Letters chars text) :
      Spells depth (.value (.string (String.ofList chars))) ('"' :: text ++ ['"'])
  | emptyArray (depth : Nat) {blanks : List Char} (blank : Blank blanks) :
      Spells (depth + 1) (.value (.array [])) ('[' :: blanks ++ [']'])
  | array {depth : Nat} {documents : List Json} {text : List Char}
      (inside : Spells depth (.items documents) text) :
      Spells (depth + 1) (.value (.array documents)) ('[' :: text ++ [']'])
  | emptyObject (depth : Nat) {blanks : List Char} (blank : Blank blanks) :
      Spells (depth + 1) (.value (.object [])) ('\x7b' :: blanks ++ ['\x7d'])
  | object {depth : Nat} {pairs : List (String × Json)} {text : List Char}
      (inside : Spells depth (.members pairs) text) :
      Spells (depth + 1) (.value (.object pairs)) ('\x7b' :: text ++ ['\x7d'])
  | item {depth : Nat} {document : Json} {before text after : List Char} (blank : Blank before)
      (inside : Spells depth (.value document) text) (blank' : Blank after) :
      Spells depth (.item document) (before ++ text ++ after)
  | lastItem {depth : Nat} {document : Json} {text : List Char}
      (inside : Spells depth (.item document) text) : Spells depth (.items [document]) text
  | moreItems {depth : Nat} {document : Json} {documents : List Json} {text others : List Char}
      (inside : Spells depth (.item document) text)
      (rest : Spells depth (.items documents) others) :
      Spells depth (.items (document :: documents)) (text ++ ',' :: others)
  | member {depth : Nat} {document : Json} {before name chars between text : List Char}
      (blank : Blank before) (letters : Letters chars name) (blank' : Blank between)
      (inside : Spells depth (.item document) text) :
      Spells depth (.member (String.ofList chars) document)
        (before ++ '"' :: name ++ '"' :: between ++ ':' :: text)
  | lastMember {depth : Nat} {name : String} {document : Json} {text : List Char}
      (inside : Spells depth (.member name document) text) :
      Spells depth (.members [(name, document)]) text
  | moreMembers {depth : Nat} {name : String} {document : Json} {pairs : List (String × Json)}
      {text others : List Char} (inside : Spells depth (.member name document) text)
      (rest : Spells depth (.members pairs) others) :
      Spells depth (.members ((name, document) :: pairs)) (text ++ ',' :: others)

/-- A text of a document: within the limit of depth, and among blanks. -/
def Spelled (document : Json) (text : String) : Prop :=
  Spells depthLimit (.item document) text.toList

/-- After blanks, the text goes on with a character that closes nothing. -/
def Opens (text : List Char) : Prop :=
  ∃ c others, skipBlanks text = c :: others ∧ c ≠ ']' ∧ c ≠ '\x7d'

theorem opens_cons {c : Char} (token : isBlank c = false) (bracket : c ≠ ']')
    (brace : c ≠ '\x7d') (text : List Char) : Opens (c :: text) :=
  ⟨c, text, skipBlanks_cons token text, bracket, brace⟩

theorem Opens.append {text : List Char} (opens : Opens text) (rest : List Char) :
    Opens (text ++ rest) := by
  obtain ⟨c, others, head, closes⟩ := opens
  refine ⟨c, others ++ rest, ?_, closes⟩
  rw [skipBlanks, List.dropWhile_append, ← skipBlanks, head]
  rfl

theorem Opens.after_blanks {blanks text : List Char} (opens : Opens text) (blank : Blank blanks) :
    Opens (blanks ++ text) := by
  rwa [Opens, skipBlanks_append blank]

/-- A number starts with a minus sign or a digit. -/
theorem readNumber_head {text left : List Char} {value : Number}
    (taken : readNumber text = some (value, left)) :
    ∃ c others, text = c :: others ∧ (c = '-' ∨ c.isDigit = true) := by
  cases text with
  | nil => cases taken
  | cons c text =>
    refine ⟨c, text, rfl, Classical.or_iff_not_imp_left.2 fun minus => ?_⟩
    rw [readNumber_unsigned text minus] at taken
    simp only [readUnsigned] at taken
    split at taken
    next zero => rw [zero]; rfl
    next other =>
      split at taken
      next digit => exact digit
      next => cases taken

theorem numeral_ne {c d : Char} (start : c = '-' ∨ c.isDigit = true)
    (other : d ≠ '-' ∧ d.isDigit = false) : c ≠ d := by
  rintro rfl
  rcases start with minus | digit
  · exact other.1 minus
  · rw [other.2] at digit; cases digit

theorem isBlank_numeral {c : Char} (start : c = '-' ∨ c.isDigit = true) : isBlank c = false := by
  simp [isBlank, numeral_ne start]

theorem opens_number {text left : List Char} {value : Number}
    (taken : readNumber text = some (value, left)) : Opens text := by
  obtain ⟨c, others, rfl, start⟩ := readNumber_head taken
  exact opens_cons (isBlank_numeral start) (numeral_ne start (by decide))
    (numeral_ne start (by decide)) others

/-- Every phrase opens with a token of its own. -/
theorem Spells.opens {depth : Nat} {phrase : Phrase} {text : List Char}
    (spells : Spells depth phrase text) : Opens text := by
  induction spells with
  | null | yes | no | emptyArray | array | emptyObject | object | string =>
    exact opens_cons (by decide) (by decide) (by decide) _
  | number _ taken => exact opens_number taken
  | item blank _ _ ih => exact (ih.after_blanks blank).append _
  | member blank =>
    rw [List.append_assoc, List.append_assoc]
    exact (opens_cons (by decide) (by decide) (by decide) _).after_blanks blank
  | lastItem _ ih => exact ih
  | lastMember _ ih => exact ih
  | moreItems _ _ ih _ => exact ih.append _
  | moreMembers _ _ ih _ => exact ih.append _

/-- No blank stands before a value. -/
theorem Spells.skipBlanks_value {depth : Nat} {document : Json} {text : List Char}
    (spells : Spells depth (.value document) text) (rest : List Char) :
    skipBlanks (text ++ rest) = text ++ rest := by
  cases spells with
  | number _ taken =>
    obtain ⟨c, others, rfl, start⟩ := readNumber_head taken
    exact skipBlanks_cons (isBlank_numeral start) _
  | _ => rfl

/-! ## The reader, token by token -/

section
variable {fuel depth : Nat} {text left : List Char}

theorem readValue_null (fuel depth : Nat) (rest : List Char) :
    readValue (fuel + 1) depth ('n' :: 'u' :: 'l' :: 'l' :: rest) = some (.null, rest) := rfl

theorem readValue_true (fuel depth : Nat) (rest : List Char) :
    readValue (fuel + 1) depth ('t' :: 'r' :: 'u' :: 'e' :: rest) = some (.boolean true, rest) := rfl

theorem readValue_false (fuel depth : Nat) (rest : List Char) :
    readValue (fuel + 1) depth ('f' :: 'a' :: 'l' :: 's' :: 'e' :: rest) = some (.boolean false, rest) := rfl

theorem readValue_string (fuel depth : Nat) (text : List Char) : readValue (fuel + 1) depth ('"' :: text) =
    (readString text).map fun (chars, rest) => (.string (String.ofList chars), rest) := rfl

theorem readValue_bracket (fuel depth : Nat) (text : List Char) :
    readValue (fuel + 1) (depth + 1) ('[' :: text) = match skipBlanks text with
      | ']' :: rest => some (.array [], rest)
      | rest => (readItems fuel depth rest).map fun (items, rest) => (.array items, rest) := rfl

theorem readValue_brace (fuel depth : Nat) (text : List Char) :
    readValue (fuel + 1) (depth + 1) ('\x7b' :: text) = match skipBlanks text with
      | '\x7d' :: rest => some (.object [], rest)
      | rest => (readMembers fuel depth rest).map fun (members, rest) => (.object members, rest) := rfl

theorem readItems_succ (fuel depth : Nat) (text : List Char) :
    readItems (fuel + 1) depth text = match readValue fuel depth text with
      | none => none
      | some (item, rest) =>
        match skipBlanks rest with
        | ']' :: rest => some ([item], rest)
        | ',' :: rest =>
          (readItems fuel depth (skipBlanks rest)).map fun (items, rest) => (item :: items, rest)
        | _ => none := rfl

theorem readMembers_quote (fuel depth : Nat) (text : List Char) :
    readMembers (fuel + 1) depth ('"' :: text) = match readString text with
      | none => none
      | some (name, rest) =>
        match skipBlanks rest with
        | ':' :: rest =>
          match readValue fuel depth (skipBlanks rest) with
          | none => none
          | some (value, rest) =>
            match skipBlanks rest with
            | '\x7d' :: rest => some ([(String.ofList name, value)], rest)
            | ',' :: rest => (readMembers fuel depth (skipBlanks rest)).map fun (members, rest) =>
              ((String.ofList name, value) :: members, rest)
            | _ => none
        | _ => none := rfl

/-- A numeral is read as a number. -/
theorem readValue_number {c : Char} (start : c = '-' ∨ c.isDigit = true) (fuel depth : Nat)
    (text : List Char) :
    readValue (fuel + 1) depth (c :: text) =
      (readNumber (c :: text)).map fun (value, rest) => (.number value, rest) := by
  rw [readValue]
  all_goals
    rintro rest same
    cases same
    exact numeral_ne start (by decide) rfl

/-- An array that does not close at once has items. -/
theorem readValue_items {c : Char} {others : List Char} (head : skipBlanks text = c :: others)
    (bracket : c ≠ ']') : readValue (fuel + 1) (depth + 1) ('[' :: text) =
      (readItems fuel depth (c :: others)).map fun (items, rest) => (.array items, rest) := by
  rw [readValue_bracket, head]
  split
  · rename_i same
    cases same
    exact absurd rfl bracket
  · rfl

/-- An object that does not close at once has members. -/
theorem readValue_members {c : Char} {others : List Char} (head : skipBlanks text = c :: others)
    (brace : c ≠ '\x7d') : readValue (fuel + 1) (depth + 1) ('\x7b' :: text) =
      (readMembers fuel depth (c :: others)).map fun (members, rest) => (.object members, rest) := by
  rw [readValue_brace, head]
  split
  · rename_i same
    cases same
    exact absurd rfl brace
  · rfl

end

/-! ## Reading what is written -/

/-- A blank or a closing sign ends a number. -/
theorem ends_of_head {rest : List Char}
    (head : ∀ c ∈ rest.head?, isBlank c = true ∨ c = ',' ∨ c = ']' ∨ c = '\x7d') : Ends rest := by
  intro c first
  rcases head c first with blank | rfl | rfl | rfl
  · simp only [isBlank, Bool.or_eq_true, decide_eq_true_eq] at blank
    rcases blank with ((rfl | rfl) | rfl) | rfl <;> decide
  all_goals decide

theorem ends_blanks {blanks rest : List Char} (blank : Blank blanks) (ends : Ends rest) :
    Ends (blanks ++ rest) := by
  cases blanks with
  | nil => exact ends
  | cons c blanks =>
    refine ends_of_head fun d first => ?_
    cases first
    exact .inl (blank c List.mem_cons_self)

/-- What the reader makes of a phrase, whatever follows it, with fuel for each of its characters. -/
def Reads (depth : Nat) (text : List Char) : Phrase → Prop
  | .value document => ∀ fuel rest, 2 * text.length ≤ fuel + 1 → Ends rest →
      readValue fuel depth (text ++ rest) = some (document, rest)
  | .item document => ∀ fuel rest, 2 * text.length ≤ fuel + 1 → Ends rest →
      ∃ left, readValue fuel depth (skipBlanks (text ++ rest)) = some (document, left) ∧
        skipBlanks left = skipBlanks rest
  | .items documents => ∀ fuel rest, 2 * text.length ≤ fuel →
      readItems fuel depth (skipBlanks (text ++ ']' :: rest)) = some (documents, rest)
  | .member name document => ∀ fuel, 2 * text.length ≤ fuel →
      (∀ rest, readMembers fuel depth (skipBlanks (text ++ '\x7d' :: rest)) =
        some ([(name, document)], rest)) ∧
      (∀ rest, readMembers fuel depth (skipBlanks (text ++ ',' :: rest)) =
        (readMembers (fuel - 1) depth (skipBlanks rest)).map
          fun (members, rest) => ((name, document) :: members, rest))
  | .members pairs => ∀ fuel rest, 2 * text.length ≤ fuel →
      readMembers fuel depth (skipBlanks (text ++ '\x7d' :: rest)) = some (pairs, rest)

namespace Reads

variable {depth : Nat} {text : List Char}

theorem string (depth : Nat) {chars : List Char} (letters : Letters chars text) :
    Reads depth ('"' :: text ++ ['"']) (.value (.string (String.ofList chars))) := by
  rintro (_ | fuel) rest enough -
  · simp at enough
    omega
  · rw [List.cons_append, List.cons_append, List.append_assoc, List.singleton_append, readValue_string,
      readString_letters letters]
    rfl

theorem emptyArray (depth : Nat) {blanks : List Char} (blank : Blank blanks) :
    Reads (depth + 1) ('[' :: blanks ++ [']']) (.value (.array [])) := by
  rintro (_ | fuel) rest enough -
  · simp at enough
    omega
  · have closed : skipBlanks (blanks ++ [']'] ++ rest) = ']' :: rest := by
      rw [List.append_assoc]
      exact skipBlanks_append_cons blank (by decide) rest
    rw [List.cons_append, List.cons_append, readValue_bracket, closed]
    rfl

theorem array {documents : List Json} (opens : Opens text) (inside : Reads depth text (.items documents)) :
    Reads (depth + 1) ('[' :: text ++ [']']) (.value (.array documents)) := by
  rintro (_ | fuel) rest enough -
  · simp at enough
    omega
  · have items := inside fuel rest (by simp at enough; omega)
    obtain ⟨c, others, head, bracket, -⟩ := opens.append (']' :: rest)
    rw [List.cons_append, List.cons_append, List.append_assoc, List.singleton_append,
      readValue_items head bracket, ← head, items]
    rfl

theorem emptyObject (depth : Nat) {blanks : List Char} (blank : Blank blanks) :
    Reads (depth + 1) ('\x7b' :: blanks ++ ['\x7d']) (.value (.object [])) := by
  rintro (_ | fuel) rest enough -
  · simp at enough
    omega
  · have closed : skipBlanks (blanks ++ ['\x7d'] ++ rest) = '\x7d' :: rest := by
      rw [List.append_assoc]
      exact skipBlanks_append_cons blank (by decide) rest
    rw [List.cons_append, List.cons_append, readValue_brace, closed]
    rfl

theorem object {pairs : List (String × Json)} (opens : Opens text)
    (inside : Reads depth text (.members pairs)) :
    Reads (depth + 1) ('\x7b' :: text ++ ['\x7d']) (.value (.object pairs)) := by
  rintro (_ | fuel) rest enough -
  · simp at enough
    omega
  · have members := inside fuel rest (by simp at enough; omega)
    obtain ⟨c, others, head, -, brace⟩ := opens.append ('\x7d' :: rest)
    rw [List.cons_append, List.cons_append, List.append_assoc, List.singleton_append,
      readValue_members head brace, ← head, members]
    rfl

theorem lastItem {document : Json} (opens : Opens text) (inside : Reads depth text (.item document)) :
    Reads depth text (.items [document]) := by
  rintro (_ | fuel) rest enough
  · obtain ⟨c, others, head, -⟩ := opens
    cases text
    · cases head
    · simp at enough
  · obtain ⟨left, value, closed⟩ := inside fuel (']' :: rest) (by omega) (ends_of_head (by simp))
    rw [skipBlanks_cons (by decide)] at closed
    rw [readItems_succ, value]
    dsimp only
    rw [closed]
    rfl

theorem moreItems {document : Json} {documents : List Json} {others : List Char}
    (inside : Reads depth text (.item document)) (more : Reads depth others (.items documents)) :
    Reads depth (text ++ ',' :: others) (.items (document :: documents)) := by
  rintro (_ | fuel) rest enough
  · simp at enough
  · simp only [List.length_append, List.length_cons] at enough
    obtain ⟨left, value, closed⟩ :=
      inside fuel (',' :: (others ++ ']' :: rest)) (by omega) (ends_of_head (by simp))
    rw [skipBlanks_cons (by decide)] at closed
    rw [List.append_assoc, List.cons_append, readItems_succ, value]
    dsimp only
    rw [closed]
    change (readItems fuel depth (skipBlanks (others ++ ']' :: rest))).map _ = _
    rw [more fuel rest (by omega)]
    rfl

/-- A member is read up to the sign after it, whether that goes on or closes the object. -/
theorem member {document : Json} {before chars name between : List Char} (blank : Blank before)
    (letters : Letters chars name) (blank' : Blank between) (inside : Reads depth text (.item document)) :
    Reads depth (before ++ '"' :: name ++ '"' :: between ++ ':' :: text)
      (.member (String.ofList chars) document) := by
  rintro (_ | fuel) enough
  · simp at enough
  · simp only [List.length_append, List.length_cons] at enough
    have head (rest : List Char) :
        skipBlanks (before ++ '"' :: name ++ '"' :: between ++ ':' :: text ++ rest) =
          '"' :: (name ++ '"' :: (between ++ ':' :: (text ++ rest))) := by
      simp only [List.append_assoc, List.cons_append]
      exact skipBlanks_append_cons blank (by decide) _
    have colon (more : List Char) : skipBlanks (between ++ ':' :: more) = ':' :: more :=
      skipBlanks_append_cons blank' (by decide) more
    refine ⟨fun rest => ?_, fun rest => ?_⟩
    · obtain ⟨left, value, closed⟩ := inside fuel ('\x7d' :: rest) (by omega) (ends_of_head (by simp))
      rw [skipBlanks_cons (by decide)] at closed
      rw [head, readMembers_quote, readString_letters letters]
      simp only [colon, value, closed]
    · obtain ⟨left, value, closed⟩ := inside fuel (',' :: rest) (by omega) (ends_of_head (by simp))
      rw [skipBlanks_cons (by decide)] at closed
      rw [head, readMembers_quote, readString_letters letters]
      simp only [colon, value, closed]
      rfl

theorem moreMembers {name : String} {document : Json} {pairs : List (String × Json)}
    {others : List Char} (inside : Reads depth text (.member name document))
    (more : Reads depth others (.members pairs)) :
    Reads depth (text ++ ',' :: others) (.members ((name, document) :: pairs)) := by
  intro fuel rest enough
  simp only [List.length_append, List.length_cons] at enough
  have members := more (fuel - 1) rest (by omega)
  simpa [members] using (inside fuel (by omega)).2 (others ++ '\x7d' :: rest)

end Reads

/-- The reader takes every phrase of the grammar. -/
theorem Spells.reads {depth : Nat} {phrase : Phrase} {text : List Char}
    (spells : Spells depth phrase text) : Reads depth text phrase := by
  -- By induction on how it is spelled.
  induction spells with
  | null depth =>
    rintro (_ | fuel) rest enough -
    · simp at enough
    · exact readValue_null fuel depth rest
  | yes depth =>
    rintro (_ | fuel) rest enough -
    · simp at enough
    · exact readValue_true fuel depth rest
  | no depth =>
    rintro (_ | fuel) rest enough -
    · simp at enough
    · exact readValue_false fuel depth rest
  | @number depth value text taken =>
    obtain ⟨c, others, rfl, start⟩ := readNumber_head taken
    rintro (_ | fuel) rest enough ends
    · simp at enough
      omega
    · rw [List.cons_append, readValue_number start, ← List.cons_append,
        readNumber_append taken ends]
      rfl
  | string depth letters => exact .string depth letters
  | emptyArray depth blank => exact .emptyArray depth blank
  | array inside ih => exact .array inside.opens ih
  | emptyObject depth blank => exact .emptyObject depth blank
  | object inside ih => exact .object inside.opens ih
  | @item depth document before text after blank inside blank' ih =>
    intro fuel rest enough ends
    refine ⟨after ++ rest, ?_, skipBlanks_append blank' rest⟩
    have value := ih fuel (after ++ rest) (by simp at enough; omega) (ends_blanks blank' ends)
    simpa [skipBlanks_append blank, inside.skipBlanks_value] using value
  | lastItem inside ih => exact .lastItem inside.opens ih
  | moreItems _ _ ih ih' => exact .moreItems ih ih'
  | member blank letters blank' _ ih => exact .member blank letters blank' ih
  | lastMember _ ih =>
    intro fuel rest enough
    exact (ih fuel enough).1 rest
  | moreMembers _ _ ih ih' => exact .moreMembers ih ih'

/-- Every text of a document is read back as the document. -/
theorem parse_of_spelled {document : Json} {text : String} (spelled : Spelled document text) :
    parse text = some document := by
  obtain ⟨left, value, closed⟩ := spelled.reads (2 * text.toList.length + 2) [] (by omega) ends_nil
  have done : (skipBlanks left).isEmpty = true := by rw [closed]; rfl
  rw [List.append_nil] at value
  rw [parse, parseChars, value]
  exact if_pos done

end ModuleLoader.Json
