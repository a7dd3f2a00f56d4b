import OsLabs.Lib.CString
import Mathlib.Data.Nat.Digits.Defs

/-!
# Formatted scanning

A format of the scanf family as a list of directives.  `scan` gives the fields
that a call assigns, in order: it stops at the first directive that does not
match.  For each directive there is a rule for an input that starts with what
the directive takes.
-/

set_option autoImplicit false

namespace OsLabs.Scanf

open OsLabs.CString

/-- Directives: an ordinary character, `%ns`, `%n[^...]` and `%d`. -/
inductive Directive where
  | literal (byte : Byte)
  | word (width : Nat)
  | excluding (width : Nat) (excluded : List Byte)
  | decimal

inductive Field where
  | string (bytes : List Byte)
  | number (value : Int)
  deriving DecidableEq

def isDigit (byte : Byte) : Bool := 48 ≤ byte && byte ≤ 57

/-- The value of a string of decimal digits. -/
def digitsValue (digits : List Byte) : Nat :=
  Nat.ofDigits 10 (digits.map (fun byte => byte.toNat - 48)).reverse

/-- A number as `%d` stores it: converted as a `long`, with saturation, and cut to an `int`. -/
def storedInt (value : Int) : Int :=
  Int.bmod (max (-2 ^ 63) (min (2 ^ 63 - 1) value)) (2 ^ 32)

/-- An optional sign, and what follows it. -/
def splitSign : List Byte → Int × List Byte
  | 45 :: rest => (-1, rest)
  | 43 :: rest => (1, rest)
  | input => (1, input)

/-- The conversion `%d`. -/
def scanDecimal (input : List Byte) : Option (Int × List Byte) :=
  let (sign, rest) := splitSign (input.dropWhile isSpace)
  let digits := rest.takeWhile isDigit
  if digits = [] then none
  else some (storedInt (sign * digitsValue digits), rest.dropWhile isDigit)

/-- The conversion `%n[^...]`, which does not skip white space. -/
def scanExcluding (width : Nat) (excluded input : List Byte) : Option (List Byte × List Byte) :=
  let taken := (input.take width).takeWhile (fun byte => !excluded.contains byte)
  if taken = [] then none else some (taken, input.drop taken.length)

/-- One directive: the field it assigns, if any, and the remaining input. -/
def Directive.step : Directive → List Byte → Option (Option Field × List Byte)
  | .literal _, [] => none
  | .literal byte, next :: rest => if next = byte then some (none, rest) else none
  | .word width, input =>
      (scanWord width input).map fun (bytes, rest) => (some (.string bytes), rest)
  | .excluding width excluded, input =>
      (scanExcluding width excluded input).map fun (bytes, rest) => (some (.string bytes), rest)
  | .decimal, input =>
      (scanDecimal input).map fun (value, rest) => (some (.number value), rest)

def scan : List Directive → List Byte → List Field
  | [], _ => []
  | directive :: format, input =>
      match directive.step input with
      | none => []
      | some (field, rest) => field.toList ++ scan format rest

/-- Ordinary characters of a format. -/
def literals (bytes : List Byte) : List Directive := bytes.map .literal

/-! ## One directive -/

theorem scan_literals (bytes : List Byte) (format : List Directive) (input : List Byte) :
    scan (literals bytes ++ format) (bytes ++ input) = scan format input := by
  induction bytes with
  | nil => rfl
  | cons byte rest ih =>
      rw [literals] at ih
      simp [literals, scan, Directive.step, ih]

theorem scan_literal (byte : Byte) (format : List Directive) (input : List Byte) :
    scan (.literal byte :: format) (byte :: input) = scan format input :=
  scan_literals [byte] format input

theorem scan_literal_other (byte next : Byte) (format : List Directive) (input : List Byte)
    (other : next ≠ byte) : scan (.literal byte :: format) (next :: input) = [] := by
  simp [scan, Directive.step, other]

/-- A word within the width, up to an excluded byte. -/
theorem scan_excluding (width : Nat) (excluded bytes : List Byte) (stop : Byte)
    (format : List Directive) (input : List Byte) (nonempty : bytes ≠ [])
    (narrow : bytes.length ≤ width) (allowed : ∀ byte ∈ bytes, byte ∉ excluded)
    (stops : stop ∈ excluded) :
    scan (.excluding width excluded :: format) (bytes ++ stop :: input) =
      .string bytes :: scan format (stop :: input) := by
  have taken : ((bytes ++ stop :: input).take width).takeWhile
      (fun byte => !excluded.contains byte) = bytes := by
    rw [List.take_append, List.take_of_length_le narrow, List.takeWhile_append_of_pos]
    · cases room : width - bytes.length with
      | zero => simp
      | succ left => simp [stops]
    · intro byte member
      simpa using allowed byte member
  have scanned : scanExcluding width excluded (bytes ++ stop :: input) =
      some (bytes, stop :: input) := by
    rw [scanExcluding, taken, if_neg nonempty, List.drop_left]
  simp [scan, Directive.step, scanned]

/-- A word that is all of the input. -/
theorem scanWord_whole (width : Nat) (bytes : List Byte) (nonempty : bytes ≠ [])
    (narrow : bytes.length ≤ width) (unspaced : ∀ byte ∈ bytes, isSpace byte = false) :
    scanWord width bytes = some (bytes, []) := by
  have start : bytes.dropWhile isSpace = bytes := by
    cases bytes with
    | nil => rfl
    | cons byte rest => simp [unspaced byte (by simp)]
  have whole : bytes.takeWhile (fun byte => !isSpace byte) = bytes := by
    rw [List.takeWhile_eq_self_iff]
    intro byte member
    simp [unspaced byte member]
  have nothing : bytes.dropWhile (fun byte => !isSpace byte) = [] := by
    rw [List.dropWhile_eq_nil_iff]
    intro byte member
    simp [unspaced byte member]
  simp [scanWord, splitWord, start, whole, nothing, nonempty, List.take_of_length_le narrow,
    List.drop_eq_nil_of_le narrow]

theorem scan_word (width : Nat) (bytes : List Byte) (format : List Directive)
    (nonempty : bytes ≠ []) (narrow : bytes.length ≤ width)
    (unspaced : ∀ byte ∈ bytes, isSpace byte = false) :
    scan (.word width :: format) bytes = .string bytes :: scan format [] := by
  have whole := scanWord_whole width bytes nonempty narrow unspaced
  simp [scan, Directive.step, whole]

/-! ## Decimal numbers -/

/-- The decimal digits of a number. -/
def decimal (number : Nat) : List Byte :=
  ((Nat.digits 10 number).map (fun digit => UInt8.ofNat (48 + digit))).reverse

theorem digit_byte (digit : Nat) (small : digit < 10) :
    (UInt8.ofNat (48 + digit)).toNat = 48 + digit := by
  rw [UInt8.toNat_ofNat']
  omega

theorem decimal_isDigit (number : Nat) : ∀ byte ∈ decimal number, isDigit byte = true := by
  intro byte member
  obtain ⟨digit, isDigitOf, rfl⟩ := List.mem_map.mp (List.mem_reverse.mp member)
  have small : digit < 10 := Nat.digits_lt_base (by decide) isDigitOf
  have value := digit_byte digit small
  simp only [isDigit, Bool.and_eq_true, decide_eq_true_eq, UInt8.le_iff_toNat_le, value]
  have low : (48 : UInt8).toNat = 48 := rfl
  have high : (57 : UInt8).toNat = 57 := rfl
  omega

theorem digitsValue_decimal (number : Nat) : digitsValue (decimal number) = number := by
  have back : ((Nat.digits 10 number).map (fun digit => UInt8.ofNat (48 + digit))).map
      (fun byte => byte.toNat - 48) = Nat.digits 10 number := by
    rw [List.map_map]
    calc (Nat.digits 10 number).map _ = (Nat.digits 10 number).map id := by
          apply List.map_congr_left
          intro digit isDigitOf
          have small : digit < 10 := Nat.digits_lt_base (by decide) isDigitOf
          rw [Function.comp_apply, digit_byte digit small, Nat.add_sub_cancel_left, id]
      _ = Nat.digits 10 number := List.map_id _
  rw [digitsValue, decimal, List.map_reverse, List.reverse_reverse, back, Nat.ofDigits_digits]

theorem decimal_ne_nil (number : Nat) (positive : 0 < number) : decimal number ≠ [] := by
  rw [decimal, Ne, List.reverse_eq_nil_iff, List.map_eq_nil_iff, Nat.digits_eq_nil_iff_eq_zero]
  omega

theorem digit_visible (byte : Byte) (digit : isDigit byte = true) :
    isSpace byte = false ∧ byte ≠ 45 ∧ byte ≠ 43 := by
  have low : (48 : UInt8).toNat = 48 := rfl
  have high : (57 : UInt8).toNat = 57 := rfl
  simp only [isDigit, Bool.and_eq_true, decide_eq_true_eq, UInt8.le_iff_toNat_le, low, high]
    at digit
  refine ⟨?_, ?_, ?_⟩
  · have blank : (32 : UInt8).toNat = 32 := rfl
    have tab : (9 : UInt8).toNat = 9 := rfl
    have lineEnd : (13 : UInt8).toNat = 13 := rfl
    simp only [isSpace, Bool.or_eq_false_iff, Bool.and_eq_false_iff, decide_eq_false_iff_not,
      UInt8.le_iff_toNat_le, ← UInt8.toNat_inj, blank, tab, lineEnd]
    omega
  · intro same
    subst same
    exact absurd digit (by decide)
  · intro same
    subst same
    exact absurd digit (by decide)

/-- A string of digits, with a value that an `int` can hold. -/
theorem scanDecimal_digits (digits : List Byte) (nonempty : digits ≠ [])
    (areDigits : ∀ byte ∈ digits, isDigit byte = true) (small : digitsValue digits < 2 ^ 31) :
    scanDecimal digits = some ((digitsValue digits : Int), []) := by
  obtain ⟨first, others, split⟩ := List.exists_cons_of_ne_nil nonempty
  have firstDigit : isDigit first = true := areDigits first (by rw [split]; simp)
  obtain ⟨visible, notMinus, notPlus⟩ := digit_visible first firstDigit
  have start : digits.dropWhile isSpace = digits := by
    rw [split]
    simp [visible]
  have unsigned : splitSign digits = (1, digits) := by
    rw [split]
    unfold splitSign
    split
    · rename_i rest isMinus
      exact absurd (List.cons.inj isMinus).1 notMinus
    · rename_i rest isPlus
      exact absurd (List.cons.inj isPlus).1 notPlus
    · rfl
  have taken : digits.takeWhile isDigit = digits := by
    rw [List.takeWhile_eq_self_iff]
    exact areDigits
  have left : digits.dropWhile isDigit = [] := by
    rw [List.dropWhile_eq_nil_iff]
    exact areDigits
  have stored : storedInt (1 * digitsValue digits) = digitsValue digits := by
    rw [storedInt, Int.bmod_def]
    omega
  simp only [scanDecimal, start, unsigned, taken, left, stored, nonempty, if_false]

/-! ## Any input -/

section Stops

variable {front rest : List Byte}

theorem takeWhile_append_stop (inside : Byte → Bool)
    (stops : ∀ byte ∈ rest.head?, inside byte = false) :
    (front ++ rest).takeWhile inside = front.takeWhile inside := by
  have nothing : rest.takeWhile inside = [] := by
    cases rest with
    | nil => rfl
    | cons byte behind => simp [stops byte rfl]
  rw [List.takeWhile_append, nothing, List.append_nil]
  split
  · rename_i whole
    exact ((List.takeWhile_prefix inside).eq_of_length whole).symm
  · rfl

theorem dropWhile_append_stop (inside : Byte → Bool)
    (stops : ∀ byte ∈ rest.head?, inside byte = false) :
    (front ++ rest).dropWhile inside = front.dropWhile inside ++ rest := by
  have kept : rest.dropWhile inside = rest := by
    cases rest with
    | nil => rfl
    | cons byte behind => simp [stops byte rfl]
  rw [List.dropWhile_append, kept]
  split
  · rename_i whole
    rw [List.isEmpty_iff.mp whole, List.nil_append]
  · rfl

theorem splitSign_append (stops : ∀ byte ∈ rest.head?, byte ≠ 45 ∧ byte ≠ 43) :
    splitSign (front ++ rest) = ((splitSign front).1, (splitSign front).2 ++ rest) := by
  cases front with
  | cons byte behind =>
      rw [List.cons_append]
      unfold splitSign
      split <;> simp_all
  | nil =>
      cases rest with
      | nil => rfl
      | cons byte behind =>
          obtain ⟨notMinus, notPlus⟩ := stops byte rfl
          rw [List.nil_append]
          unfold splitSign
          split <;> simp_all

/-- What can neither begin nor continue a number. -/
def EndsNumber (byte : Byte) : Prop :=
  isSpace byte = false ∧ isDigit byte = false ∧ byte ≠ 45 ∧ byte ≠ 43

theorem scanDecimal_append (stops : ∀ byte ∈ rest.head?, EndsNumber byte) :
    scanDecimal (front ++ rest) =
      (scanDecimal front).map fun (value, left) => (value, left ++ rest) := by
  have skipped : (front ++ rest).dropWhile isSpace = front.dropWhile isSpace ++ rest :=
    dropWhile_append_stop isSpace fun byte first => (stops byte first).1
  have signed : splitSign (front.dropWhile isSpace ++ rest) =
      ((splitSign (front.dropWhile isSpace)).1, (splitSign (front.dropWhile isSpace)).2 ++ rest) :=
    splitSign_append fun byte first => (stops byte first).2.2
  have noDigit : ∀ byte ∈ rest.head?, isDigit byte = false :=
    fun byte first => (stops byte first).2.1
  simp only [scanDecimal, skipped, signed, takeWhile_append_stop isDigit noDigit,
    dropWhile_append_stop isDigit noDigit]
  split <;> rfl

/-- A positive number that an `int` can hold, up to a byte that ends it. -/
theorem scan_decimal (number : Nat) (stop : Byte) (format : List Directive) (input : List Byte)
    (positive : 0 < number) (small : number < 2 ^ 31) (stops : EndsNumber stop) :
    scan (.decimal :: format) (decimal number ++ stop :: input) =
      .number number :: scan format (stop :: input) := by
  have digits : scanDecimal (decimal number) = some ((number : Int), []) := by
    have value := digitsValue_decimal number
    have scanned := scanDecimal_digits (decimal number) (decimal_ne_nil number positive)
      (decimal_isDigit number) (by rw [value]; exact small)
    rwa [value] at scanned
  have whole : scanDecimal (decimal number ++ stop :: input) =
      some ((number : Int), stop :: input) := by
    have ends : ∀ byte ∈ (stop :: input).head?, EndsNumber byte := by
      rintro byte ⟨⟩
      exact stops
    rw [scanDecimal_append ends, digits]
    rfl
  simp [scan, Directive.step, whole]

/-- A text without excluded bytes, up to the end or an excluded byte. -/
theorem scanExcluding_append (width : Nat) (positive : 0 < width) (excluded : List Byte)
    (allowed : ∀ byte ∈ front, byte ∉ excluded) (stops : ∀ byte ∈ rest.head?, byte ∈ excluded) :
    scanExcluding width excluded (front ++ rest) =
      if front = [] then none else some (front.take width, front.drop width ++ rest) := by
  have taken : ((front ++ rest).take width).takeWhile (fun byte => !excluded.contains byte) =
      front.take width := by
    rw [List.take_append, takeWhile_append_stop]
    · rw [List.takeWhile_eq_self_iff]
      intro byte member
      simpa using allowed byte (List.mem_of_mem_take member)
    · intro byte first
      rw [List.head?_take] at first
      split at first
      · cases first
      · simpa using stops byte first
  have empty : front.take width = [] ↔ front = [] := by
    rw [List.take_eq_nil_iff, or_iff_right (by omega)]
  have left : (front ++ rest).drop (front.take width).length = front.drop width ++ rest := by
    rw [List.length_take]
    by_cases narrow : front.length ≤ width
    · rw [Nat.min_eq_right narrow, List.drop_left, List.drop_eq_nil_of_le narrow, List.nil_append]
    · rw [Nat.min_eq_left (by omega), List.drop_append_of_le_length (by omega)]
  simp only [scanExcluding, taken, empty, left]

end Stops

theorem scan_literals_other (bytes : List Byte) (format : List Directive) (input : List Byte)
    (other : ¬ bytes <+: input) : scan (literals bytes ++ format) input = [] := by
  induction bytes generalizing input with
  | nil => exact absurd List.nil_prefix other
  | cons byte rest ih =>
      cases input with
      | nil => rfl
      | cons next behind =>
          by_cases same : next = byte
          · subst same
            have others : ¬ rest <+: behind := by
              rwa [List.cons_prefix_cons, not_and, imp_iff_right rfl] at other
            exact (scan_literal next (literals rest ++ format) behind).trans (ih behind others)
          · exact scan_literal_other byte next (literals rest ++ format) behind same

/-- A word takes no white space. -/
theorem scanWord_eq_none_iff (width : Nat) (input : List Byte) :
    scanWord width input = none ↔ ∀ byte ∈ input, isSpace byte = true := by
  rw [← List.dropWhile_eq_nil_iff, ← splitWord_word_nil_iff]
  unfold scanWord
  dsimp only
  split <;> simp_all

theorem scanWord_visible {width : Nat} {input word left : List Byte}
    (scanned : scanWord width input = some (word, left)) :
    word.length ≤ width ∧ ∀ byte ∈ word, byte ∈ input ∧ isSpace byte = false := by
  unfold scanWord at scanned
  dsimp only at scanned
  split at scanned
  · cases scanned
  · rw [Option.some.injEq, Prod.mk.injEq] at scanned
    obtain ⟨rfl, _⟩ := scanned
    refine ⟨by rw [List.length_take]; omega, ?_⟩
    intro byte member
    have inWord := List.mem_of_mem_take member
    have visible := List.mem_takeWhile_imp inWord
    refine ⟨?_, by simpa using visible⟩
    exact (List.dropWhile_suffix _).mem ((List.takeWhile_prefix _).mem inWord)

end OsLabs.Scanf
