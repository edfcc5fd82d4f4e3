/-
This file is about what a receiver reads of the strings that a board prints. On
the USB port a string goes out as a line; on the Bluetooth port it goes out as
it is, with nothing behind it that ends the line. The reader on the other side
is the same.
-/

import WhistleDrivenRobot.Grammar

namespace WhistleDrivenRobot

/-! ### Printing -/

/-- The two classes that implement `SerialCommunication`. -/
inductive SerialCommunication
  | bt
  | usb
  deriving DecidableEq, Repr

/-- What `c_str` gives: the characters before the first NUL. -/
def cStr (string : ArduinoString) : List UInt8 := (string.takeWhile (· ≠ 0)).map Int8.toUInt8

/-- The bytes that `print` sends: through `print` of the Bluetooth port, through `println` of the
other one. -/
def SerialCommunication.print : SerialCommunication → ArduinoString → List UInt8
  | .bt, string => cStr string
  | .usb, string => cStr string ++ ['\r'.toUInt8, '\n'.toUInt8]

/-- A string that the reader can hold. -/
structure Readable (string : ArduinoString) : Prop where
  short : string.length ≤ StringHandler.stringLength
  lower : ∀ c ∈ string, LowerCase c

theorem readable_iff {string : ArduinoString} :
    Readable string ↔
      string.length ≤ StringHandler.stringLength ∧ ∀ c ∈ string, LowerCase c :=
  ⟨fun readable => ⟨readable.short, readable.lower⟩, fun ⟨short, lower⟩ => ⟨short, lower⟩⟩

instance (string : ArduinoString) : Decidable (Readable string) :=
  have : Decidable (∀ c ∈ string, LowerCase c) := List.decidableBAll _ string
  decidable_of_iff' _ readable_iff

theorem cStr_of_lower {string : ArduinoString} (lower : ∀ c ∈ string, LowerCase c) :
    cStr string = string.map Int8.toUInt8 := by
  rw [cStr, List.takeWhile_eq_self_iff.mpr fun c member =>
    decide_eq_true (lower c member).not_special.1]

/-! ### The lines that are printed -/

theorem isLetter_toUInt8 {c : Int8} (lower : LowerCase c) : isLetter c.toUInt8 = true :=
  isLetter_iff.mpr lower

theorem letters_toUInt8 {string : ArduinoString} (lower : ∀ c ∈ string, LowerCase c) :
    letters (string.map Int8.toUInt8) = string := by
  induction string with
  | nil => rfl
  | cons c rest inductionHypothesis =>
    rw [List.map_cons, letters_cons_letter _ (isLetter_toUInt8 (lower c List.mem_cons_self)),
      inductionHypothesis fun other member => lower other (List.mem_cons_of_mem c member)]
    rfl

/-- The letters of a string go on with the line that was begun. -/
theorem continued_string (held : ArduinoString) {string : ArduinoString}
    (lower : ∀ c ∈ string, LowerCase c) (rest : List UInt8) :
    continued held (string.map Int8.toUInt8 ++ rest) = continued (held ++ string) rest := by
  induction string generalizing held with
  | nil => rw [List.map_nil, List.nil_append, List.append_nil]
  | cons c more inductionHypothesis =>
    have letter := isLetter_toUInt8 (lower c List.mem_cons_self)
    have single : letters [c.toUInt8] = [c] := letters_singleton letter
    rw [List.map_cons, List.cons_append, continued_cons held (letter_ne_newline letter), single,
      inductionHypothesis _ fun other member => lower other (List.mem_cons_of_mem c member),
      List.append_assoc, List.singleton_append]

/-- On the USB port every string is a line of its own. -/
theorem stretches_usb {strings : List ArduinoString}
    (readable : ∀ string ∈ strings, Readable string) :
    stretches (strings.flatMap SerialCommunication.usb.print) = strings ++ [[]] := by
  induction strings with
  | nil => rfl
  | cons string rest inductionHypothesis =>
    have lower := (readable string List.mem_cons_self).lower
    rw [List.flatMap_cons, SerialCommunication.print, cStr_of_lower lower, List.append_assoc,
      ← continued_nil, continued_string [] lower]
    show continued string
      ('\r'.toUInt8 :: newline :: rest.flatMap SerialCommunication.usb.print) = _
    have ending : letters ['\r'.toUInt8] = [] := rfl
    rw [continued_cons string (by decide), ending, List.append_nil, continued_newline,
      inductionHypothesis fun other member => readable other (List.mem_cons_of_mem string member),
      List.cons_append]

/-- On the Bluetooth port all strings make one line that never ends. -/
theorem stretches_bt {strings : List ArduinoString}
    (readable : ∀ string ∈ strings, Readable string) :
    stretches (strings.flatMap SerialCommunication.bt.print) = [strings.flatten] := by
  have lines : ∀ held, continued held (strings.flatMap SerialCommunication.bt.print) =
      [held ++ strings.flatten] := by
    induction strings with
    | nil =>
      intro held
      rw [List.flatten_nil, List.append_nil]
      exact continued_empty held
    | cons string rest inductionHypothesis =>
      intro held
      have lower := (readable string List.mem_cons_self).lower
      rw [List.flatMap_cons, SerialCommunication.print, cStr_of_lower lower,
        continued_string held lower, inductionHypothesis
          (fun other member => readable other (List.mem_cons_of_mem string member)),
        List.flatten_cons, List.append_assoc]
  rw [← continued_nil, lines, List.nil_append]

theorem letters_bt {strings : List ArduinoString} (readable : ∀ string ∈ strings, Readable string) :
    letters (strings.flatMap SerialCommunication.bt.print) = strings.flatten := by
  induction strings with
  | nil => rfl
  | cons string rest inductionHypothesis =>
    have lower := (readable string List.mem_cons_self).lower
    rw [List.flatMap_cons, SerialCommunication.print, cStr_of_lower lower, letters_append,
      letters_toUInt8 lower, inductionHypothesis
        (fun other member => readable other (List.mem_cons_of_mem string member)),
      List.flatten_cons]

/-! ### What is read -/

theorem readLines_usb {strings : List ArduinoString}
    (readable : ∀ string ∈ strings, Readable string) :
    (readLines [] (strings.flatMap SerialCommunication.usb.print)).1 = strings := by
  have fits : Fits [] (strings.flatMap SerialCommunication.usb.print) := by
    rw [fits_nil_iff]
    unfold ShortLines
    rw [stretches_usb readable]
    intro stretch member
    rcases List.mem_append.mp member with string | last
    · exact (readable stretch string).short
    · exact List.mem_singleton.mp last ▸ Nat.zero_le _
  have read := readLines_of_fits fits
  rw [continued_nil, stretches_usb readable] at read
  exact (List.append_inj' read rfl).1

/-- Reading back all strings from the Bluetooth port would take letters that are not there. -/
theorem readLines_bt {strings : List ArduinoString} (readable : ∀ string ∈ strings, Readable string)
    (read : (readLines [] (strings.flatMap SerialCommunication.bt.print)).1 = strings) :
    strings = [] := by
  have sublist := kept_sublist [] (strings.flatMap SerialCommunication.bt.print)
  rw [kept, read, List.nil_append, letters_bt readable] at sublist
  have nothing : (readLines [] (strings.flatMap SerialCommunication.bt.print)).2 = [] := by
    have few := sublist.length_le
    rw [List.length_append] at few
    exact List.eq_nil_of_length_eq_zero (by omega)
  have all : kept [] (strings.flatMap SerialCommunication.bt.print) =
      [] ++ letters (strings.flatMap SerialCommunication.bt.print) := by
    rw [kept, read, nothing, List.append_nil, letters_bt readable, List.nil_append]
  have lines := readLines_of_fits ((kept_eq_iff (Nat.zero_le _)).mp all)
  rw [read, continued_nil, stretches_bt readable] at lines
  have single := congrArg List.length lines
  rw [List.length_append, List.length_singleton, List.length_singleton] at single
  exact List.eq_nil_of_length_eq_zero (by omega)

/-! ### What a peer executes -/

/-- A peer that has consumed the bytes of all prints has withdrawn the strings that were printed
exactly when they were printed on the USB port, or when there were none. -/
theorem executed_print_iff (memory : Int → Option Handler) (buffer : Nat → Int8)
    (implementation : SerialCommunication) {strings : List ArduinoString}
    (readable : ∀ string ∈ strings, Readable string) {schedule : List (List UInt8)}
    (delivered : schedule.flatten = strings.flatMap implementation.print)
    (consumed : ((LineReceiver.setup memory buffer).iterate schedule).port = []) :
    ((LineReceiver.setup memory buffer).iterate schedule).executed = strings ↔
      implementation = .usb ∨ strings = [] := by
  rw [LineReceiver.iterate_executed memory buffer schedule consumed, delivered,
    (absorb_readLines (StringHandler.create_holds buffer) _).1]
  cases implementation with
  | usb => exact iff_of_true (readLines_usb readable) (Or.inl rfl)
  | bt =>
    refine ⟨fun read => Or.inr (readLines_bt readable read), fun condition => ?_⟩
    rcases condition with usb | none
    · exact SerialCommunication.noConfusion usb
    · rw [none]
      rfl

theorem executed_print_iff_forward :
    ((LineReceiver.setup (fun _ => none) fun _ => 0).iterate [[102, 13], [10]]).executed =
        [[102]] ↔
      SerialCommunication.usb = .usb ∨ ([[102]] : List ArduinoString) = [] :=
  executed_print_iff _ _ .usb (by decide) (by decide) (by decide +kernel)

/-- On the Bluetooth port a single letter is printed, consumed and never withdrawn. -/
theorem not_executed_print_bt :
    (∀ string ∈ [[102]], Readable string) ∧
      [[102]].flatten = [[102]].flatMap SerialCommunication.bt.print ∧
      ((LineReceiver.setup (fun _ => none) fun _ => 0).iterate [[102]]).port = [] ∧
      ((LineReceiver.setup (fun _ => none) fun _ => 0).iterate [[102]]).executed = [] ∧
      ((LineReceiver.setup (fun _ => none) fun _ => 0).iterate [[102]]).executed ≠ [[102]] := by
  decide +kernel

end WhistleDrivenRobot
