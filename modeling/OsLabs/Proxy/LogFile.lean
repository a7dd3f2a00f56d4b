import Mathlib.Data.Nat.Digits.Lemmas
import OsLabs.Lib.Exclusive
import OsLabs.Lib.Transition
import OsLabs.Proxy.Logger

/-!
# The log file

`logMessage` from its `pthread_mutex_lock` on: seven calls of the stream
library, one after another, by any number of threads.  A stream hands to the
system any part of what was printed to it, at any time; `fflush` hands over all
of it.
-/

set_option autoImplicit false

namespace OsLabs.Proxy

open OsLabs.CString OsLabs.Exclusive OsLabs.Scanf OsLabs.Transition

/-! ## Reading the log -/

structure LogEntry where
  stamp : List Byte
  level : LogLevel
  message : List Byte
  deriving DecidableEq

def expect (byte : Byte) : List Byte → Option (List Byte)
  | [] => none
  | first :: rest => if first = byte then some rest else none

/-- What stands before the first `stop`, and what behind it. -/
def readUntil (stop : Byte) : List Byte → Option (List Byte × List Byte)
  | [] => none
  | first :: rest =>
      if first = stop then some ([], rest)
      else (readUntil stop rest).map fun split => (first :: split.1, split.2)

def readLevel (name : List Byte) : Option LogLevel :=
  [LogLevel.debug, .info, .err].find? fun level => levelToStr level = name

/-- One line, and what follows it. -/
def readLine (input : List Byte) : Option (LogEntry × List Byte) := do
  let rest ← expect 91 input
  let (stamp, rest) ← readUntil 93 rest
  let rest ← expect 32 rest
  let (name, rest) ← readUntil 58 rest
  let level ← readLevel name
  let rest ← expect 32 rest
  let (message, rest) ← readUntil 10 rest
  some (⟨stamp, level, message⟩, rest)

def readLines : Nat → List Byte → Option (List LogEntry)
  | _, [] => some []
  | 0, _ => none
  | fuel + 1, input => do
      let (entry, rest) ← readLine input
      let entries ← readLines fuel rest
      some (entry :: entries)

/-- No file has more lines than bytes. -/
def readLog (input : List Byte) : Option (List LogEntry) := readLines input.length input

/-! ## Lines -/

/-- A call of `logMessage`, and the time at which it got the mutex. -/
structure Record where
  call : LogCall
  time : Tm

def Record.line (record : Record) : List Byte :=
  logHeader record.time record.call.message.level ++ record.call.message.bytes ++ text "\n"

def Record.entry (record : Record) : LogEntry :=
  ⟨record.time.stamp, record.call.message.level, record.call.message.bytes⟩

theorem decimal_length {number places : Nat} (small : number < 10 ^ places) :
    (decimal number).length ≤ places := by
  rw [decimal, List.length_reverse, List.length_map]
  exact (Nat.digits_length_le_iff (by decide) number).mpr small

theorem twoDigits_length {number places : Nat} (small : number < 10 ^ places) (atLeast : 2 ≤ places) :
    (twoDigits number).length ≤ places := by
  have digits := decimal_length small
  rw [twoDigits, List.length_append, List.length_replicate]
  omega

theorem twoDigits_isDigit (number : Nat) : ∀ byte ∈ twoDigits number, isDigit byte = true := by
  intro byte member
  rcases List.mem_append.mp member with zeros | digits
  · rw [List.eq_of_mem_replicate zeros]
    rfl
  · exact decimal_isDigit number byte digits

theorem Tm.stamp_length (t : Tm) : t.stamp.length ≤ 25 := by
  have two : ∀ number, number < 100 → (twoDigits number).length ≤ 2 :=
    fun number small => twoDigits_length (by simpa using small) le_rfl
  have year : (twoDigits (t.year + 1900)).length ≤ 10 :=
    twoDigits_length (lt_trans t.yearFits (by decide)) (by decide)
  have mon := two (t.mon + 1) (by have := t.monFits; omega)
  have mday := two t.mday (by have := t.mdayFits; omega)
  have hour := two t.hour (by have := t.hourFits; omega)
  have min := two t.min (by have := t.minFits; omega)
  have sec := two t.sec (by have := t.secFits; omega)
  have one : (text "-").length = 1 ∧ (text " ").length = 1 ∧ (text ":").length = 1 := by decide
  simp only [Tm.stamp, List.length_append, one]
  omega

theorem Tm.stamp_bytes (t : Tm) : 93 ∉ t.stamp ∧ 10 ∉ t.stamp := by
  have digits : ∀ number, 93 ∉ twoDigits number ∧ 10 ∉ twoDigits number := fun number =>
    ⟨fun member => absurd (twoDigits_isDigit number 93 member) (by decide),
      fun member => absurd (twoDigits_isDigit number 10 member) (by decide)⟩
  have marks : (93 ∉ text "-" ∧ 10 ∉ text "-") ∧ (93 ∉ text " " ∧ 10 ∉ text " ") ∧
      93 ∉ text ":" ∧ 10 ∉ text ":" := by decide
  simp only [Tm.stamp, List.mem_append, digits, marks, or_false, not_false_eq_true, and_self]

/-- The header is never cut off. -/
theorem logHeader_whole (t : Tm) (level : LogLevel) :
    logHeader t level = text "[" ++ t.stamp ++ text "] " ++ levelToStr level ++ text ": " := by
  apply List.take_of_length_le
  have stamp := t.stamp_length
  have marks : (text "[").length = 1 ∧ (text "] ").length = 2 ∧ (text ": ").length = 2 := by decide
  have name : (levelToStr level).length ≤ 5 := by cases level <;> decide
  simp only [List.length_append, marks, headerSize]
  omega

theorem readLevel_name (level : LogLevel) : readLevel (levelToStr level) = some level := by
  cases level <;> decide

/-! ## Every line is read back -/

section Reading

variable {stop : Byte} {input front rest : List Byte}

theorem readUntil_found (clean : stop ∉ front) (rest : List Byte) :
    readUntil stop (front ++ stop :: rest) = some (front, rest) := by
  induction front with
  | nil => simp [readUntil]
  | cons first others ih =>
      rw [List.mem_cons, not_or] at clean
      simp [readUntil, Ne.symm clean.1, ih clean.2]

theorem readUntil_append (found : readUntil stop input = some (front, rest)) (more : List Byte) :
    readUntil stop (input ++ more) = some (front, rest ++ more) := by
  induction input generalizing front rest with
  | nil => cases found
  | cons first others ih =>
      simp only [readUntil] at found
      simp only [List.cons_append, readUntil]
      split at found
      · rename_i isStop
        cases found
        rw [if_pos isStop]
      · rename_i other
        obtain ⟨split, later, isSplit⟩ := Option.map_eq_some_iff.mp found
        cases isSplit
        rw [if_neg other, ih later]
        rfl

theorem expect_append {byte : Byte} (found : expect byte input = some rest) (more : List Byte) :
    expect byte (input ++ more) = some (rest ++ more) := by
  cases input with
  | nil => cases found
  | cons first others =>
      simp only [expect] at found
      simp only [List.cons_append, expect]
      split at found
      · rename_i isByte
        cases found
        rw [if_pos isByte]
      · cases found

/-- What follows a line does not change how it is read. -/
theorem readLine_append {entry : LogEntry} (found : readLine input = some (entry, rest))
    (more : List Byte) : readLine (input ++ more) = some (entry, rest ++ more) := by
  simp only [readLine, Option.bind_eq_bind, Option.bind_eq_some_iff, Prod.exists] at found
  obtain ⟨first, opened, stamp, second, isStamp, third, spaced, name, fourth, isName, level,
    isLevel, fifth, spacedAgain, message, sixth, isMessage, made⟩ := found
  cases made
  simp [readLine, expect_append opened more, readUntil_append isStamp more,
    expect_append spaced more, readUntil_append isName more, isLevel,
    expect_append spacedAgain more, readUntil_append isMessage more]

theorem Record.readLine (record : Record) (more : List Byte) :
    Proxy.readLine (record.line ++ more) = some (record.entry, more) := by
  have name : 58 ∉ levelToStr record.call.message.level := by
    cases record.call.message.level <;> decide
  have line : record.line ++ more = 91 :: (record.time.stamp ++ 93 :: 32 ::
      (levelToStr record.call.message.level ++ 58 :: 32 ::
        (record.call.message.bytes ++ 10 :: more))) := by
    have marks : text "[" = [91] ∧ text "] " = [93, 32] ∧ text ": " = [58, 32] ∧
        text "\n" = [10] := by decide
    simp [Record.line, logHeader_whole, marks]
  rw [line]
  simp [Proxy.readLine, expect, readUntil_found record.time.stamp_bytes.1, readUntil_found name,
    readUntil_found record.call.oneLine, readLevel_name, Record.entry]

theorem Record.line_pos (record : Record) : 0 < record.line.length := by
  have lineEnd : (text "\n").length = 1 := by decide
  rw [Record.line, List.length_append, lineEnd]
  omega

theorem readLines_line {entry : LogEntry} (fuel : Nat) (isLine : readLine input = some (entry, rest)) :
    readLines (fuel + 1) input = (readLines fuel rest).map (entry :: ·) := by
  cases input with
  | nil => cases isLine
  | cons first others =>
      rw [readLines, isLine]
      · cases later : readLines fuel rest <;> simp [later]
      · exact nofun

theorem readLines_records (records : List Record) (fuel : Nat)
    (enough : (records.flatMap Record.line).length ≤ fuel) :
    readLines fuel (records.flatMap Record.line) = some (records.map Record.entry) := by
  induction records generalizing fuel with
  | nil => cases fuel <;> rfl
  | cons record later ih =>
      have positive := record.line_pos
      rw [List.flatMap_cons, List.length_append] at enough
      cases fuel with
      | zero => omega
      | succ fuel =>
          rw [List.flatMap_cons, readLines_line fuel (record.readLine _), ih fuel (by omega)]
          rfl

/-- Lines that were in the file before are read first. -/
theorem readLines_append {old : List LogEntry} (records : List Record) (fuel more : Nat)
    (readOld : readLines fuel input = some old)
    (enough : (records.flatMap Record.line).length ≤ more) :
    readLines (fuel + more) (input ++ records.flatMap Record.line) =
      some (old ++ records.map Record.entry) := by
  induction fuel generalizing input old with
  | zero =>
      cases input with
      | nil =>
          rw [readLines, Option.some.injEq] at readOld
          subst old
          rw [List.nil_append, Nat.zero_add]
          exact readLines_records records more enough
      | cons first others => cases readOld
  | succ fuel ih =>
      cases input with
      | nil =>
          rw [readLines, Option.some.injEq] at readOld
          subst old
          exact readLines_records records _ (by omega)
      | cons first others =>
          simp only [readLines, Option.bind_eq_bind, Option.bind_eq_some_iff, Prod.exists]
            at readOld
          obtain ⟨entry, rest, isLine, entries, isRest, made⟩ := readOld
          cases made
          rw [Nat.succ_add, readLines_line _ (readLine_append isLine _), ih isRest]
          rfl

theorem readLog_append {old : List LogEntry} (records : List Record)
    (readOld : readLog input = some old) :
    readLog (input ++ records.flatMap Record.line) = some (old ++ records.map Record.entry) := by
  rw [readLog, List.length_append]
  exact readLines_append records _ _ readOld le_rfl

end Reading

/-! ## logMessage -/

/-- What the system has got of a stream, and what the process still holds. -/
structure Stream where
  device : List Byte
  pending : List Byte

namespace Stream

/-- The stream hands over as much as it likes. -/
def fprintf (stream : Stream) (bytes : List Byte) (handed : Nat) : Stream :=
  let held := stream.pending ++ bytes
  ⟨stream.device ++ held.take handed, held.drop handed⟩

def fflush (stream : Stream) : Stream := ⟨stream.device ++ stream.pending, []⟩

def written (stream : Stream) : List Byte := stream.device ++ stream.pending

theorem fprintf_written (stream : Stream) (bytes : List Byte) (handed : Nat) :
    (stream.fprintf bytes handed).written = stream.written ++ bytes := by
  simp only [written, fprintf, List.append_assoc, List.take_append_drop]

theorem fflush_written (stream : Stream) : stream.fflush.written = stream.written :=
  List.append_nil _

end Stream

inductive Output where
  | file
  | stdout
  | stderr
  deriving DecidableEq

inductive Statement where
  | fprintf (output : Output) (bytes : List Byte)
  | fflush (output : Output)
  deriving DecidableEq

def colorReset : List Byte := text "\x1b[0m"

def LogLevel.color : LogLevel → List Byte
  | .info => text "\x1b[0;32m"
  | .err => text "\x1b[0;31m"
  | .debug => colorReset

def LogLevel.console : LogLevel → Output
  | .err => .stderr
  | _ => .stdout

/-- Between lock and unlock.  `logger->level` is not looked at. -/
def logMessage (record : Record) : List Statement :=
  let level := record.call.message.level
  let header := logHeader record.time level
  [.fprintf .file header, .fprintf .file record.call.message.bytes, .fprintf .file (text "\n"),
    .fflush .file, .fprintf level.console (level.color ++ header),
    .fprintf level.console record.call.message.bytes,
    .fprintf level.console (colorReset ++ text "\n")]

/-- Where a thread is with respect to the logger. -/
inductive LogThread where
  | outside
  | locking (call : LogCall)
  | inside (rest : List Statement)

/-- `records` are the calls in the order in which they got the mutex. -/
structure LogState where
  streams : Output → Stream
  owner : Option Nat
  thread : Nat → LogThread
  records : List Record

/-- The time is read behind the lock; `handed` is what a stream passes on. -/
inductive LogAction where
  | call (tid : Nat) (call : LogCall)
  | lock (tid : Nat) (time : Tm)
  | run (tid : Nat) (handed : Nat)
  | unlock (tid : Nat)

namespace LogState

def goto (s : LogState) (tid : Nat) (thread : LogThread) : LogState :=
  { s with thread := Function.update s.thread tid thread }

def execute (s : LogState) (handed : Nat) : Statement → LogState
  | .fprintf output bytes =>
      { s with
        streams := Function.update s.streams output ((s.streams output).fprintf bytes handed) }
  | .fflush output =>
      { s with streams := Function.update s.streams output (s.streams output).fflush }

/-- The file as `fopen` with "a" finds it, and two empty terminals. -/
def start (previous : List Byte) : LogState where
  streams output := ⟨if output = .file then previous else [], []⟩
  owner := none
  thread := fun _ => .outside
  records := []

end LogState

def logStep (s : LogState) : LogAction → Option LogState
  | .call tid call =>
      match s.thread tid with
      | .outside => some (s.goto tid (.locking call))
      | _ => none
  | .lock tid time =>
      match s.thread tid, s.owner with
      | .locking call, none =>
          some { s.goto tid (.inside (logMessage ⟨call, time⟩)) with
            owner := some tid
            records := s.records ++ [⟨call, time⟩] }
      | _, _ => none
  | .run tid handed =>
      match s.thread tid with
      | .inside (statement :: rest) => some ((s.execute handed statement).goto tid (.inside rest))
      | _ => none
  | .unlock tid =>
      match s.thread tid with
      | .inside [] => some { s.goto tid .outside with owner := none }
      | _ => none

/-- Any threads that log any messages of the proxy. -/
def loggers (previous : List Byte) : System LogState LogAction := ⟨.start previous, logStep⟩

/-! ## Whole lines -/

def Statement.bytesTo (output : Output) : Statement → List Byte
  | .fprintf other bytes => if other = output then bytes else []
  | .fflush _ => []

def LogThread.isInside : LogThread → Bool
  | .inside _ => true
  | _ => false

/-- What the owner of the mutex still has to do. -/
def LogState.rest (s : LogState) : List Statement :=
  match s.owner with
  | none => []
  | some tid =>
      match s.thread tid with
      | .inside rest => rest
      | _ => []

/-- Whenever nobody is inside `logMessage` the file is made of one whole line
for each call; otherwise, and should the process be killed, of whole lines and
the beginning of the next one. -/
structure LogWhole (previous : List Byte) (s : LogState) : Prop where
  initial : (s.streams .file).device <+: previous ++ s.records.flatMap Record.line
  whole : s.owner = none →
    (s.streams .file).device = previous ++ s.records.flatMap Record.line
  readable : s.owner = none → ∀ old, readLog previous = some old →
    readLog (s.streams .file).device = some (old ++ s.records.map Record.entry)

/-- Whatever is printed to the file is flushed later. -/
def Flushes : List Statement → Prop
  | [] => True
  | .fprintf .file _ :: rest => .fflush .file ∈ rest ∧ Flushes rest
  | _ :: rest => Flushes rest

structure Logged (previous : List Byte) (s : LogState) : Prop where
  owner : Owner LogThread.isInside s.thread s.owner
  written : (s.streams .file).written ++ s.rest.flatMap (Statement.bytesTo .file) =
    previous ++ s.records.flatMap Record.line
  flushed : (s.streams .file).pending = [] ∨ .fflush .file ∈ s.rest
  flushes : Flushes s.rest

theorem logMessage_line (record : Record) :
    (logMessage record).flatMap (Statement.bytesTo .file) = record.line := by
  have console : record.call.message.level.console ≠ .file := by
    cases record.call.message.level <;> decide
  simp [logMessage, Statement.bytesTo, console, Record.line]

theorem logMessage_flushes (record : Record) : Flushes (logMessage record) := by
  cases level : record.call.message.level <;> simp [logMessage, Flushes, LogLevel.console, level]

theorem start_logged (previous : List Byte) : Logged previous (.start previous) where
  owner tid := by simp [LogState.start, LogThread.isInside]
  written := by simp [LogState.start, LogState.rest, Stream.written]
  flushed := Or.inl rfl
  flushes := trivial

section Steps

variable {previous : List Byte} {s next : LogState} {tid : Nat}

/-- A thread outside moves on outside. -/
theorem Logged.waits (logged : Logged previous s) {thread : LogThread}
    (before : (s.thread tid).isInside = false) (after : thread.isInside = false) :
    Logged previous (s.goto tid thread) := by
  have same : (s.goto tid thread).rest = s.rest := by
    unfold LogState.rest LogState.goto
    cases owned : s.owner with
    | none => rfl
    | some holder =>
        have different : holder ≠ tid := by
          rintro rfl
          have isInside := (logged.owner holder).mpr owned
          rw [before] at isInside
          cases isInside
        simp only [Function.update_of_ne different]
  refine ⟨logged.owner.keeps (by rw [after, before]), ?_, ?_, ?_⟩ <;> rw [same]
  · exact logged.written
  · exact logged.flushed
  · exact logged.flushes

theorem Logged.locks (logged : Logged previous s) (free : s.owner = none) (record : Record) :
    Logged previous { s.goto tid (.inside (logMessage record)) with
      owner := some tid
      records := s.records ++ [record] } := by
  have nothing : s.rest = [] := by simp [LogState.rest, free]
  have owner := logged.owner
  have written := logged.written
  rw [nothing, List.flatMap_nil, List.append_nil] at written
  have isRest : LogState.rest { s.goto tid (.inside (logMessage record)) with
      owner := some tid
      records := s.records ++ [record] } = logMessage record := by
    simp [LogState.rest, LogState.goto]
  rw [free] at owner
  refine ⟨owner.takes rfl, ?_, ?_, ?_⟩ <;> rw [isRest]
  · rw [logMessage_line, List.flatMap_append, ← List.append_assoc, ← written]
    simp [LogState.goto]
  · exact Or.inr (by simp [logMessage])
  · exact logMessage_flushes record

theorem Logged.runs (logged : Logged previous s) {statement : Statement} {rest : List Statement}
    (here : s.thread tid = .inside (statement :: rest)) (handed : Nat) :
    Logged previous ((s.execute handed statement).goto tid (.inside rest)) := by
  have owned : s.owner = some tid := (logged.owner tid).mp (by rw [here]; rfl)
  have before : s.rest = statement :: rest := by simp [LogState.rest, owned, here]
  have isRest : ((s.execute handed statement).goto tid (.inside rest)).rest = rest := by
    cases statement <;> simp [LogState.rest, LogState.execute, LogState.goto, owned]
  have owner : Owner LogThread.isInside (Function.update s.thread tid (.inside rest)) s.owner :=
    logged.owner.keeps (by rw [here]; rfl)
  obtain ⟨_, written, flushed, flushes⟩ := logged
  rw [before] at written flushed flushes
  rw [List.flatMap_cons, ← List.append_assoc] at written
  cases statement with
  | fprintf output bytes =>
      by_cases toFile : output = .file
      · subst toFile
        refine ⟨owner, ?_, Or.inr ?_, ?_⟩ <;> rw [isRest]
        · simpa [LogState.execute, LogState.goto, Statement.bytesTo, Stream.fprintf_written]
            using written
        · exact flushes.1
        · exact flushes.2
      · have elsewhere := Function.update_of_ne (Ne.symm toFile)
          ((s.streams output).fprintf bytes handed) s.streams
        refine ⟨owner, ?_, ?_, ?_⟩ <;> rw [isRest]
        · simpa [LogState.execute, LogState.goto, Statement.bytesTo, toFile, elsewhere]
            using written
        · simpa [LogState.execute, LogState.goto, elsewhere] using flushed
        · cases output <;> first | exact absurd rfl toFile | exact flushes
  | fflush output =>
      have rests : Flushes rest := by cases output <;> exact flushes
      by_cases toFile : output = .file
      · subst toFile
        refine ⟨owner, ?_, Or.inl ?_, by rw [isRest]; exact rests⟩
        · rw [isRest]
          simpa [LogState.execute, LogState.goto, Statement.bytesTo, Stream.fflush_written]
            using written
        · simp [LogState.execute, LogState.goto, Stream.fflush]
      · have elsewhere := Function.update_of_ne (Ne.symm toFile) (s.streams output).fflush s.streams
        refine ⟨owner, ?_, ?_, by rw [isRest]; exact rests⟩ <;> rw [isRest]
        · simpa [LogState.execute, LogState.goto, Statement.bytesTo, elsewhere] using written
        · simpa [LogState.execute, LogState.goto, elsewhere, Ne.symm toFile] using flushed

theorem Logged.unlocks (logged : Logged previous s) (here : s.thread tid = .inside []) :
    Logged previous { s.goto tid .outside with owner := none } := by
  have owned : s.owner = some tid := (logged.owner tid).mp (by rw [here]; rfl)
  have nothing : s.rest = [] := by simp [LogState.rest, owned, here]
  obtain ⟨owner, written, flushed, _⟩ := logged
  rw [nothing] at written flushed
  rw [owned] at owner
  exact ⟨owner.gives rfl, written, flushed, trivial⟩

theorem logStep_logged (s : LogState) (action : LogAction) (next : LogState)
    (logged : Logged previous s) (stepped : logStep s action = some next) :
    Logged previous next := by
  cases action with
  | call tid call =>
      simp only [logStep] at stepped
      split at stepped
      · rename_i here
        cases stepped
        exact logged.waits (by rw [here]; rfl) rfl
      · cases stepped
  | lock tid time =>
      simp only [logStep] at stepped
      split at stepped
      · rename_i call here free
        cases stepped
        exact logged.locks free ⟨call, time⟩
      · cases stepped
  | run tid handed =>
      simp only [logStep] at stepped
      split at stepped
      · rename_i statement rest here
        cases stepped
        exact logged.runs here handed
      · cases stepped
  | unlock tid =>
      simp only [logStep] at stepped
      split at stepped
      · rename_i here
        cases stepped
        exact logged.unlocks here
      · cases stepped

theorem Logged.whole (logged : Logged previous s) (free : s.owner = none) :
    (s.streams .file).device = previous ++ s.records.flatMap Record.line := by
  have nothing : s.rest = [] := by simp [LogState.rest, free]
  obtain ⟨_, written, flushed, _⟩ := logged
  rw [nothing] at written flushed
  have handed : (s.streams .file).pending = [] := by simpa using flushed
  rwa [List.flatMap_nil, List.append_nil, Stream.written, handed, List.append_nil] at written

end Steps

/-- In every run of any threads that log: one whole line for each call, in the
order in which they got the mutex, each of which is read back as it was
logged. -/
theorem log_whole (previous : List Byte) (actions : List LogAction) :
    (loggers previous).Always (LogWhole previous) (.start previous) actions := by
  refine System.always_of_invariant (Logged previous) (start_logged previous) logStep_logged ?_
    actions
  intro s logged
  refine ⟨?_, logged.whole, fun free old readOld => ?_⟩
  · rw [← logged.written, Stream.written, List.append_assoc]
    exact List.prefix_append _ _
  · rw [logged.whole free]
    exact readLog_append s.records readOld

end OsLabs.Proxy
