import MethodLang.Error
import MethodLang.Text.Blank
import MethodLang.Text.Decimal

/-!
# The console

Integers come in and text goes out. Input is pulled a line at a time and handed out a word at a
time, so a line is pulled only when the words of the lines before it are used up. Output is
bytes; it may end early, and a flush may be refused.
-/

namespace MethodLang

/-- Where output goes: the bytes taken so far, how many it takes in all if that is limited, and
whether flushing works. -/
structure Sink where
  written : Array UInt8
  capacity : Option Nat
  refusesFlush : Bool
  deriving DecidableEq

namespace Sink

/-- Whether so many more bytes fit. -/
def hasRoom (sink : Sink) (count : Nat) : Bool :=
  match sink.capacity with
  | none => true
  | some capacity => sink.written.size + count ≤ capacity

/-- Write bytes, or as many of them as fit. -/
def write (sink : Sink) (bytes : Array UInt8) : Sink :=
  match sink.capacity with
  | none => { sink with written := sink.written ++ bytes }
  | some capacity =>
    { sink with written := sink.written ++ bytes.take (capacity - sink.written.size) }

end Sink

/-- The lines of an input, each with its line feed. -/
def linesOf (bytes : List UInt8) : List (List UInt8) :=
  bytes.foldr step []
where
  step (b : UInt8) : List (List UInt8) → List (List UInt8)
    | [] => [[b]]
    | line :: rest => if b = 10 then [b] :: line :: rest else (b :: line) :: rest

/-- Read and write streams of a run. -/
structure Console where
  /-- Lines not pulled yet. -/
  unread : List (List UInt8)
  /-- Words of the lines pulled last that no read has taken yet. -/
  pending : List String
  sink : Sink
  deriving DecidableEq

namespace Console

/-- A console on some input and a fresh output. -/
def ofInput (input : List UInt8) (capacity : Option Nat) (refusesFlush : Bool) : Console :=
  ⟨linesOf input, [], ⟨#[], capacity, refusesFlush⟩⟩

/-- The text of a line, if it is UTF-8. -/
def decodeLine? (line : List UInt8) : Option String := String.fromUTF8? ⟨line.toArray⟩

/-- Pull lines up to the first that has words, and give its first word, the other words, and
the lines after it. A line that cannot be decoded is used up as a whole. -/
def pull : List (List UInt8) → Except ConsoleError (String × List String) × List (List UInt8)
  | [] => (.error .endOfInput, [])
  | line :: rest =>
    match decodeLine? line with
    | none => (.error .undecodable, rest)
    | some text =>
      match Text.words text.toList with
      | [] => pull rest
      | word :: words => (.ok (String.ofList word, words.map String.ofList), rest)

/-- Flush the output. -/
def flush (c : Console) : Except ConsoleError Unit :=
  if c.sink.refusesFlush then .error .flushRefused else .ok ()

/-- Read a word as an integer. -/
def integer (word : String) : Except ConsoleError Int64 :=
  match Text.int64OfDecimal? word.toList with
  | some n => .ok n
  | none => .error (.notAnInteger word)

/-- Take the next word of the input. -/
def nextWord (c : Console) : Except ConsoleError String × Console :=
  match c.pending with
  | word :: rest => (.ok word, { c with pending := rest })
  | [] =>
    match pull c.unread with
    | (.error e, unread) => (.error e, { c with unread })
    | (.ok (word, rest), unread) => (.ok word, { c with unread, pending := rest })

/-- Read one integer. What was written before is flushed first; a word that is no integer is
used up. -/
def readInt (c : Console) : Except ConsoleError Int64 × Console :=
  match c.flush with
  | .error e => (.error e, c)
  | .ok () =>
    match c.nextWord with
    | (.error e, c) => (.error e, c)
    | (.ok word, c) => (integer word, c)

/-- Write a text, as far as it fits. -/
def put (c : Console) (text : String) : Except ConsoleError Unit × Console :=
  let bytes := text.toUTF8.data
  (if c.sink.hasRoom bytes.size then .ok () else .error .sinkFull,
    { c with sink := c.sink.write bytes })

/-- Write an item and the blank that separates it from the next. -/
def writeItem (c : Console) (text : String) : Except ConsoleError Unit × Console :=
  c.put (text ++ " ")

def endLine (c : Console) : Except ConsoleError Unit × Console := c.put "\n"

end Console

end MethodLang
