import RoomControl.Config.Key

/-!
# Settings files

A settings file is text, read line by line. A line is blank, a comment, a section header or an
assignment; an assignment belongs to the section whose header came last. The reader starts from the
default configuration, applies the assignments in order, stops at the first line that is at fault,
and checks the PIN at the end.
-/

set_option autoImplicit false

namespace RoomControl

/-- What one line of a settings file says. -/
inductive Line where
  /-- Nothing: the line is blank or a comment. -/
  | blank
  /-- What follows belongs to another section. -/
  | header (inside : Section)
  /-- A key, as written, gets a value, as written. -/
  | assignment (key value : List Char)
  deriving DecidableEq, Repr

namespace Line

/-- A value without the comment behind it. A comment starts at the first "#", unless an odd number
of quotes stands before it. -/
def withoutComment (value : List Char) : List Char :=
  let before := value.takeWhile (· ≠ '#')
  if before.length < value.length ∧ before.count '"' % 2 = 0 then trim before else value

/-- An assignment: a key, an equals sign and a value, none of the two empty. -/
def readAssignment (line : List Char) : Except ConfigError Line :=
  match line.dropWhile (· ≠ '=') with
  | _ :: rest =>
    let key := trim (line.takeWhile (· ≠ '='))
    let value := withoutComment (trim rest)
    if key = [] ∨ value = [] then .error .invalidSyntax else .ok (assignment key value)
  | [] => .error .invalidSyntax

/-- A header, from what stands in the brackets. -/
def readHeader (inner : List Char) : Except ConfigError Line :=
  match Section.named? (trim inner) with
  | some inside => .ok (header inside)
  | none => .error .invalidSection

/-- What a line says, once the blanks around it are gone. -/
def readTrimmed (line : List Char) : Except ConfigError Line :=
  match line with
  | [] => .ok blank
  | '#' :: _ => .ok blank
  | '[' :: rest =>
    if rest.getLast? = some ']' then readHeader rest.dropLast else readAssignment line
  | _ => readAssignment line

/-- What a line says. -/
def read (line : List Char) : Except ConfigError Line := readTrimmed (trim line)

end Line

/-- How far a settings file has been read. -/
structure Reading where
  /-- The section in force. -/
  inside : Section := .root
  /-- The configuration so far. -/
  config : NodeConfig := {}
  deriving DecidableEq, Repr

namespace Reading

/-- An assignment takes effect when the section in force has the key and the value reads. -/
def assign (r : Reading) (written value : List Char) : Except ConfigError Reading :=
  match Key.find? r.inside written with
  | some key =>
    match key.read value with
    | .ok v => .ok { r with config := r.config.set key v }
    | .error e => .error e
  | none => .error .unknownKey

/-- Takes what a line says. -/
def apply (r : Reading) : Line → Except ConfigError Reading
  | .blank => .ok r
  | .header inside => .ok { r with inside := inside }
  | .assignment key value => r.assign key value

/-- Takes one line. -/
def step (r : Reading) (line : List Char) : Except ConfigError Reading :=
  (Line.read line).bind r.apply

/-- Takes lines up to the first that is at fault. -/
def steps (r : Reading) : List (List Char) → Except ConfigError Reading
  | [] => .ok r
  | line :: rest => (r.step line).bind fun next => next.steps rest

end Reading

/-- The configuration that a settings file describes. -/
def NodeConfig.ofText (text : String) : Except ConfigError NodeConfig :=
  match Reading.steps {} (lines text.toList) with
  | .ok r => if isPin r.config.radio.pin.string then .ok r.config else .error .invalidPin
  | .error e => .error e

end RoomControl
