import ManagedHost.Toml.Draft
import ManagedHost.Toml.Scalar

/-!
# Documents

A document is a sequence of statements, one on a line.  Arrays and inline tables may go over several
lines and hold comments.  The readers take the characters still to be read and give what they found
with the characters that follow; `fuel` bounds their steps, and the number of characters is always
enough.
-/

namespace ManagedHost

namespace Toml

/-! ### Blanks and comments -/

/-- Skip spaces, line ends and comments; the flag says whether a comment is going on. -/
def skipBlank : Bool → List Char → List Char
  | _, [] => []
  | _, '\n' :: rest => skipBlank false rest
  | _, '\r' :: '\n' :: rest => skipBlank false rest
  | true, c :: rest => if isPrintable c then skipBlank true rest else c :: rest
  | false, c :: rest =>
    if isSpace c then skipBlank false rest
    else if c = '#' then skipBlank true rest
    else c :: rest

/-- What follows the end of a line, on which only spaces and a comment are left. -/
def endOfLine (s : List Char) : Option (List Char) :=
  let rest := match s.dropWhile isSpace with
    | '#' :: comment => comment.dropWhile isPrintable
    | rest => rest
  if rest.isEmpty then some [] else afterLineEnd? rest

/-! ### Keys -/

/-- Whether the character may stand in a key without quotes. -/
def isKeyChar (c : Char) : Bool := c.isAlphanum || c == '_' || c == '-'

/-- A key, with or without quotes. -/
def readKey (s : List Char) : Option (String × List Char) :=
  let bare := s.takeWhile isKeyChar
  if bare.isEmpty then (readLine s).map fun (cs, rest) => (String.ofList cs, rest)
  else some (String.ofList bare, s.dropWhile isKeyChar)

/-- Keys with points between them, and spaces around each. -/
def readKeys : Nat → List Char → Option (List String × List Char)
  | 0, _ => none
  | fuel + 1, s =>
    match readKey (s.dropWhile isSpace) with
    | some (key, rest) =>
      match rest.dropWhile isSpace with
      | '.' :: rest => (readKeys fuel rest).map fun (keys, rest) => (key :: keys, rest)
      | rest => some ([key], rest)
    | none => none

/-- How many keys a path may have, and how many brackets may be open at a time. -/
def depthLimit : Nat := 80

/-- A path of keys that is not too long. -/
def readPath (fuel : Nat) (s : List Char) : Option (List String × List Char) :=
  (readKeys fuel s).filter fun (keys, _) => keys.length ≤ depthLimit

/-- A path of keys up to an equals sign, and what follows the sign.  `skip` passes over what may
stand before and after the sign. -/
def readPathEq (skip : List Char → List Char) (fuel : Nat) (s : List Char) :
    Option (List String × List Char) :=
  match readPath fuel s with
  | some (path, rest) =>
    match skip rest with
    | '=' :: rest => some (path, skip rest)
    | _ => none
  | none => none

/-! ### Values -/

mutual

/-- A value.  At most `depth` brackets may be open in it at a time. -/
def readValue : Nat → Nat → List Char → Option (Value × List Char)
  | 0, _, _ => none
  | fuel + 1, depth, s =>
    match s with
    | '[' :: rest =>
      match depth with
      | 0 => none
      | depth + 1 => readItems fuel depth [] (skipBlank false rest)
    | '\x7b' :: rest =>
      match depth with
      | 0 => none
      | depth + 1 => readPairs fuel depth [] (skipBlank false rest)
    | '"' :: _ => (readQuoted s).map fun (cs, rest) => (.text (String.ofList cs), rest)
    | '\'' :: _ => (readQuoted s).map fun (cs, rest) => (.text (String.ofList cs), rest)
    | _ =>
      let (word, rest) := splitScalar s
      (Value.ofScalar? word).map (·, rest)

/-- The items of an array that follow `done`, up to the closing bracket. -/
def readItems : Nat → Nat → List Value → List Char → Option (Value × List Char)
  | 0, _, _, _ => none
  | fuel + 1, depth, done, s =>
    match s with
    | ']' :: rest => some (.array done, rest)
    | _ =>
      match readValue fuel depth s with
      | some (v, rest) =>
        match skipBlank false rest with
        | ',' :: rest => readItems fuel depth (done ++ [v]) (skipBlank false rest)
        | ']' :: rest => some (.array (done ++ [v]), rest)
        | _ => none
      | none => none

/-- The pairs of an inline table that follow `done`, up to the closing brace. -/
def readPairs : Nat → Nat → Entries Draft → List Char → Option (Value × List Char)
  | 0, _, _, _ => none
  | fuel + 1, depth, done, s =>
    match s with
    | '\x7d' :: rest => some (.table (finished done), rest)
    | _ =>
      match readPathEq (skipBlank false) fuel s with
      | some (keys, rest) =>
        match readValue fuel depth rest with
        | some (v, rest) =>
          match assign v true keys done with
          | some done =>
            match skipBlank false rest with
            | ',' :: rest => readPairs fuel depth done (skipBlank false rest)
            | '\x7d' :: rest => some (.table (finished done), rest)
            | _ => none
          | none => none
        | none => none
      | none => none

end

/-! ### Statements -/

/-- The keys of a header before its closing brackets: the path and the last key. -/
def readHeader (fuel : Nat) (s : List Char) : Option ((List String × String) × List Char) :=
  match readPath fuel s with
  | some (keys, rest) => keys.getLast?.map fun key => ((keys.dropLast, key), rest)
  | none => none

/-- A statement. -/
def readStatement (s : List Char) : Option (Statement × List Char) :=
  let fuel := s.length
  match s with
  | '[' :: '[' :: rest =>
    match readHeader fuel rest with
    | some ((path, key), ']' :: ']' :: rest) => some (.item path key, rest)
    | _ => none
  | '[' :: rest =>
    match readHeader fuel rest with
    | some ((path, key), ']' :: rest) => some (.table path key, rest)
    | _ => none
  | _ =>
    match readPathEq (List.dropWhile isSpace) fuel s with
    | some (keys, rest) =>
      (readValue fuel depthLimit rest).map fun (v, rest) => (.entry keys v, rest)
    | none => none

/-- The statements of a document. -/
def readStatements : Nat → List Char → Option (List Statement)
  | 0, _ => none
  | fuel + 1, s =>
    match s.dropWhile isSpace with
    | [] => some []
    | c :: rest =>
      if c = '#' ∨ c = '\n' ∨ c = '\r' then
        (endOfLine (c :: rest)).bind (readStatements fuel)
      else
        match readStatement (c :: rest) with
        | some (statement, rest) =>
          ((endOfLine rest).bind (readStatements fuel)).map (statement :: ·)
        | none => none

/-- Leave out a byte order mark at the start. -/
def dropMark : List Char → List Char
  | '\ufeff' :: rest => rest
  | s => s

/-- The table that a document describes. -/
def readDocument (text : String) : Option Table :=
  let s := dropMark text.toList
  match readStatements (s.length + 1) s with
  | some statements => (Builder.addAll {} statements).map fun b => finished b.entries
  | none => none

end Toml

end ManagedHost
