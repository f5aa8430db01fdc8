import Obsplan.Toml.Lexical

/-!
# Reading settings documents

Values, lines and headers, and the rules on tables: a key is set once, a table is opened once, and
a table that a dotted key brought about cannot be opened by a header.
-/

namespace Obsplan.Toml

/-! ## Setting keys -/

/-- Sets the value at a dotted key. Tables on the way are made. A table with a header of its own, or
a value, cannot be entered; one that a header implies, and the last of tables that share a header,
can be passed, but the key is set in a table that dotted keys brought about. -/
def setPath? (value : Toml) : List String → Fields → Option Fields
  | [], _ => none
  | [key], fields => if (fields.lookup key).isSome then none else some (setField key value fields)
  | key :: next :: keys, fields =>
    match fields.lookup key with
    | none => do
      let inner ← setPath? value (next :: keys) []
      return setField key (.table .dotted inner) fields
    | some (.table .dotted inner) => do
      let inner ← setPath? value (next :: keys) inner
      return setField key (.table .dotted inner) fields
    | some (.table .implied inner) => do
      if keys.isEmpty then none
      let inner ← setPath? value (next :: keys) inner
      return setField key (.table .implied inner) fields
    | some (.tables items) => do
      if keys.isEmpty then none
      let inner ← setPath? value (next :: keys) (items.getLast?.getD [])
      return setField key (.tables (items.dropLast ++ [inner])) fields
    | some _ => none

/-- Changes the fields of the table at the path of a header. Tables on the way are implied; of
tables that share a header the last one is entered. -/
def updateAt? (change : Fields → Option Fields) : List String → Fields → Option Fields
  | [], fields => change fields
  | key :: keys, fields => do
    match fields.lookup key with
    | none =>
      let inner ← updateAt? change keys []
      return setField key (.table .implied inner) fields
    | some (.table origin inner) =>
      let inner ← updateAt? change keys inner
      return setField key (.table origin inner) fields
    | some (.tables items) =>
      let inner ← updateAt? change keys (items.getLast?.getD [])
      return setField key (.tables (items.dropLast ++ [inner])) fields
    | some _ => none

/-- Opens the table of a header. -/
def openTable? (path : List String) (root : Fields) : Option Fields :=
  match path.getLast? with
  | none => none
  | some key => updateAt? (fun fields =>
      match fields.lookup key with
      | none => some (setField key (.table .header []) fields)
      | some (.table .implied inner) => some (setField key (.table .header inner) fields)
      | some _ => none) path.dropLast root

/-- Opens one more of the tables of a shared header. -/
def openTables? (path : List String) (root : Fields) : Option Fields :=
  match path.getLast? with
  | none => none
  | some key => updateAt? (fun fields =>
      match fields.lookup key with
      | none => some (setField key (.tables [[]]) fields)
      | some (.tables items) => some (setField key (.tables (items ++ [[]])) fields)
      | some _ => none) path.dropLast root

/-! ## Values -/

/-- The rest after blanks, line ends and comments. -/
def skipLines : Nat → List Char → Option (List Char)
  | 0, cs => some cs
  | fuel + 1, cs =>
    match skipComment cs with
    | [] => some []
    | cs => match lineEnd? cs with
      | some rest => skipLines fuel rest
      | none => some cs

mutual

/-- A value in which lists and tables may nest `nesting` deep; `fuel` bounds the number of its
parts. -/
def readValue? (fuel nesting : Nat) (cs : List Char) : Option (Toml × List Char) :=
  match fuel with
  | 0 => none
  | fuel + 1 =>
    match cs, nesting with
    | '"' :: _, _ => (readText? cs).map fun (s, rest) => (.text s, rest)
    | '\'' :: _, _ => (readText? cs).map fun (s, rest) => (.text s, rest)
    | '[' :: _, 0 => none
    | '[' :: rest, nesting + 1 =>
      (readItems? fuel nesting rest).map fun (items, rest) => (.list items, rest)
    | '\x7b' :: _, 0 => none
    | '\x7b' :: rest, nesting + 1 =>
      match skipSpace rest with
      | '\x7d' :: rest => some (.inlineTable [], rest)
      | rest =>
        (readFields? fuel nesting [] rest).map fun (fields, rest) => (.inlineTable fields, rest)
    | 't' :: 'r' :: 'u' :: 'e' :: rest, _ => some (.bool true, rest)
    | 'f' :: 'a' :: 'l' :: 's' :: 'e' :: rest, _ => some (.bool false, rest)
    | _, _ => readNumber? cs

/-- The items of a list after its opening bracket or a comma. -/
def readItems? (fuel nesting : Nat) (cs : List Char) : Option (List Toml × List Char) :=
  match fuel with
  | 0 => none
  | fuel + 1 => do
    match ← skipLines cs.length cs with
    | ']' :: rest => return ([], rest)
    | cs =>
      let (item, rest) ← readValue? fuel nesting cs
      match ← skipLines rest.length rest with
      | ']' :: rest => return ([item], rest)
      | ',' :: rest =>
        let (items, rest) ← readItems? fuel nesting rest
        return (item :: items, rest)
      | _ => none

/-- The fields of a table written as a value, after its opening brace or a comma. -/
def readFields? (fuel nesting : Nat) (fields : Fields) (cs : List Char) :
    Option (Fields × List Char) :=
  match fuel with
  | 0 => none
  | fuel + 1 => do
    let (path, rest) ← readPath? cs
    match rest with
    | '=' :: rest =>
      let (value, rest) ← readValue? fuel nesting (skipSpace rest)
      let fields ← setPath? value path fields
      match skipSpace rest with
      | '\x7d' :: rest => return (fields, rest)
      | ',' :: rest => readFields? fuel nesting fields rest
      | _ => none
    | _ => none

end

/-! ## Documents -/

/-- The lines of a document, read into the tables opened so far; `path` leads to the open one. -/
def readDocument? : Nat → List String → Fields → List Char → Option Fields
  | 0, _, _, _ => none
  | fuel + 1, path, root, cs =>
    match skipSpace cs with
    | [] => some root
    | '[' :: '[' :: rest => do
      let (header, rest) ← readPath? rest
      match rest with
      | ']' :: ']' :: rest =>
        readDocument? fuel header (← openTables? header root) (← finishLine? rest)
      | _ => none
    | '[' :: rest => do
      let (header, rest) ← readPath? rest
      match rest with
      | ']' :: rest =>
        readDocument? fuel header (← openTable? header root) (← finishLine? rest)
      | _ => none
    | cs =>
      match skipComment cs, lineEnd? (skipComment cs) with
      | [], _ => some root
      | _, some rest => readDocument? fuel path root rest
      | _, none => do
        let (keys, rest) ← readPath? cs
        match rest with
        | '=' :: rest =>
          let (value, rest) ← readValue? (rest.length + 1) maxNesting (skipSpace rest)
          let root ← updateAt? (setPath? value keys) path root
          readDocument? fuel path root (← finishLine? rest)
        | _ => none

/-- The characters of a document after the mark of its byte order, if it has one. -/
def afterMark : List Char → List Char
  | '\ufeff' :: cs => cs
  | cs => cs

/-- The fields of the document written by a text. -/
def read? (s : String) : Option Fields :=
  let cs := afterMark s.toList
  readDocument? (cs.length + 1) [] [] cs

end Obsplan.Toml
