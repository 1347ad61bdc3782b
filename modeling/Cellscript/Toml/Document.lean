import Cellscript.Toml.Moment

/-!
Reading a whole document. Values nest, so the functions that read them take a bound on the
characters left; each call reads a character first. How deep they nest is limited too.
-/

set_option autoImplicit false

namespace Cellscript.Toml

/-! ## Between values -/

def skipSpace (cs : List Char) : List Char := cs.dropWhile isSpace

/-- What is left of a line after a value: blanks, a comment, and the line break. -/
def lineEnd? (cs : List Char) : Option (List Char) :=
  let rest :=
    match skipSpace cs with
    | '#' :: comment => comment.dropWhile isTextChar
    | rest => rest
  if rest.isEmpty then some [] else lineBreak? rest

/-- Skips blanks, line breaks and comments, as between the items of an array; at most `bound`
lines. -/
def skipLines : Nat → List Char → List Char
  | 0, cs => skipSpace cs
  | bound + 1, cs =>
    match skipSpace cs with
    | [] => []
    | c :: rest =>
      if c == '\n' || c == '\r' || c == '#' then
        match lineEnd? (c :: rest) with
        | some rest => skipLines bound rest
        | none => c :: rest
      else c :: rest

/-- Arrays and inline tables stand in fewer than this many others, themselves counted, and a key has
fewer parts. -/
def nestingLimit : Nat := 80

/-! ## Keys -/

def isBareChar (c : Char) : Bool := c.isAlphanum || c == '_' || c == '-'

/-- One part of a key: bare or a string. -/
def keyPart? (cs : List Char) : Option (String × List Char) :=
  match string? cs with
  | some found => some found
  | none =>
    let bare := cs.takeWhile isBareChar
    if bare.isEmpty then none else some (String.ofList bare, cs.dropWhile isBareChar)

/-- A key of at most `bound` parts with points between them, and what follows it. -/
def keyPath? : Nat → List Char → Option (List String × List Char)
  | 0, _ => none
  | bound + 1, cs =>
    match keyPart? (skipSpace cs) with
    | none => none
    | some (part, rest) =>
      match skipSpace rest with
      | '.' :: rest => (keyPath? bound rest).map fun (path, rest) => (part :: path, rest)
      | rest => some ([part], rest)

/-- A key, split into the way and the last part, and what follows it. -/
def key? (cs : List Char) : Option (List String × String × List Char) :=
  match keyPath? (cs.length + 1) cs with
  | none => none
  | some (path, rest) =>
    if path.length < nestingLimit then
      path.getLast?.map fun last => (path.dropLast, last, rest)
    else none

/-! ## Values -/

mutual

/-- A value inside `depth` arrays and inline tables, and what follows it. -/
def value? (depth : Nat) : Nat → List Char → Option (Item × List Char)
  | 0, _ => none
  | bound + 1, cs =>
    match cs with
    | '[' :: rest =>
      if depth + 1 < nestingLimit then
        (arrayTail? (depth + 1) bound (skipLines rest.length rest)).map fun (items, rest) =>
          (.array items, rest)
      else none
    | '\x7b' :: rest =>
      if depth + 1 < nestingLimit then
        match skipSpace rest with
        | '\x7d' :: rest => some (.table .inline [], rest)
        | rest =>
          (inlineTail? (depth + 1) bound [] rest).map fun (entries, rest) =>
            (.table .inline entries, rest)
      else none
    | c :: _ =>
      if c == '\x22' || c == '\x27' then (anyString? cs).map fun (s, rest) => (.string s, rest)
      else
        (moment? cs).or
          ((word? (cs.takeWhile isWordChar)).map fun item => (item, cs.dropWhile isWordChar))
    | [] => none

/-- The items of an array up to its closing bracket. The last may have a comma too. -/
def arrayTail? (depth : Nat) : Nat → List Char → Option (List Item × List Char)
  | 0, _ => none
  | bound + 1, cs =>
    match cs with
    | ']' :: rest => some ([], rest)
    | cs =>
      match value? depth bound cs with
      | none => none
      | some (item, rest) =>
        match skipLines rest.length rest with
        | ',' :: rest =>
          (arrayTail? depth bound (skipLines rest.length rest)).map fun (items, rest) =>
            (item :: items, rest)
        | ']' :: rest => some ([item], rest)
        | _ => none

/-- The entries of an inline table up to its closing brace. It is all on one line. -/
def inlineTail? (depth : Nat) : Nat → Entries → List Char → Option (Entries × List Char)
  | 0, _, _ => none
  | bound + 1, entries, cs =>
    match key? cs with
    | some (path, key, '=' :: rest) =>
      match value? depth bound (skipSpace rest) with
      | none => none
      | some (item, rest) =>
        match setKey entries path key item, skipSpace rest with
        | some entries, ',' :: rest => inlineTail? depth bound entries rest
        | some entries, '\x7d' :: rest => some (entries, rest)
        | _, _ => none
    | _ => none

end

/-! ## Lines -/

/-- A header between brackets, and the rest of its line. -/
def header? (cs : List Char) : Option (Bool × List String × String × List Char) :=
  match cs with
  | '[' :: '[' :: rest =>
    match key? rest with
    | some (path, key, ']' :: ']' :: rest) => some (true, path, key, rest)
    | _ => none
  | '[' :: rest =>
    match key? rest with
    | some (path, key, ']' :: rest) => some (false, path, key, rest)
    | _ => none
  | _ => none

/-- The tree read so far, and the path of the header above the present line. -/
structure Draft where
  entries : Entries
  path : List String

def Draft.set (draft : Draft) (path : List String) (key : String) (item : Item) : Option Draft :=
  (updateAt .implied (fun _ inner => setKey inner path key item) draft.path .header
    draft.entries).map fun entries => { draft with entries }

/-- Reads one line that is not empty, and gives what follows it. -/
def line? (draft : Draft) (cs : List Char) : Option (Draft × List Char) :=
  match cs with
  | '[' :: _ =>
    match header? cs with
    | none => none
    | some (isRow, path, key, rest) =>
      let opened :=
        if isRow then openRow draft.entries path key else openTable draft.entries path key
      opened.map fun entries => (⟨entries, path ++ [key]⟩, rest)
  | _ =>
    match key? cs with
    | some (path, key, '=' :: rest) =>
      match value? 0 (rest.length + 1) (skipSpace rest) with
      | some (item, rest) => (draft.set path key item).map fun draft => (draft, rest)
      | none => none
    | _ => none

/-- Reads at most `bound` lines to the end of the document. -/
def lines? : Nat → Draft → List Char → Option Entries
  | 0, _, _ => none
  | bound + 1, draft, cs =>
    match lineEnd? cs with
    | some [] => some draft.entries
    | some rest => lines? bound draft rest
    | none =>
      match line? draft (skipSpace cs) with
      | none => none
      | some (draft, rest) =>
        match lineEnd? rest with
        | some [] => some draft.entries
        | some rest => lines? bound draft rest
        | none => none

def read? (text : String) : Option Entries :=
  let cs :=
    match text.toList with
    | '\ufeff' :: rest => rest
    | cs => cs
  lines? (cs.length + 1) ⟨[], []⟩ cs

end Cellscript.Toml
