import FormatLint.Data.Datum

/-!
The tables of a TOML document while it is read. Headers and dotted keys may extend tables that
were only implied so far, and must not touch tables that were defined.
-/

namespace FormatLint.Toml

inductive Fault where
  | character
  | expected (what : String)
  | badString
  | badNumber
  | badDate
  | duplicateKey (key : String)
  | tooDeep
deriving DecidableEq

def Fault.message : Fault → String
  | character => "invalid character"
  | expected what => s!"expected {what}"
  | badString => "invalid string"
  | badNumber => "invalid number"
  | badDate => "value is out of range"
  | duplicateKey key => s!"duplicate key {key}"
  | tooDeep => "recursion limit exceeded"

/-- What a key of a table holds. -/
inductive Item where
  | value (datum : Datum)
  /-- A table. It is implied when only a longer path named it, and dotted when dotted keys made
      it. -/
  | table (implied dotted : Bool) (entries : List (String × Item))
  /-- The elements of an array of tables. -/
  | tables (elements : List (List (String × Item)))

abbrev Entries := List (String × Item)

namespace Entries

def get? (entries : Entries) (key : String) : Option Item :=
  (entries.find? (·.1 == key)).map (·.2)

/-- Changes the item of a key that is there. -/
def set (entries : Entries) (key : String) (item : Item) : Entries :=
  entries.map fun (k, i) => if k == key then (k, item) else (k, i)

def erase (entries : Entries) (key : String) : Entries := entries.filter (·.1 != key)

/-- Adds a key that must be new. -/
def add (entries : Entries) (key : String) (item : Item) : Except Fault Entries :=
  if entries.any (·.1 == key) then .error (.duplicateKey key) else .ok (entries ++ [(key, item)])

/-- Applies `change` to the table at a path, which is made where it does not exist. `change` is
    also told whether the table belongs to dotted keys. -/
def at_ (viaDots : Bool) (change : Bool → Entries → Except Fault (Entries × α))
    (isDotted : Bool) (entries : Entries) : List String → Except Fault (Entries × α)
  | [] => change isDotted entries
  | key :: path =>
    match entries.get? key with
    | none =>
      match at_ viaDots change viaDots [] path with
      | .error e => .error e
      | .ok (inner, a) => .ok (entries ++ [(key, .table true viaDots inner)], a)
    | some (.value _) => .error (.duplicateKey key)
    | some (.tables elements) =>
      match at_ viaDots change false (elements.getLast?.getD []) path with
      | .error e => .error e
      | .ok (inner, a) => .ok (entries.set key (.tables (elements.dropLast ++ [inner])), a)
    | some (.table implied dotted inner) =>
      if viaDots && !implied then .error (.duplicateKey key)
      else
        match at_ viaDots change dotted inner path with
        | .error e => .error e
        | .ok (inner, a) => .ok (entries.set key (.table implied dotted inner), a)

/-- Gives a dotted key a value. A table made by dotted keys takes no plain key and the reverse. -/
def assign (entries : Entries) (path : List String) (item : Item) : Except Fault Entries :=
  match path.getLast? with
  | none => .error (.expected "key")
  | some key =>
    let parents := path.dropLast
    let put (isDotted : Bool) (entries : Entries) : Except Fault (Entries × Unit) :=
      if isDotted == parents.isEmpty then .error (.duplicateKey key)
      else (entries.add key item).map (·, ())
    (at_ true put false entries parents).map (·.1)

end Entries

mutual

def Item.datum : Item → Datum
  | .value d => d
  | .table _ _ entries => .map (entryData entries)
  | .tables elements => .list (elementData elements)

def entryData : List (String × Item) → List (Word × Datum)
  | [] => []
  | (key, item) :: rest => ({ value := .text key }, item.datum) :: entryData rest

def elementData : List (List (String × Item)) → List Datum
  | [] => []
  | entries :: rest => .map (entryData entries) :: elementData rest

end

/-- A document while it is read: the tables so far and the one that keys go to now. -/
structure Document where
  root : Entries := []
  current : Entries := []
  path : List String := []
  /-- The current table is an element of an array. -/
  isElement : Bool := false

namespace Document

/-- Puts the current table into its place. -/
def close (d : Document) : Except Fault Entries :=
  match d.path.getLast? with
  | none => .ok d.current
  | some key =>
    let put (_ : Bool) (entries : Entries) : Except Fault (Entries × Unit) :=
      match entries.get? key, d.isElement with
      | none, false => .ok (entries ++ [(key, .table false false d.current)], ())
      | none, true => .ok (entries ++ [(key, .tables [d.current])], ())
      | some (.tables elements), true =>
        .ok (entries.set key (.tables (elements ++ [d.current])), ())
      | some (.table true _ _), false => .ok (entries.set key (.table false false d.current), ())
      | _, _ => .error (.duplicateKey key)
    (Entries.at_ false put false d.root d.path.dropLast).map (·.1)

/-- Starts the table of a `[header]`. A table that was only implied goes on. -/
def startTable (d : Document) (path : List String) : Except Fault Document := do
  let root ← d.close
  match path.getLast? with
  | none => throw (.expected "key")
  | some key =>
    let take (_ : Bool) (entries : Entries) : Except Fault (Entries × Entries) :=
      match entries.get? key with
      | none => .ok (entries, [])
      | some (.table true false inner) => .ok (entries.erase key, inner)
      | some _ => .error (.duplicateKey key)
    let (root, current) ← Entries.at_ false take false root path.dropLast
    return { root, current, path, isElement := false }

/-- Starts an element of the array of a `[[header]]`. -/
def startElement (d : Document) (path : List String) : Except Fault Document := do
  let root ← d.close
  match path.getLast? with
  | none => throw (.expected "key")
  | some key =>
    let check (_ : Bool) (entries : Entries) : Except Fault (Entries × Unit) :=
      match entries.get? key with
      | none => .ok (entries ++ [(key, .tables [])], ())
      | some (.tables _) => .ok (entries, ())
      | some _ => .error (.duplicateKey key)
    let (root, _) ← Entries.at_ false check false root path.dropLast
    return { root, current := [], path, isElement := true }

end Document

end FormatLint.Toml
