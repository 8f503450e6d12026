import FormatLint.Decimal.Binary64

/-!
JSON values. An object is the list of its members in order; the operations here keep its keys
distinct, with a key at the place where it first came and with the value that came last.
-/

namespace FormatLint

/-- A number as configuration files hold it: an integer of 64 bits, or a finite double. -/
inductive Number where
  | integer (value : Int)
  | double (value : Binary64)
deriving DecidableEq

inductive Json where
  | null
  | bool (value : Bool)
  | number (value : Number)
  | string (value : String)
  | array (items : List Json)
  | object (members : List (String × Json))
deriving Inhabited

/-- The members of an object, in order. -/
abbrev Members := List (String × Json)

namespace Json

mutual

def beq : Json → Json → Bool
  | .null, .null => true
  | .bool a, .bool b => a == b
  | .number a, .number b => a == b
  | .string a, .string b => a == b
  | .array a, .array b => beqItems a b
  | .object a, .object b => beqMembers a b
  | _, _ => false

def beqItems : List Json → List Json → Bool
  | [], [] => true
  | a :: as, b :: bs => beq a b && beqItems as bs
  | _, _ => false

def beqMembers : List (String × Json) → List (String × Json) → Bool
  | [], [] => true
  | (j, a) :: as, (k, b) :: bs => j == k && beq a b && beqMembers as bs
  | _, _ => false

end

instance : BEq Json := ⟨beq⟩

def ofNat (n : Nat) : Json := .number (.integer n)

def strings (texts : List String) : Json := .array (texts.map .string)

end Json

namespace Members

def get? (members : Members) (key : String) : Option Json :=
  (members.find? (·.1 == key)).map (·.2)

def contains (members : Members) (key : String) : Bool := members.any (·.1 == key)

/-- Gives a key a value: in its place when it is there, at the end when it is new. -/
def insert (members : Members) (key : String) (value : Json) : Members :=
  match members with
  | [] => [(key, value)]
  | (k, v) :: rest => if k = key then (k, value) :: rest else (k, v) :: insert rest key value

/-- Removes a key and keeps the order of the others. -/
def erase (members : Members) (key : String) : Members := members.filter (·.1 != key)

def insertAll (members more : Members) : Members :=
  more.foldl (fun acc (k, v) => acc.insert k v) members

end Members

end FormatLint
