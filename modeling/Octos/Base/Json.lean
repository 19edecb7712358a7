import Mathlib.Algebra.GroupWithZero.Nat

/-!
# JSON values

A JSON value, access to its parts, and the number of bytes of its text as a compact serializer
writes it: no blanks, strings with the short escapes where there are any and a six-byte escape for
the other control characters, all other characters as they are.
-/

namespace Octos

/-- A JSON value; its numbers are naturals. -/
inductive Json
  | null
  | bool (b : Bool)
  | str (s : String)
  | num (n : ℕ)
  | arr (items : List Json)
  | obj (fields : List (String × Json))

namespace Json

def get? (key : String) : Json → Option Json
  | obj fields => fields.lookup key
  | _ => none

def asStr? : Json → Option String
  | str s => some s
  | _ => none

def asNum? : Json → Option ℕ
  | num n => some n
  | _ => none

def asArray? : Json → Option (List Json)
  | arr items => some items
  | _ => none

def isObject : Json → Bool
  | obj _ => true
  | _ => false

mutual

def beq : Json → Json → Bool
  | null, null => true
  | bool a, bool b => a == b
  | str a, str b => a == b
  | num a, num b => a == b
  | arr a, arr b => itemsBeq a b
  | obj a, obj b => fieldsBeq a b
  | _, _ => false

def itemsBeq : List Json → List Json → Bool
  | [], [] => true
  | a :: as, b :: bs => a.beq b && itemsBeq as bs
  | _, _ => false

def fieldsBeq : List (String × Json) → List (String × Json) → Bool
  | [], [] => true
  | (k, a) :: as, (l, b) :: bs => k == l && a.beq b && fieldsBeq as bs
  | _, _ => false

end

instance : BEq Json := ⟨beq⟩

def charSize (c : Char) : ℕ :=
  if [0x08, 0x09, 0x0a, 0x0c, 0x0d, 0x22, 0x5c].contains c.toNat then 2
  else if c.toNat < 0x20 then 6
  else c.utf8Size

def strSize (s : String) : ℕ := (s.toList.map charSize).sum + 2

mutual

/-- The bytes of the text of a value. -/
def size : Json → ℕ
  | null => 4
  | bool b => if b then 4 else 5
  | str s => strSize s
  | num n => (Nat.toDigits 10 n).length
  | arr items => itemsSize items + 2
  | obj fields => fieldsSize fields + 2

/-- The bytes of the items of an array and of the commas between them. -/
def itemsSize : List Json → ℕ
  | [] => 0
  | v :: vs => v.size + (if vs.isEmpty then 0 else 1) + itemsSize vs

/-- The bytes of the fields of an object and of the commas between them. -/
def fieldsSize : List (String × Json) → ℕ
  | [] => 0
  | (k, v) :: vs => strSize k + 1 + v.size + (if vs.isEmpty then 0 else 1) + fieldsSize vs

end

end Json

end Octos
