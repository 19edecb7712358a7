import Octos.Redaction.Scanner

/-!
# Redaction of JSON values

`octos-core/src/secret_redaction.rs`: a value is walked, and every scalar under a credential-named
key is replaced. An array is read like a command line, too: what follows a bare secret flag is
redacted. A string that is itself a JSON document is parsed, redacted and written again. Below 64
levels a container is no longer walked.

Numbers are of any type. Parsing and writing JSON are those of `serde_json`, a parameter.
-/

namespace Octos.Redaction

/-- A JSON value, with numbers in `ν`. -/
inductive Value (ν : Type)
  | null
  | bool (b : Bool)
  | num (n : ν)
  | str (text : Text)
  | arr (items : List (Value ν))
  | obj (fields : List (Text × Value ν))

namespace Value

variable {ν : Type}

def isContainer : Value ν → Bool
  | arr _ | obj _ => true
  | _ => false

mutual

def beq [DecidableEq ν] : Value ν → Value ν → Bool
  | null, null => true
  | bool a, bool b => a == b
  | num a, num b => a == b
  | str a, str b => a == b
  | arr a, arr b => itemsBeq a b
  | obj a, obj b => fieldsBeq a b
  | _, _ => false

def itemsBeq [DecidableEq ν] : List (Value ν) → List (Value ν) → Bool
  | [], [] => true
  | a :: as, b :: bs => a.beq b && itemsBeq as bs
  | _, _ => false

def fieldsBeq [DecidableEq ν] : List (Text × Value ν) → List (Text × Value ν) → Bool
  | [], [] => true
  | (k, a) :: as, (l, b) :: bs => k == l && a.beq b && fieldsBeq as bs
  | _, _ => false

end

mutual

/-- The number of containers inside each other. -/
def depth : Value ν → ℕ
  | arr items => itemsDepth items + 1
  | obj fields => fieldsDepth fields + 1
  | _ => 0

def itemsDepth : List (Value ν) → ℕ
  | [] => 0
  | v :: vs => max v.depth (itemsDepth vs)

def fieldsDepth : List (Text × Value ν) → ℕ
  | [] => 0
  | (_, v) :: fs => max v.depth (fieldsDepth fs)

end

end Value

/-- How JSON is parsed and written. -/
structure Serde (ν : Type) where
  parse : Text → Option (Value ν)
  render : Value ν → Text

/-- What redaction takes from elsewhere: the case of characters, and JSON. -/
structure Redactor (ν : Type) extends Serde ν where
  charCase : CharCase

section

variable {ν : Type} (R : Redactor ν)

def parseEmbeddedJson (text : Text) : Option (Value ν) :=
  match text.dropWhile Char.isWhitespace with
  | c :: _ => if c = '{' ∨ c = '[' then (R.parse text).filter Value.isContainer else none
  | [] => none

def secretString (text : Text) : Text := redactSecretString (containsSecret R.charCase) text

def placeholder : Value ν := .str redactedPlaceholder

/-- Whether the value after this one is that of a flag. -/
def isFlagItem : Value ν → Bool
  | .str text => isBareSecretFlag R.charCase text
  | _ => false

def redactItems (redact : Bool → Value ν → Value ν) (underSecret : Bool) :
    Bool → List (Value ν) → List (Value ν)
  | _, [] => []
  | false, item :: items =>
    redact underSecret item :: redactItems redact underSecret (isFlagItem R item) items
  | true, item :: items =>
    match item with
    | .str text =>
      if text.head? = some '-' then
        redact underSecret item :: redactItems redact underSecret (isFlagItem R item) items
      else .str (secretString R text) :: redactItems redact underSecret false items
    | _ => redact true item :: redactItems redact underSecret false items

variable [DecidableEq ν]

/-- `redact_string`; `embedded` redacts a document inside the string, where there is a level left
for it. -/
def redactString (embedded : Option (Value ν → Value ν)) (underSecret : Bool)
    (text : Text) : Text :=
  if text.isEmpty || text == redactedPlaceholder then text
  else match embedded, parseEmbeddedJson R text with
    | some redact, some parsed =>
      if (redact parsed).beq parsed then text else R.render (redact parsed)
    | _, _ => if underSecret then secretString R text else redactSecretsInText R.charCase text

def redactScalar (underSecret : Bool) : Value ν → Value ν
  | .num n => if underSecret then placeholder else .num n
  | .bool b => if underSecret then placeholder else .bool b
  | value => value

/-- `redact_value`, with the number of levels that are left of `MAX_JSON_DEPTH`. -/
def redactValue : ℕ → Bool → Value ν → Value ν
  | 0, underSecret, value =>
    match value with
    | .str text => .str (redactString R none underSecret text)
    | .arr _ | .obj _ =>
      if underSecret then placeholder else .str (redactSecretsInText R.charCase (R.render value))
    | _ => redactScalar underSecret value
  | levels + 1, underSecret, value =>
    match value with
    | .str text =>
      -- A document inside the string is one level down, and not looked at on the last one.
      .str (redactString R (if levels = 0 then none else some (redactValue levels underSecret))
        underSecret text)
    | .arr items => .arr (redactItems R (redactValue levels) underSecret false items)
    | .obj fields =>
      .obj (fields.map fun field =>
        (field.1, redactValue levels (underSecret || isSecretKeyName R.charCase field.1) field.2))
    | _ => redactScalar underSecret value

def maxJsonDepth : ℕ := 64

def redactSecretsInValue (value : Value ν) : Value ν := redactValue R maxJsonDepth false value

end

end Octos.Redaction
