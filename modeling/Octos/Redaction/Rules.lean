import Mathlib.Algebra.GroupWithZero.Nat
import Mathlib.Data.String.Basic

/-!
# What counts as a secret

`octos-core/src/secret_redaction.rs`: which key names are credentials, and which values stay visible
under such a key. A text is its list of characters; the source reads bytes, and every test it makes
on a byte is one for an ASCII character, so that both agree but for lengths, which are counted in
bytes here too. Upper and lower case of characters beyond ASCII is a parameter.

Some of the rules ask whether a shorter text contains a secret. They take this as a parameter
`contains`; the scanner closes the circle.
-/

namespace Octos.Redaction

open Char

abbrev Text := List Char

def redactedPlaceholder : Text := "[REDACTED]".toList

def byteLen (text : Text) : ℕ := (text.map utf8Size).sum

/-! ## Characters -/

/-- Case of characters, as the standard library has it. -/
structure CharCase where
  isUppercase : Char → Bool
  isLowercase : Char → Bool
  toLowercase : Char → Text

def CharCase.ascii : CharCase := ⟨isUpper, isLower, fun c => [c.toLower]⟩

def doubleQuote : Char := ofNat 34
def singleQuote : Char := ofNat 39
def backtick : Char := ofNat 96
def backslash : Char := ofNat 92

variable (c : Char)

def isAsciiWhitespace : Bool := [9, 10, 12, 13, 32].contains c.toNat

/-- A blank or a tab. -/
def isBlank : Bool := c == ' ' || c == '\t'

/-- `is_ident_byte`. -/
def isIdentChar : Bool := c.isAlphanum || c == '_' || c == '-'

/-- `is_word_byte`. -/
def isWordChar : Bool := c.isAlphanum || c == '_'

def isBearerTokenChar : Bool := c.isAlphanum || ['_', '-', '.', '=', '+', '/', '~'].contains c

def isValueTerminator : Bool :=
  isAsciiWhitespace c ||
    [doubleQuote, singleQuote, backtick, ',', ';', '&', '|', '<', '>', '(', ')', '[', ']', '{', '}',
      backslash].contains c

def isCookieTerminator : Bool :=
  ['\n', '\r', doubleQuote, singleQuote, backtick, backslash].contains c

def eqIgnoreAsciiCase (a b : Text) : Bool := a.map toLower == b.map toLower

/-! ## Key names -/

inductive KeyKind
  | plain
  | secret
  /-- `Cookie` and `Set-Cookie`: the value runs to the end of the line. -/
  | cookie
  deriving DecidableEq

def secretKeyNames : List String :=
  ["apikey", "apikeys", "xapikey", "token", "accesstoken", "refreshtoken", "idtoken",
    "sessiontoken",
    "authtoken", "bearer", "authorization", "proxyauthorization", "auth", "secret", "secrets",
    "clientsecret", "secretkey", "privatekey", "password", "passwords", "passwd", "pwd",
    "passphrase",
    "passcode", "credential", "credentials", "awssecretaccesskey"]

def secretKeySuffixes : List String := ["key", "token", "secret", "password"]

def isOneOf (words : List String) (text : Text) : Bool := words.any fun word => word.toList == text

def pushToken (current : Text) : List Text := if current.isEmpty then [] else [current]

section

variable (E : CharCase)

/-- A capital begins a word after a small letter or a digit, and before a small letter. -/
def isBoundary (prev : Option Char) (c : Char) (rest : Text) : Bool :=
  E.isUppercase c && prev.any fun p =>
    E.isLowercase p || p.isDigit || (E.isUppercase p && rest.head?.any E.isLowercase)

/-- `key_name_tokens`, after `prev` and with the word read so far. -/
def tokensFrom : Option Char → Text → Text → List Text
  | _, current, [] => pushToken current
  | prev, current, c :: cs =>
    if ['-', '_', ' ', '.'].contains c then pushToken current ++ tokensFrom (some c) [] cs
    else if isBoundary E prev c cs then
      pushToken current ++ tokensFrom (some c) (E.toLowercase c) cs
    else tokensFrom (some c) (current ++ E.toLowercase c) cs

def keyNameTokens (name : Text) : List Text := tokensFrom E none [] name

def classifyKey (name : Text) : KeyKind :=
  let tokens := keyNameTokens E name
  match tokens.reverse with
  | [] => .plain
  | last :: before =>
    let joined := tokens.flatten
    if isOneOf ["cookie", "setcookie"] joined then .cookie
    else if isOneOf secretKeyNames joined then .secret
    else match before with
      | [] => .plain
      | penultimate :: _ =>
        if !isOneOf secretKeySuffixes last then .plain
        else if last == "key".toList && penultimate == "public".toList then .plain
        else .secret

def isSecretKeyName (name : Text) : Bool := classifyKey E name != .plain

/-- A flag whose value is the next argument. -/
def isBareSecretFlag (text : Text) : Bool :=
  text.head? == some '-' && !text.contains '=' && isSecretKeyName E text

end

/-! ## Values that stay visible -/

def isTriviallyNonSecret (value : Text) : Bool :=
  value.isEmpty || value == redactedPlaceholder ||
    (["true", "false", "null", "none", "nil", "undefined"].any fun literal =>
      eqIgnoreAsciiCase value literal.toList) ||
    value.all (· == '*')

def isEnvName (name : Text) : Bool :=
  name.head?.any isUpper && name.all fun c => c.isUpper || c.isDigit || c == '_'

/-- `strip_prefix`, then `strip_suffix`. -/
def stripBoth (opening closing : String) (value : Text) : Option Text :=
  if opening.toList.isPrefixOf value then
    let rest := value.drop opening.toList.length
    if closing.toList.isSuffixOf rest then
      some (rest.take (rest.length - closing.toList.length)) else none
  else none

def placeholderCues : List String :=
  ["your", "my", "our", "the", "a", "an", "insert", "enter", "replace", "paste", "put",
    "add", "set",
    "fill", "provide", "supply", "type", "use", "see", "change", "changeme", "replaceme", "example",
    "sample", "dummy", "placeholder", "redacted", "omitted", "hidden", "masked", "removed",
    "todo", "tbd", "fixme", "none", "unset", "missing", "empty", "null", "nil", "undefined",
    "not", "no", "optional",
    "required", "random", "generated", "auto"]

/-- Every capital after the first letter stands between two small letters; the number of them. -/
def innerCapitals : Char → Text → Option ℕ
  | _, [] => some 0
  | prev, c :: cs =>
    if !c.isUpper then innerCapitals c cs
    else if prev.isLower && cs.head?.any isLower then (innerCapitals c cs).map (· + 1)
    else none

def isPlainWord (word : Text) : Bool :=
  match (word.reverse.dropWhile isDigit).reverse with
  | [] => false
  | c :: cs =>
    (c :: cs).all isAlpha &&
      ((c :: cs).all isLower || (c :: cs).all isUpper || (innerCapitals c cs).any (· ≤ 3))

def isMaskWord (word : Text) : Bool := 3 ≤ word.length && word.all fun c => c == 'x' || c == 'X'

/-- `trim_matches` with blanks and tabs. -/
def trimBlanks (text : Text) : Text := ((text.dropWhile isBlank).reverse.dropWhile isBlank).reverse

/-- The parts between separators that are not empty. -/
def splitWords (text : Text) : List Text :=
  (text.splitOnP fun c => [' ', '-', '_', '.'].contains c).filter fun word => !word.isEmpty

section

variable (contains : Text → Bool)

def isBenignSubstitution (command : Text) : Bool := byteLen command ≤ 256 && !contains command

def isTemplatePlaceholder (text : Text) (expression : Bool) : Bool :=
  let inner := trimBlanks text
  if inner.isEmpty || 48 < byteLen inner then false
  else if !inner.all fun c => c.isAlphanum || ['_', '-', '.', ' '].contains c then false
  else if contains inner then false
  else if isEnvName inner then true
  else match splitWords inner with
    | [] => false
    | first :: words =>
      (first :: words).all isPlainWord &&
        (expression ||
          (first :: words).all (fun word => word.all fun c => c.isUpper || c.isDigit) ||
          isMaskWord first || isOneOf placeholderCues (first.map toLower))

/-- The wrappers, in the order they are tried. -/
def isSymbolicReference (value : Text) : Bool :=
  match stripBoth "$\x7b\x7b" "\x7d\x7d" value with
  | some inner => isTemplatePlaceholder contains inner true
  | none =>
    match stripBoth "$\x7b" "\x7d" value with
    | some inner => isEnvName inner
    | none =>
      match stripBoth "$(" ")" value with
      | some inner => isBenignSubstitution contains inner
      | none =>
        match stripBoth "$" "" value with
        | some inner => isEnvName inner
        | none =>
          match stripBoth "%" "%" value with
          | some inner => isEnvName inner
          | none =>
            match stripBoth "<" ">" value with
            | some inner => isTemplatePlaceholder contains inner false
            | none =>
              match stripBoth "\x7b\x7b" "\x7d\x7d" value with
              | some inner => isTemplatePlaceholder contains inner true
              | none => false

def isExemptSecretValue (value : Text) : Bool :=
  isTriviallyNonSecret value || isSymbolicReference contains value

end

/-! ## Authorization schemes -/

def authSchemes : List String := ["bearer", "basic", "token", "digest", "negotiate", "oauth"]

/-- The characters of a scheme word and of the blanks after it. -/
def authSchemeEnd (text : Text) : Option ℕ :=
  authSchemes.findSome? fun scheme =>
    let n := scheme.toList.length
    if eqIgnoreAsciiCase (text.take n) scheme.toList && (text.drop n).head?.any isBlank then
      some (n + ((text.drop n).takeWhile isBlank).length)
    else none

/-- A string under a credential-named key. A scheme word stays visible. -/
def redactSecretString (contains : Text → Bool) (text : Text) : Text :=
  if isExemptSecretValue contains text then text
  else match authSchemeEnd text with
    | some n =>
      if isExemptSecretValue contains (text.drop n) then text
      else text.take n ++ redactedPlaceholder
    | none => redactedPlaceholder

/-! ## The exemption asks about shorter texts -/

theorem length_trimBlanks_le (text : Text) : (trimBlanks text).length ≤ text.length := by
  rw [trimBlanks, List.length_reverse]
  refine (List.dropWhile_sublist _).length_le.trans ?_
  rw [List.length_reverse]
  exact (List.dropWhile_sublist _).length_le

theorem length_of_stripBoth {opening closing : String} {value inner : Text}
    (h : stripBoth opening closing value = some inner) (hopening : opening.toList ≠ []) :
    inner.length < value.length := by
  simp only [stripBoth] at h
  split_ifs at h with hpre hsuf
  obtain rfl := Option.some.inj h
  have hpos : 0 < opening.toList.length := List.length_pos_iff.mpr hopening
  have hle : opening.toList.length ≤ value.length := (List.isPrefixOf_iff_prefix.mp hpre).length_le
  rw [List.length_take, List.length_drop]
  omega

section

variable {contains contains' : Text → Bool} {value : Text}

theorem isTemplatePlaceholder_congr {inner : Text} {expression : Bool}
    (h : ∀ u : Text, u.length < value.length → contains u = contains' u)
    (hinner : inner.length < value.length) :
    isTemplatePlaceholder contains inner expression =
      isTemplatePlaceholder contains' inner expression := by
  have htrim : contains (trimBlanks inner) = contains' (trimBlanks inner) :=
    h _ ((length_trimBlanks_le inner).trans_lt hinner)
  simp [isTemplatePlaceholder, htrim]

theorem isExemptSecretValue_congr (h : ∀ u : Text, u.length < value.length →
    contains u = contains' u) :
    isExemptSecretValue contains value = isExemptSecretValue contains' value := by
  have hsymbolic : isSymbolicReference contains value = isSymbolicReference contains' value := by
    simp only [isSymbolicReference]
    split
    · rename_i inner hinner
      exact isTemplatePlaceholder_congr h (length_of_stripBoth hinner (by decide))
    split
    · rfl
    split
    · rename_i inner hinner
      rw [isBenignSubstitution, isBenignSubstitution, h _ (length_of_stripBoth hinner (by decide))]
    split
    · rfl
    split
    · rfl
    split
    · rename_i inner hinner
      exact isTemplatePlaceholder_congr h (length_of_stripBoth hinner (by decide))
    split
    · rename_i inner hinner
      exact isTemplatePlaceholder_congr h (length_of_stripBoth hinner (by decide))
    · rfl
  rw [isExemptSecretValue, isExemptSecretValue, hsymbolic]

end

end Octos.Redaction
