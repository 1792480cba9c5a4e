import Bindery.Proofs.Template.FormulaReading

/-!
# `Proofs.Template.Grammar` — the grammar of expressions

The grammar, as a relation: at each of its levels, a text starts with an expression and goes on with what is
left of it. Nothing in the relation says in which order the rules are tried or how far a rule reaches; only
words are maximal, since a character that could continue a word may not follow it.

```text
or      = and (('||' | 'or') and)*            to the left
and     = not (('&&' | 'and') not)*           to the left
not     = ('!' | 'not') not | comparison
comparison = primary (('==' | '!=') primary)?
primary = string | ':' name | integer | '(' or ')' | 'true' | 'false' | 'nil'
        | 'import' primary | '@'* name ('.' name)*
```

**Contents.**
* `Spaces` and `Spaced` — white space, and what may stand between white space;
* `NameAt`, `SymbolAt`, `OperatorAt`, `IntegerAt`, `QuotedAt`, `VariableAt`, `FieldsAt` — the words of the grammar;
* `Level` and `Derives` — its rules, one constructor for each alternative.
-/

namespace Bindery.Template.Grammar

/-! ## White space -/

/-- White space that may stand between words, or none. -/
def Spaces (s r : List Char) : Prop :=
  ∃ front, (∀ c ∈ front, isSpace c = true) ∧ s = front ++ r

/-- A piece with white space around it, or none. -/
def Spaced (piece : List Char → List Char → Prop) (s r : List Char) : Prop :=
  ∃ a b, Spaces s a ∧ piece a b ∧ Spaces b r

/-! ## Words -/

/-- A name that nothing continues. -/
structure NameAt (word : String) (s r : List Char) : Prop where
  is_name : isName word = true
  text : s = spell word ++ r
  ends : wordEnds r = true

/-- A symbol, whatever comes after it. -/
def SymbolAt (symbol s r : List Char) : Prop :=
  s = symbol ++ r

/-- An operator: its symbol or its keyword. -/
def OperatorAt (symbol : List Char) (word : String) (s r : List Char) : Prop :=
  SymbolAt symbol s r ∨ NameAt word s r

/-- The value of digits with a sign in front of them, or none. -/
def signedValue (negative : Bool) (digits : List Char) : Int :=
  if negative then -(digitsValue digits : Int) else digitsValue digits

/-- An integer in the range of 64-bit words, that nothing continues. -/
structure IntegerAt (negative : Bool) (digits s r : List Char) : Prop where
  some_digits : digits ≠ []
  all_digits : ∀ d ∈ digits, d.isDigit = true
  text : s = (if negative then ['-'] else []) ++ (digits ++ r)
  ends : wordEnds r = true
  least : leastInteger ≤ signedValue negative digits
  greatest : signedValue negative digits ≤ greatestInteger

/-- What is written between double quotes, and the text that it stands for. -/
inductive DoubleQuotes : List Char → List Char → Prop
  | nil : DoubleQuotes [] []
  | escape {e d : Char} {written text : List Char} (he : unescape e = some d) (h : DoubleQuotes written text) :
    DoubleQuotes ('\\' :: e :: written) (d :: text)
  | plain {c : Char} {written text : List Char} (hq : c ≠ '"') (hb : c ≠ '\\') (h : DoubleQuotes written text) :
    DoubleQuotes (c :: written) (c :: text)

/-- What is written between single quotes, and the text that it stands for. A backslash that is in front of
neither a quote nor a backslash stands for itself. -/
inductive SingleQuotes : List Char → List Char → Prop
  | nil : SingleQuotes [] []
  | escape {c : Char} {written text : List Char} (hc : c = '\'' ∨ c = '\\') (h : SingleQuotes written text) :
    SingleQuotes ('\\' :: c :: written) (c :: text)
  | backslash {c : Char} {written text : List Char} (hq : c ≠ '\'') (hb : c ≠ '\\')
    (h : SingleQuotes written text) : SingleQuotes ('\\' :: c :: written) ('\\' :: c :: text)
  | plain {c : Char} {written text : List Char} (hq : c ≠ '\'') (hb : c ≠ '\\') (h : SingleQuotes written text) :
    SingleQuotes (c :: written) (c :: text)

/-- A string in quotes of either kind. -/
def QuotedAt (text s r : List Char) : Prop :=
  ∃ written, (s = '"' :: (written ++ '"' :: r) ∧ DoubleQuotes written text) ∨
    (s = '\'' :: (written ++ '\'' :: r) ∧ SingleQuotes written text)

/-- The name of a variable, with any number of `@` in front of it. -/
def VariableAt (head : String) (s r : List Char) : Prop :=
  ∃ marks m, (∀ c ∈ marks, c = '@') ∧ s = marks ++ m ∧ NameAt head m r ∧ head ∉ reserved

/-- Fields, each a dot and a name. -/
inductive FieldsAt : List String → List Char → List Char → Prop
  | nil {s : List Char} : FieldsAt [] s s
  | cons {field : String} {names : List String} {s m r : List Char} (first : NameAt field s m)
    (more : FieldsAt names m r) : FieldsAt (field :: names) ('.' :: s) r

/-! ## Rules -/

/-- The levels of the grammar, from the loosest binding inwards; a bare primary has no white space around it. -/
inductive Level where
  | disjunction
  | conjunction
  | negation
  | comparison
  | primary
  | bare

/-- At a level, the text `s` starts with the expression `e`, and `r` is left of it. -/
inductive Derives : Level → (s : List Char) → (e : Expr) → (r : List Char) → Prop
  | conjunction {s r : List Char} {e : Expr} (h : Derives .conjunction s e r) : Derives .disjunction s e r
  | or {s m m' r : List Char} {lhs rhs : Expr} (left : Derives .disjunction s lhs m)
    (op : Spaced (OperatorAt ['|', '|'] "or") m m') (right : Derives .conjunction m' rhs r) :
    Derives .disjunction s (.or lhs rhs) r
  | negation {s r : List Char} {e : Expr} (h : Derives .negation s e r) : Derives .conjunction s e r
  | and {s m m' r : List Char} {lhs rhs : Expr} (left : Derives .conjunction s lhs m)
    (op : Spaced (OperatorAt ['&', '&'] "and") m m') (right : Derives .negation m' rhs r) :
    Derives .conjunction s (.and lhs rhs) r
  | comparison {s r : List Char} {e : Expr} (h : Derives .comparison s e r) : Derives .negation s e r
  | not {s m r : List Char} {e : Expr} (mark : Spaced (OperatorAt ['!'] "not") s m)
    (h : Derives .negation m e r) : Derives .negation s (.not e) r
  | primary {s r : List Char} {e : Expr} (h : Derives .primary s e r) : Derives .comparison s e r
  | eq {s m m' r : List Char} {lhs rhs : Expr} (left : Derives .primary s lhs m)
    (op : Spaced (SymbolAt ['=', '=']) m m') (right : Derives .primary m' rhs r) :
    Derives .comparison s (.eq lhs rhs) r
  | ne {s m m' r : List Char} {lhs rhs : Expr} (left : Derives .primary s lhs m)
    (op : Spaced (SymbolAt ['!', '=']) m m') (right : Derives .primary m' rhs r) :
    Derives .comparison s (.ne lhs rhs) r
  | spaced {s a b r : List Char} {e : Expr} (front : Spaces s a) (h : Derives .bare a e b) (back : Spaces b r) :
    Derives .primary s e r
  | string {s r text : List Char} (h : QuotedAt text s r) : Derives .bare s (.str (String.ofList text)) r
  | symbol {s r : List Char} {word : String} (h : NameAt word s r) : Derives .bare (':' :: s) (.str word) r
  | integer {s r digits : List Char} {negative : Bool} (h : IntegerAt negative digits s r) :
    Derives .bare s (.str (toString (signedValue negative digits))) r
  | group {s m r : List Char} {e : Expr} (h : Derives .disjunction s e m)
    (close : Spaced (SymbolAt [')']) m r) : Derives .bare ('(' :: s) e r
  | yes {s r : List Char} (h : NameAt "true" s r) : Derives .bare s (.bool true) r
  | no {s r : List Char} (h : NameAt "false" s r) : Derives .bare s (.bool false) r
  | nil {s r : List Char} (h : NameAt "nil" s r) : Derives .bare s .nil r
  | imported {s m r : List Char} {e : Expr} (word : NameAt "import" s m) (h : Derives .primary m e r) :
    Derives .bare s (.imported e) r
  | var {s m r : List Char} {head : String} {names : List String} (word : VariableAt head s m)
    (fields : FieldsAt names m r) : Derives .bare s (.var head names) r

end Bindery.Template.Grammar
