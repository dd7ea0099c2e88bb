/-
The tokens of a JSON text.

A text that is not well formed has tokens too, up to and including the first one that breaks.  What
is wrong with a broken token can depend on whether its value is needed, so it carries both verdicts.
Nothing is read after it.
-/
import Mandate.Json.Literal
import Mandate.Json.Number

namespace Mandate
namespace Json

inductive Token
  | openArray
  | closeArray
  | openObject
  | closeObject
  | comma
  | colon
  | null
  | bool (b : Bool)
  | number (l : NumberLiteral)
  | string (s : StringLiteral)
  /-- No token: the fault where its value is needed, and where it is passed over. -/
  | broken (needed skipped : Fault)
deriving DecidableEq, Repr

namespace Token

/-- The characters that may stand between tokens. -/
def isBlank (c : Char) : Bool :=
  c == ' ' || c == '\n' || c == '\t' || c == '\r'

/-- The rest of a word whose beginning has been read. -/
def word (t : Token) : (expected : List Char) → List Char → Token × List Char
  | [], cs => (t, cs)
  | _ :: _, [] => (.broken .cutOff .cutOff, [])
  | e :: es, c :: cs =>
    if c = e then word t es cs else (.broken .malformed .malformed, [])

/-- A number after its sign.  Where its value is not needed, the end of the text is no excuse for
breaking off. -/
def ofNumber (negative : Bool) (cs : List Char) : Token × List Char :=
  match NumberLiteral.read negative cs with
  | .ok (l, rest) => (.number l, rest)
  | .error f => (.broken f .malformed, [])

/-- A string after its opening quote. -/
def ofString (cs : List Char) : Token × List Char :=
  let (s, rest) := StringLiteral.read cs
  (.string s, rest)

/-- The token that starts with `c`, and the text after it. -/
def next (c : Char) (rest : List Char) : Token × List Char :=
  if c = '[' then (.openArray, rest)
  else if c = ']' then (.closeArray, rest)
  else if c = '\x7b' then (.openObject, rest)
  else if c = '\x7d' then (.closeObject, rest)
  else if c = ',' then (.comma, rest)
  else if c = ':' then (.colon, rest)
  else if c = '"' then ofString rest
  else if c = 'n' then word .null ['u', 'l', 'l'] rest
  else if c = 't' then word (.bool true) ['r', 'u', 'e'] rest
  else if c = 'f' then word (.bool false) ['a', 'l', 's', 'e'] rest
  else if c = '-' then ofNumber true rest
  else if c.isDigit then ofNumber false (c :: rest)
  else (.broken .malformed .malformed, [])

theorem word_length (t : Token) (expected cs : List Char) :
    (word t expected cs).2.length ≤ cs.length := by
  fun_induction word t expected cs <;> simp_all
  omega

theorem ofNumber_length (negative : Bool) (cs : List Char) :
    (ofNumber negative cs).2.length ≤ cs.length - 1 := by
  rw [ofNumber]
  split
  · have := NumberLiteral.read_length (by assumption)
    simp only
    omega
  · simp

theorem ite_length {p : Prop} [Decidable p] {a b : Token × List Char} {n : Nat}
    (ha : a.2.length ≤ n) (hb : b.2.length ≤ n) : (if p then a else b).2.length ≤ n := by
  by_cases h : p
  · rw [if_pos h]
    exact ha
  · rw [if_neg h]
    exact hb

theorem next_length (c : Char) (rest : List Char) : (next c rest).2.length ≤ rest.length := by
  unfold next
  iterate 6 refine ite_length (Nat.le_refl _) ?_
  refine ite_length (StringLiteral.read_length rest) ?_
  iterate 3 refine ite_length (word_length _ _ _) ?_
  refine ite_length (Nat.le_trans (ofNumber_length true rest) (Nat.sub_le _ _)) ?_
  exact ite_length (ofNumber_length false (c :: rest)) (Nat.zero_le _)

/-- The tokens of a text, with nothing after a broken one. -/
def ofChars : List Char → List Token
  | [] => []
  | c :: rest =>
    if isBlank c then ofChars rest
    else
      let step := next c rest
      have : step.2.length ≤ rest.length := next_length c rest
      step.1 :: ofChars step.2
termination_by cs => cs.length
decreasing_by
  · simp
  · exact Nat.lt_succ_of_le this

end Token
end Json
end Mandate
