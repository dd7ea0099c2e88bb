/-
Owners made from what people type.

The factories take any text as a name and pad or cut the bytes of a key to its length.  The strict
one refuses digits that are not hexadecimal.  The lenient one never refuses: where the strict one
does, it keeps the bytes that the leading digits spell and says so.
-/
import Mandate.Owner

namespace Mandate
namespace Owner

/-- The input without a leading mark; only the lowercase spelling counts as one here. -/
def stripLowerMark : List Char → List Char
  | '0' :: 'x' :: digits => digits
  | text => text

/-- The text up to the next mark. -/
def beforeMark : List Char → List Char
  | [] => []
  | '0' :: 'x' :: _ => []
  | c :: rest => c :: beforeMark rest

/-- Makes an owner, or refuses digits that spell no bytes. -/
def generate (s : Scheme) (input : String) : Except AuthorError Owner :=
  match s with
  | .account => .ok (.name ⟨input⟩)
  | .key k =>
    ((Key.decodeDigits k (stripLowerMark input.toList)).map fun bs =>
      .key k (FixedBytes.padLeft k.length bs)).mapError .payload

/-- The bytes that can be made out in an input: those of its leading digits, after a mark up to the
next mark. -/
def recover (input : List Char) : Bytes :=
  match input with
  | '0' :: 'x' :: digits => Hex.decodeLeading (Utf8.encodeChars (beforeMark digits))
  | digits => Hex.decodeLeading (Utf8.encodeChars digits)

/-- What the lenient factory reports when it had to recover: what was asked for, why the input was
refused, and how many bytes could be made out. -/
structure Recovery where
  scheme : Scheme
  error : AuthorError
  recovered : Nat

/-- Makes an owner of any input. -/
def generateLenient (s : Scheme) (input : String) : Owner × Option Recovery :=
  match s with
  | .account => (.name ⟨input⟩, none)
  | .key k =>
    match generate (.key k) input with
    | .ok owner => (owner, none)
    | .error error =>
      let bs := recover input.toList
      (.key k (FixedBytes.padLeft k.length bs), some ⟨.key k, error, bs.length⟩)

end Owner
end Mandate
