/-
The texts of JSON tokens, and that the scanner finds the tokens again.

A layout of some tokens is a text that writes them one after the other, with blanks around them and
between them.  Most tokens are written in one way only.  A string is written piece by piece, and a
piece may be the character itself, a letter after a backslash, or four digits of either case; an
exponent may have a sign that says nothing.  None of this mentions the scanner.

A number is the one token that does not end by itself: what comes next has to be something that
cannot belong to it.  `Token.Separated` says so of tokens, where it is easy to see.
-/
import Mandate.Json.Token
import Mandate.Proofs.Hex.Digits
import Mathlib.Data.List.Chain
import Mathlib.Data.List.Forall2

namespace Mandate
namespace Json

/-! ## Strings -/

/-- The letters that may follow a backslash, with the characters that they stand for. -/
def letterEscapes : List (Char × Char) :=
  [('"', '"'), ('\\', '\\'), ('/', '/'), ('b', '\x08'), ('f', '\x0c'), ('n', '\n'), ('r', '\r'),
    ('t', '\t')]

inductive Piece.Written : Piece → List Char → Prop
  | plain {c : Char} : c ≠ '"' → c ≠ '\\' → ' ' ≤ c → Written (.char c) [c]
  | letter {e c : Char} : (e, c) ∈ letterEscapes → Written (.char c) ['\\', e]
  | digits {n₁ n₂ n₃ n₄ : Nat} {a b c d : Char} : Hex.IsDigit n₁ a → Hex.IsDigit n₂ b →
      Hex.IsDigit n₃ c → Hex.IsDigit n₄ d →
      Written (.unit (((n₁ * 16 + n₂) * 16 + n₃) * 16 + n₄)) ['\\', 'u', a, b, c, d]

theorem escaped?_of_mem {e c : Char} (h : (e, c) ∈ letterEscapes) : escaped? e = some c := by
  have each : ∀ p ∈ letterEscapes, escaped? p.1 = some p.2 := by decide
  exact each (e, c) h

theorem codeUnit?_of_isDigit {n₁ n₂ n₃ n₄ : Nat} {a b c d : Char} (ha : Hex.IsDigit n₁ a)
    (hb : Hex.IsDigit n₂ b) (hc : Hex.IsDigit n₃ c) (hd : Hex.IsDigit n₄ d) :
    codeUnit? a b c d = some (((n₁ * 16 + n₂) * 16 + n₃) * 16 + n₄) := by
  simp only [codeUnit?, Hex.digit?_of_isDigit ha, Hex.digit?_of_isDigit hb,
    Hex.digit?_of_isDigit hc, Hex.digit?_of_isDigit hd]

namespace StringLiteral

/-- Quotes around the pieces, each in a form of its own. -/
def Written (s : StringLiteral) (cs : List Char) : Prop :=
  s.fault = none ∧ ∃ parts, List.Forall₂ Piece.Written s.pieces parts ∧
    cs = '"' :: (parts.flatten ++ ['"'])

theorem read_quote (rest : List Char) : read ('"' :: rest) = (⟨[], none⟩, rest) := by
  rw [read.eq_def]
  simp only [if_true]

theorem read_plain {c : Char} (hquote : c ≠ '"') (hslash : c ≠ '\\') (hblank : ' ' ≤ c)
    (rest : List Char) : read (c :: rest) = withPiece (.char c) (read rest) := by
  rw [read.eq_def]
  simp only [if_neg hquote, if_neg hslash, if_neg (Char.not_lt.mpr hblank)]

theorem read_letter {e c : Char} (hu : e ≠ 'u') (h : escaped? e = some c) (rest : List Char) :
    read ('\\' :: e :: rest) = withPiece (.char c) (read rest) := by
  rw [read.eq_def]
  simp [if_neg hu, h]

theorem read_digits {a b c d : Char} {n : Nat} (h : codeUnit? a b c d = some n)
    (rest : List Char) :
    read ('\\' :: 'u' :: a :: b :: c :: d :: rest) = withPiece (.unit n) (read rest) := by
  rw [read.eq_def]
  simp [h]

theorem read_piece {p : Piece} {part : List Char} (h : p.Written part) (rest : List Char) :
    read (part ++ rest) = withPiece p (read rest) := by
  cases h with
  | plain hquote hslash hblank => exact read_plain hquote hslash hblank rest
  | @letter e c hmem =>
    have hu : e ≠ 'u' := by
      rintro rfl
      revert hmem
      simp [letterEscapes]
    exact read_letter hu (escaped?_of_mem hmem) rest
  | digits ha hb hc hd => exact read_digits (codeUnit?_of_isDigit ha hb hc hd) rest

theorem read_written {s : StringLiteral} {cs : List Char} (h : s.Written ('"' :: cs))
    (rest : List Char) : read (cs ++ rest) = (s, rest) := by
  obtain ⟨pieces, fault⟩ := s
  obtain ⟨hfault, parts, hparts, hcs⟩ := h
  obtain rfl := (List.cons.inj hcs).2
  simp only at hfault hparts
  subst hfault
  clear hcs
  rw [List.append_assoc]
  induction hparts with
  | nil => rw [List.flatten_nil, List.nil_append, List.singleton_append, read_quote]
  | cons hp _ ih =>
    rw [List.flatten_cons, List.append_assoc, read_piece hp, ih]
    rfl

end StringLiteral

/-! ## Numbers -/

/-- Whether a character after a number would be taken for a part of it. -/
def continuesNumber (c : Char) : Bool :=
  c.isDigit || c == '.' || c == 'e' || c == 'E'

/-- A number that ends where this text begins has ended. -/
def EndsNumber (rest : List Char) : Prop :=
  ∀ c ∈ rest.head?, continuesNumber c = false

theorem EndsNumber.notDigit {rest : List Char} (h : EndsNumber rest) :
    ∀ c ∈ rest.head?, c.isDigit = false := by
  intro c hc
  have hcont := h c hc
  simp only [continuesNumber, Bool.or_eq_false_iff] at hcont
  exact hcont.1.1.1

namespace NumberLiteral

def IsDigits (ds : List Char) : Prop :=
  ds ≠ [] ∧ ∀ c ∈ ds, c.isDigit = true

/-- The sign of an exponent; a plus may be left out. -/
inductive SignWritten : Bool → List Char → Prop
  | minus : SignWritten true ['-']
  | plus : SignWritten false ['+']
  | none : SignWritten false []

inductive ExponentWritten : Option (Bool × List Char) → List Char → Prop
  | none : ExponentWritten none []
  | some {negative : Bool} {ds sign : List Char} {e : Char} : e = 'e' ∨ e = 'E' →
      SignWritten negative sign → IsDigits ds →
      ExponentWritten (some (negative, ds)) (e :: (sign ++ ds))

inductive FractionWritten : List Char → List Char → Prop
  | none : FractionWritten [] []
  | some {ds : List Char} : IsDigits ds → FractionWritten ds ('.' :: ds)

/-- The digits before the point: zero alone, or none in front. -/
def WholeWritten (ds : List Char) : Prop :=
  IsDigits ds ∧ (ds.head? = some '0' → ds = ['0'])

def Written (l : NumberLiteral) (cs : List Char) : Prop :=
  WholeWritten l.whole ∧ ∃ fraction exponent, FractionWritten l.fraction fraction ∧
    ExponentWritten l.exponent exponent ∧
    cs = (if l.negative then ['-'] else []) ++ l.whole ++ fraction ++ exponent

theorem takeWhile_digits {ds rest : List Char} (hds : ∀ c ∈ ds, c.isDigit = true)
    (hrest : ∀ c ∈ rest.head?, c.isDigit = false) :
    (ds ++ rest).takeWhile Char.isDigit = ds ∧ (ds ++ rest).dropWhile Char.isDigit = rest := by
  rw [List.takeWhile_append_of_pos hds, List.dropWhile_append_of_pos hds]
  cases rest with
  | nil => simp
  | cons c rest => simp [hrest c rfl]

theorem IsDigits.isEmpty_eq_false {ds : List Char} (h : IsDigits ds) : ds.isEmpty = false := by
  cases ds with
  | nil => exact absurd rfl h.1
  | cons c ds => rfl

theorem readSign_written {negative : Bool} {sign ds rest : List Char}
    (h : SignWritten negative sign) (hds : IsDigits ds) :
    readSign (sign ++ (ds ++ rest)) = (negative, ds ++ rest) := by
  cases h with
  | minus => rfl
  | plus => rfl
  | none =>
    obtain ⟨hne, hdigits⟩ := hds
    cases ds with
    | nil => exact absurd rfl hne
    | cons c ds =>
      have hc := hdigits c List.mem_cons_self
      have hminus : c ≠ '-' := by
        rintro rfl
        exact absurd hc (by decide)
      have hplus : c ≠ '+' := by
        rintro rfl
        exact absurd hc (by decide)
      simp only [List.nil_append, List.cons_append, readSign, if_neg hminus, if_neg hplus]

theorem readExponent_written {negative : Bool} {whole fraction cs rest : List Char}
    {exponent : Option (Bool × List Char)} (h : ExponentWritten exponent cs)
    (hrest : EndsNumber rest) :
    readExponent negative whole fraction (cs ++ rest) =
      .ok (⟨negative, whole, fraction, exponent⟩, rest) := by
  cases h with
  | none =>
    cases rest with
    | nil => rfl
    | cons c rest =>
      have hcont := hrest c rfl
      simp only [continuesNumber, Bool.or_eq_false_iff, beq_eq_false_iff_ne] at hcont
      rw [List.nil_append, readExponent, if_neg]
      rintro (rfl | rfl)
      · exact hcont.1.2 rfl
      · exact hcont.2 rfl
  | some he hsign hds =>
    obtain ⟨htake, hdrop⟩ := takeWhile_digits hds.2 hrest.notDigit
    rw [List.cons_append, List.append_assoc, readExponent, if_pos he]
    simp only [readSign_written hsign hds, htake, hdrop, hds.isEmpty_eq_false]
    rfl

theorem ExponentWritten.endsDigits {exponent : Option (Bool × List Char)} {cs rest : List Char}
    (h : ExponentWritten exponent cs) (hrest : EndsNumber rest) :
    ∀ c ∈ (cs ++ rest).head?, c.isDigit = false ∧ c ≠ '.' := by
  cases h with
  | none =>
    intro c hc
    have hcont := hrest c hc
    simp only [continuesNumber, Bool.or_eq_false_iff, beq_eq_false_iff_ne] at hcont
    exact ⟨hcont.1.1.1, hcont.1.1.2⟩
  | some he _ _ =>
    intro c hc
    obtain rfl := Option.some.inj hc
    rcases he with rfl | rfl <;> decide

theorem readFraction_written {negative : Bool} {whole fraction text exp rest : List Char}
    {exponent : Option (Bool × List Char)} (hfraction : FractionWritten fraction text)
    (hexponent : ExponentWritten exponent exp) (hrest : EndsNumber rest) :
    readFraction negative whole (text ++ (exp ++ rest)) =
      .ok (⟨negative, whole, fraction, exponent⟩, rest) := by
  have hread (ds : List Char) : readExponent negative whole ds (exp ++ rest) =
      .ok (⟨negative, whole, ds, exponent⟩, rest) := readExponent_written hexponent hrest
  have hends := hexponent.endsDigits hrest
  cases hfraction with
  | none =>
    rw [List.nil_append, ← hread []]
    cases hcs : exp ++ rest with
    | nil => rfl
    | cons c cs =>
      rw [readFraction, if_neg (hends c (by rw [hcs]; rfl)).2]
  | some hds =>
    obtain ⟨htake, hdrop⟩ := takeWhile_digits hds.2 fun c hc => (hends c hc).1
    rw [List.cons_append, readFraction, if_pos rfl]
    simp only [htake, hdrop, hds.isEmpty_eq_false, hread]
    rfl

theorem FractionWritten.endsDigits {fraction text cs : List Char}
    (h : FractionWritten fraction text) (hcs : ∀ c ∈ cs.head?, c.isDigit = false ∧ c ≠ '.') :
    ∀ c ∈ (text ++ cs).head?, c.isDigit = false := by
  cases h with
  | none => exact fun c hc => (hcs c hc).1
  | some _ =>
    intro c hc
    obtain rfl := Option.some.inj hc
    decide

/-- After its sign, which is read apart, a literal is read up to where it ends. -/
theorem read_written {l : NumberLiteral} {fraction exponent rest : List Char}
    (hwhole : WholeWritten l.whole) (hfraction : FractionWritten l.fraction fraction)
    (hexponent : ExponentWritten l.exponent exponent) (hrest : EndsNumber rest) :
    read l.negative (l.whole ++ (fraction ++ (exponent ++ rest))) = .ok (l, rest) := by
  obtain ⟨⟨hne, hdigits⟩, hzero⟩ := hwhole
  obtain ⟨htake, hdrop⟩ :=
    takeWhile_digits hdigits (hfraction.endsDigits (hexponent.endsDigits hrest))
  rw [read]
  simp only [htake, hdrop]
  split
  · exact absurd ‹l.whole = []› hne
  · rename_i c ds hds
    rw [hds] at hzero
    cases hzero rfl
  · exact readFraction_written hfraction hexponent hrest

end NumberLiteral

/-! ## Tokens -/

namespace Token

/-- The ways to write a token.  What is broken is no token and cannot be written. -/
def Written : Token → List Char → Prop
  | openArray => (· = ['['])
  | closeArray => (· = [']'])
  | openObject => (· = ['\x7b'])
  | closeObject => (· = ['\x7d'])
  | comma => (· = [','])
  | colon => (· = [':'])
  | null => (· = ['n', 'u', 'l', 'l'])
  | bool true => (· = ['t', 'r', 'u', 'e'])
  | bool false => (· = ['f', 'a', 'l', 's', 'e'])
  | number l => l.Written
  | string s => s.Written
  | broken _ _ => fun _ => False

def isNumber : Token → Bool
  | number _ => true
  | _ => false

/-- Whether a number in front of this token has ended. -/
def isDelimiter : Token → Bool
  | comma => true
  | closeArray => true
  | closeObject => true
  | _ => false

theorem next_digit {c : Char} (h : c.isDigit = true) (rest : List Char) :
    next c rest = ofNumber false (c :: rest) := by
  have hne {d : Char} (hd : d.isDigit = false) : c ≠ d := by
    rintro rfl
    rw [h] at hd
    cases hd
  rw [next]
  iterate 11 rw [if_neg (hne (by decide))]
  rw [if_pos h]

theorem isBlank_digit {c : Char} (h : c.isDigit = true) : isBlank c = false := by
  have hne {d : Char} (hd : d.isDigit = false) : c ≠ d := by
    rintro rfl
    rw [h] at hd
    cases hd
  simp [isBlank, hne (d := ' ') (by decide), hne (d := '\n') (by decide),
    hne (d := '\t') (by decide), hne (d := '\r') (by decide)]

theorem next_number {l : NumberLiteral} {cs rest : List Char} (h : l.Written cs)
    (hrest : EndsNumber rest) :
    ∃ c cs', cs = c :: cs' ∧ isBlank c = false ∧ next c (cs' ++ rest) = (number l, rest) := by
  obtain ⟨hwhole, fraction, exponent, hfraction, hexponent, rfl⟩ := h
  have hread := NumberLiteral.read_written hwhole hfraction hexponent hrest
  by_cases hneg : l.negative = true
  · refine ⟨'-', l.whole ++ fraction ++ exponent, by simp [hneg], by decide, ?_⟩
    have hnext (cs : List Char) : next '-' cs = ofNumber true cs := rfl
    rw [hneg] at hread
    simp only [hnext, ofNumber, List.append_assoc, hread]
  · obtain ⟨d, ds, hd⟩ := List.exists_cons_of_ne_nil hwhole.1.1
    have hdigit : d.isDigit = true := hwhole.1.2 d (by rw [hd]; exact List.mem_cons_self)
    have hpos : l.negative = false := by simpa using hneg
    refine ⟨d, ds ++ fraction ++ exponent, by simp [hpos, hd], isBlank_digit hdigit, ?_⟩
    rw [hpos, hd] at hread
    rw [next_digit hdigit]
    simp only [List.cons_append] at hread
    simp only [ofNumber, List.append_assoc, hread]

/-- A token is scanned off the text that begins with it. -/
theorem next_written {t : Token} {cs rest : List Char} (h : t.Written cs)
    (hrest : t.isNumber = true → EndsNumber rest) :
    ∃ c cs', cs = c :: cs' ∧ isBlank c = false ∧ next c (cs' ++ rest) = (t, rest) := by
  cases t with
  | number l => exact next_number h (hrest rfl)
  | string s =>
    obtain ⟨hfault, parts, hparts, rfl⟩ := h
    refine ⟨'"', _, rfl, by decide, ?_⟩
    have hread := StringLiteral.read_written ⟨hfault, parts, hparts, rfl⟩ rest
    have hnext (cs : List Char) : next '"' cs = ofString cs := rfl
    simp only [hnext, ofString, hread]
  | broken _ _ => exact absurd h id
  | bool b => cases b <;> (obtain rfl := h; exact ⟨_, _, rfl, by decide, rfl⟩)
  | _ =>
    obtain rfl := h
    exact ⟨_, _, rfl, by decide, rfl⟩

/-! ## Layouts -/

def IsBlanks (cs : List Char) : Prop :=
  ∀ c ∈ cs, c = ' ' ∨ c = '\n' ∨ c = '\t' ∨ c = '\r'

/-- The tokens one after another, with any blanks around each of them. -/
inductive Layout : List Token → List Char → Prop
  | nil {blanks : List Char} : IsBlanks blanks → Layout [] blanks
  | cons {t : Token} {ts : List Token} {blanks word cs : List Char} : IsBlanks blanks →
      t.Written word → Layout ts cs → Layout (t :: ts) (blanks ++ word ++ cs)

/-- Every number has a delimiter after it, if it has anything after it. -/
def Separated : List Token → Prop :=
  List.IsChain fun t u => t.isNumber = true → u.isDelimiter = true

theorem ofChars_blanks {blanks : List Char} (h : IsBlanks blanks) (cs : List Char) :
    ofChars (blanks ++ cs) = ofChars cs := by
  induction blanks with
  | nil => rfl
  | cons c blanks ih =>
    have hc : isBlank c = true := by
      rcases h c List.mem_cons_self with rfl | rfl | rfl | rfl <;> rfl
    rw [List.cons_append, ofChars, if_pos hc, ih fun d hd => h d (List.mem_cons_of_mem c hd)]

theorem ofChars_written {t : Token} {cs rest : List Char} (h : t.Written cs)
    (hrest : t.isNumber = true → EndsNumber rest) : ofChars (cs ++ rest) = t :: ofChars rest := by
  obtain ⟨c, cs', rfl, hblank, hnext⟩ := next_written h hrest
  rw [List.cons_append, ofChars, if_neg (by simp [hblank])]
  simp only [hnext]

theorem IsBlanks.endsNumber {blanks cs : List Char} (h : IsBlanks blanks) (hcs : EndsNumber cs) :
    EndsNumber (blanks ++ cs) := by
  intro c hc
  cases blanks with
  | nil => exact hcs c hc
  | cons b blanks =>
    obtain rfl := Option.some.inj hc
    rcases h b List.mem_cons_self with rfl | rfl | rfl | rfl <;> rfl

theorem Layout.endsNumber {t : Token} {ts : List Token} {cs : List Char}
    (h : Layout (t :: ts) cs) (ht : t.isDelimiter = true) (rest : List Char) :
    EndsNumber (cs ++ rest) := by
  cases h with
  | cons hblanks hword _ =>
    rw [List.append_assoc, List.append_assoc]
    refine hblanks.endsNumber ?_
    intro c hc
    cases t with
    | comma | closeArray | closeObject =>
      obtain rfl := hword
      obtain rfl := Option.some.inj hc
      rfl
    | _ => cases ht

/-- The scanner finds the tokens of a layout, whatever stands after it, and goes on behind it. -/
theorem ofChars_append {ts : List Token} {cs rest : List Char} (h : Layout ts cs)
    (hts : Separated ts) (hrest : ∀ t ∈ ts.getLast?, t.isNumber = true → EndsNumber rest) :
    ofChars (cs ++ rest) = ts ++ ofChars rest := by
  induction h with
  | nil hblanks => exact ofChars_blanks hblanks rest
  | @cons t ts blanks word cs hblanks hword hlayout ih =>
    have hends : t.isNumber = true → EndsNumber (cs ++ rest) := by
      intro ht
      cases ts with
      | nil =>
        cases hlayout with
        | nil htail => exact htail.endsNumber (hrest t rfl ht)
      | cons u ts => exact hlayout.endsNumber ((List.isChain_cons_cons.mp hts).1 ht) rest
    have htail : ofChars (cs ++ rest) = ts ++ ofChars rest := by
      refine ih hts.tail fun u hu => hrest u ?_
      cases ts with
      | nil => cases hu
      | cons v ts => exact hu
    rw [List.append_assoc, List.append_assoc, ofChars_blanks hblanks, ofChars_written hword hends,
      htail]
    rfl

theorem ofChars_layout {ts : List Token} {cs : List Char} (h : Layout ts cs)
    (hts : Separated ts) : ofChars cs = ts := by
  have hends : EndsNumber [] := fun c hc => by cases hc
  have happend := ofChars_append h hts fun _ _ _ => hends
  simpa [ofChars] using happend

end Token

end Json
end Mandate
