/-
The grammar of JSON texts.

A text of the grammar (`Written`) is told without a reader: its strings and numbers by `PiecesText`
and `NumberText`, its arrays and objects by what stands between the brackets. A text says a value if it
is, blanks around it aside, a text of the grammar whose document has that value (`Says`).

The readers of strings and numbers read these texts and no others. They take the longest number there
is, so a number is read whole only in front of what cannot continue it (`Stops`); inside a document
this always comes next.
-/
import Mathlib.Tactic
import Mathlib.Data.List.DropRight
import CodeCache.Json.Document

namespace CodeCache.Json

/-! ## The grammar -/

def Spaces (t : Text) : Prop := ∀ c ∈ t, isSpace c = true

instance (t : Text) : Decidable (Spaces t) := List.decidableBAll _ t

def Digits (t : Text) : Prop := t ≠ [] ∧ ∀ c ∈ t, Text.isDigit c = true

/-- a part of a string, as it may be written -/
inductive PieceText : Piece → Text → Prop where
  | plain {c} : c ≠ '"' → c ≠ '\\' → 0x20 ≤ c.toNat → PieceText (.char c) [c]
  | letter {c letter} : escaped? letter = some c → PieceText (.char c) ['\\', letter]
  | unit {n a b c d} : hexUnit? a b c d = some n → PieceText (.unit n) ['\\', 'u', a, b, c, d]

/-- what stands between the quotes -/
inductive PiecesText : List Piece → Text → Prop where
  | nil : PiecesText [] []
  | cons {piece pieces s t} : PieceText piece s → PiecesText pieces t →
    PiecesText (piece :: pieces) (s ++ t)

/-- digits in front of the point, a zero only alone -/
structure WholeText (t : Text) : Prop where
  digits : Digits t
  zero : t.head? = some '0' → t = ['0']

inductive FractionText : Option Text → Text → Prop where
  | absent : FractionText none []
  | present {digits} : Digits digits → FractionText (some digits) ('.' :: digits)

inductive ExponentText : Option (Bool × Text) → Text → Prop where
  | absent : ExponentText none []
  | unsigned {e digits} : e = 'e' ∨ e = 'E' → Digits digits →
    ExponentText (some (false, digits)) (e :: digits)
  | plus {e digits} : e = 'e' ∨ e = 'E' → Digits digits →
    ExponentText (some (false, digits)) (e :: '+' :: digits)
  | minus {e digits} : e = 'e' ∨ e = 'E' → Digits digits →
    ExponentText (some (true, digits)) (e :: '-' :: digits)

/-- the number behind its sign -/
inductive UnsignedText (n : NumberLiteral) : Text → Prop where
  | parts {fraction exponent} : WholeText n.whole → FractionText n.fraction fraction →
    ExponentText n.exponent exponent → UnsignedText n (n.whole ++ fraction ++ exponent)

inductive NumberText (n : NumberLiteral) : Text → Prop where
  | negative {t} : n.negative = true → UnsignedText n t → NumberText n ('-' :: t)
  | positive {t} : n.negative = false → UnsignedText n t → NumberText n t

/-- what a stretch of a text can be: a document, or what stands between the brackets of one -/
inductive Phrase where
  | document (d : Document)
  | items (ds : List Document)
  | members (ms : List (List Piece × Document))

/-- **The grammar.** Blanks stand around the items of an array, and around the keys and the values of
an object. -/
inductive Written : Phrase → Text → Prop where
  | null : Written (.document .null) "null".toList
  | isTrue : Written (.document (.bool true)) "true".toList
  | isFalse : Written (.document (.bool false)) "false".toList
  | number {n t} : NumberText n t → Written (.document (.number n)) t
  | string {pieces t} : PiecesText pieces t →
    Written (.document (.string pieces)) ('"' :: t ++ ['"'])
  | emptyArray {s} : Spaces s → Written (.document (.array [])) ('[' :: s ++ [']'])
  | array {ds t} : Written (.items ds) t → Written (.document (.array ds)) ('[' :: t ++ [']'])
  | emptyObject {s} : Spaces s → Written (.document (.object [])) ('\x7b' :: s ++ ['\x7d'])
  | object {ms t} : Written (.members ms) t →
    Written (.document (.object ms)) ('\x7b' :: t ++ ['\x7d'])
  | lastItem {d before t after} : Spaces before → Written (.document d) t → Spaces after →
    Written (.items [d]) (before ++ t ++ after)
  | item {d ds before t after rest} : Spaces before → Written (.document d) t → Spaces after →
    Written (.items ds) rest → Written (.items (d :: ds)) (before ++ t ++ after ++ ',' :: rest)
  | lastMember {key d before k gap before' t after} : Spaces before → PiecesText key k → Spaces gap →
    Spaces before' → Written (.document d) t → Spaces after →
    Written (.members [(key, d)]) (before ++ '"' :: k ++ '"' :: gap ++ ':' :: before' ++ t ++ after)
  | member {key d ms before k gap before' t after rest} : Spaces before → PiecesText key k →
    Spaces gap → Spaces before' → Written (.document d) t → Spaces after →
    Written (.members ms) rest →
    Written (.members ((key, d) :: ms))
      (before ++ '"' :: k ++ '"' :: gap ++ ':' :: before' ++ t ++ after ++ ',' :: rest)

/-- the text is one text of the grammar, blanks around it aside, and this is its value -/
def Says (t : Text) (v : Json) : Prop :=
  ∃ before text after d, Spaces before ∧ Spaces after ∧ t = before ++ text ++ after ∧
    Written (.document d) text ∧ d.value? deepest = some v

variable {t rest s : Text}

/-! ## Blanks -/

theorem skipSpace_append (h : Spaces s) (t : Text) : skipSpace (s ++ t) = skipSpace t :=
  List.dropWhile_append_of_pos h

theorem skipSpace_idem (t : Text) : skipSpace (skipSpace t) = skipSpace t :=
  List.dropWhile_idempotent _ _

theorem skipSpace_cons {c : Char} (h : isSpace c = false) (rest : Text) :
    skipSpace (c :: rest) = c :: rest := by
  rw [skipSpace, List.dropWhile_cons_of_neg (by simp [h])]

theorem exists_spaces (t : Text) : ∃ s, Spaces s ∧ t = s ++ skipSpace t :=
  ⟨t.takeWhile isSpace, fun _ hc => List.mem_takeWhile_imp hc,
    List.takeWhile_append_dropWhile.symm⟩

theorem Spaces.append (hs : Spaces s) (ht : Spaces t) : Spaces (s ++ t) :=
  List.forall_mem_append.2 ⟨hs, ht⟩

theorem skipSpace_eq_nil_iff : skipSpace t = [] ↔ Spaces t := List.dropWhile_eq_nil_iff

/-! ## Strings -/

theorem readPieces?_plain {c : Char} (hquote : c ≠ '"') (hslash : c ≠ '\\')
    (hlow : ¬c.toNat < 0x20) (rest : Text) :
    readPieces? (c :: rest) =
      (readPieces? rest).map fun read => (.char c :: read.1, read.2) := by
  rw [readPieces?.eq_def]
  split
  · next heq => cases heq
  · next heq => exact absurd (List.cons.inj heq).1 hquote
  · next heq => exact absurd (List.cons.inj heq).1 hslash
  · next heq => exact absurd (List.cons.inj heq).1 hslash
  · next heq =>
    obtain ⟨rfl, rfl⟩ := List.cons.inj heq
    rw [if_neg hlow]
    cases readPieces? rest <;> rfl

theorem readPieces?_letter {letter c : Char} (hletter : escaped? letter = some c)
    (hu : letter ≠ 'u') (rest : Text) :
    readPieces? ('\\' :: letter :: rest) =
      (readPieces? rest).map fun read => (.char c :: read.1, read.2) := by
  rw [readPieces?.eq_def]
  split
  · next heq => cases heq
  · next heq => cases heq
  · next heq => exact absurd (List.cons.inj (List.cons.inj heq).2).1 hu
  · next heq =>
    obtain ⟨-, heq⟩ := List.cons.inj heq
    obtain ⟨rfl, rfl⟩ := List.cons.inj heq
    rw [hletter]
    cases readPieces? rest <;> rfl
  · next hfirst _ hslash heq =>
    obtain ⟨rfl, rfl⟩ := List.cons.inj heq
    exact (hslash letter rest rfl rfl).elim

theorem readPieces?_append {pieces : List Piece} (h : PiecesText pieces t) (rest : Text) :
    readPieces? (t ++ '"' :: rest) = some (pieces, rest) := by
  induction h with
  | nil => rfl
  | cons hpiece _ ih =>
    rw [List.append_assoc]
    cases hpiece with
    | plain hquote hslash hlow =>
      rw [List.singleton_append, readPieces?_plain hquote hslash (by omega), ih]
      rfl
    | @letter _ letter hletter =>
      have hu : letter ≠ 'u' := by
        rintro rfl
        cases hletter
      rw [List.cons_append, List.cons_append, List.nil_append, readPieces?_letter hletter hu, ih]
      rfl
    | unit hunit =>
      simp only [List.cons_append, List.nil_append, readPieces?, hunit, ih]
      rfl

theorem piecesText_of_readPieces? {pieces : List Piece} (h : readPieces? t = some (pieces, rest)) :
    ∃ s, PiecesText pieces s ∧ t = s ++ '"' :: rest := by
  induction t using readPieces?.induct generalizing pieces rest with
  | case1 => cases h
  | case2 behind =>
    cases h
    exact ⟨[], .nil, rfl⟩
  | case3 a b c d behind ih =>
    simp only [readPieces?, bind, Option.bind_eq_some_iff, Option.some.injEq, Prod.mk.injEq] at h
    obtain ⟨n, hunit, ⟨pieces, _⟩, hread, rfl, rfl⟩ := h
    obtain ⟨s, hs, rfl⟩ := ih hread
    exact ⟨_, .cons (.unit hunit) hs, rfl⟩
  | case4 letter behind hunit ih =>
    simp only [readPieces?, bind, Option.bind_eq_some_iff, Option.some.injEq, Prod.mk.injEq] at h
    obtain ⟨c, hletter, ⟨pieces, _⟩, hread, rfl, rfl⟩ := h
    obtain ⟨s, hs, rfl⟩ := ih hread
    exact ⟨_, .cons (.letter hletter) hs, rfl⟩
  | case5 c behind hquote hunit hslash hlow =>
    simp only [readPieces?, hlow, if_true] at h
    cases h
  | case6 c behind hquote hunit hslash hlow ih =>
    simp only [readPieces?, hlow, if_false, bind, Option.bind_eq_some_iff, Option.some.injEq,
      Prod.mk.injEq] at h
    obtain ⟨⟨pieces, _⟩, hread, rfl, rfl⟩ := h
    have hplain : c ≠ '\\' := by
      intro hc
      cases behind with
      | nil => cases hread
      | cons d behind => exact hslash d behind hc rfl
    obtain ⟨s, hs, rfl⟩ := ih hread
    exact ⟨_, .cons (.plain hquote hplain (by omega)) hs, rfl⟩

/-! ## Numbers -/

/-- digits end in front of this text -/
def StopsDigits (rest : Text) : Prop := ∀ c ∈ rest.head?, Text.isDigit c = false

/-- the digits in front of the point end here, and there is no point -/
def StopsWhole (rest : Text) : Prop := ∀ c ∈ rest.head?, Text.isDigit c = false ∧ c ≠ '.'

/-- a number ends in front of this text -/
def Stops (rest : Text) : Prop :=
  ∀ c ∈ rest.head?, Text.isDigit c = false ∧ c ≠ '.' ∧ c ≠ 'e' ∧ c ≠ 'E'

theorem stops_nil : Stops [] := by simp [Stops]

theorem stops_cons {c : Char} (rest : Text)
    (h : Text.isDigit c = false ∧ c ≠ '.' ∧ c ≠ 'e' ∧ c ≠ 'E') : Stops (c :: rest) := by
  intro d hd
  obtain rfl : c = d := Option.some.inj hd
  exact h

theorem FractionText.stopsDigits {fraction : Option Text} (h : FractionText fraction t)
    (hrest : StopsWhole rest) : StopsDigits (t ++ rest) := by
  cases h with
  | absent => exact fun c hc => (hrest c hc).1
  | present =>
    rintro _ ⟨⟩
    decide

theorem ExponentText.stopsWhole {exponent : Option (Bool × Text)} (h : ExponentText exponent t)
    (hrest : Stops rest) : StopsWhole (t ++ rest) := by
  have hletter : ∀ (e : Char) (more : Text), e = 'e' ∨ e = 'E' → StopsWhole (e :: more) := by
    rintro e more (rfl | rfl) _ ⟨⟩ <;> decide
  cases h with
  | absent => exact fun c hc => ⟨(hrest c hc).1, (hrest c hc).2.1⟩
  | unsigned he => exact hletter _ _ he
  | plus he => exact hletter _ _ he
  | minus he => exact hletter _ _ he

theorem readDigits?_append {digits : Text} (h : Digits digits) (hrest : StopsDigits rest) :
    readDigits? (digits ++ rest) = some (digits, rest) := by
  have htake : rest.takeWhile Text.isDigit = [] := by
    cases rest with
    | nil => rfl
    | cons c rest => rw [List.takeWhile_cons_of_neg (by simp [hrest c rfl])]
  have hdrop : rest.dropWhile Text.isDigit = rest := by
    cases rest with
    | nil => rfl
    | cons c rest => rw [List.dropWhile_cons_of_neg (by simp [hrest c rfl])]
  have hempty : digits.isEmpty = false := by simpa using h.1
  rw [readDigits?, List.takeWhile_append_of_pos h.2, List.dropWhile_append_of_pos h.2, htake, hdrop,
    List.append_nil, hempty]
  rfl

theorem digits_of_readDigits? {digits : Text} (h : readDigits? t = some (digits, rest)) :
    Digits digits ∧ t = digits ++ rest := by
  simp only [readDigits?, Option.ite_none_left_eq_some, Option.some.injEq, Prod.mk.injEq] at h
  obtain ⟨hne, rfl, rfl⟩ := h
  exact ⟨⟨by simpa using hne, fun c hc => List.mem_takeWhile_imp hc⟩,
    List.takeWhile_append_dropWhile.symm⟩

theorem readWhole?_append {whole : Text} (h : WholeText whole) (hrest : StopsDigits rest) :
    readWhole? (whole ++ rest) = some (whole, rest) := by
  have hread := readDigits?_append h.digits hrest
  unfold readWhole?
  split
  · next c behind heq =>
    obtain ⟨first, more, rfl⟩ := List.exists_cons_of_ne_nil h.digits.1
    obtain ⟨rfl, htail⟩ := List.cons.inj heq
    -- a zero in front is the whole number, so what comes next is no digit
    obtain rfl : more = [] := (List.cons.inj (h.zero rfl)).2
    obtain rfl : rest = c :: behind := htail
    rw [hrest c rfl]
    rfl
  · exact hread

theorem wholeText_of_readWhole? {whole : Text} (h : readWhole? t = some (whole, rest)) :
    WholeText whole ∧ t = whole ++ rest := by
  unfold readWhole? at h
  split at h
  · simp only [Option.ite_none_left_eq_some, Option.some.injEq, Prod.mk.injEq] at h
    obtain ⟨-, rfl, rfl⟩ := h
    exact ⟨⟨by simp [Digits, Text.isDigit], fun _ => rfl⟩, rfl⟩
  · next hzero =>
    obtain ⟨hdigits, rfl⟩ := digits_of_readDigits? h
    refine ⟨⟨hdigits, ?_⟩, rfl⟩
    intro hhead
    obtain ⟨first, more, rfl⟩ := List.exists_cons_of_ne_nil hdigits.1
    obtain rfl : first = '0' := Option.some.inj hhead
    cases more with
    | nil => rfl
    | cons c more => exact (hzero c (more ++ rest) rfl).elim

theorem readFraction?_append {fraction : Option Text} (h : FractionText fraction t)
    (hrest : StopsWhole rest) : readFraction? (t ++ rest) = some (fraction, rest) := by
  cases h with
  | absent =>
    unfold readFraction?
    split
    · next heq => exact absurd rfl (hrest '.' (by rw [show rest = _ from heq]; rfl)).2
    · rfl
  | present hdigits =>
    rw [List.cons_append, readFraction?, readDigits?_append hdigits fun c hc => (hrest c hc).1]
    rfl

theorem fractionText_of_readFraction? {fraction : Option Text}
    (h : readFraction? t = some (fraction, rest)) :
    ∃ s, FractionText fraction s ∧ t = s ++ rest := by
  unfold readFraction? at h
  split at h
  · simp only [bind, Option.bind_eq_some_iff, Option.some.injEq, Prod.mk.injEq] at h
    obtain ⟨⟨digits, _⟩, hread, rfl, rfl⟩ := h
    obtain ⟨hdigits, rfl⟩ := digits_of_readDigits? hread
    exact ⟨_, .present hdigits, rfl⟩
  · cases h
    exact ⟨[], .absent, rfl⟩

theorem readExponentDigits?_append (negative : Bool) {digits : Text} (h : Digits digits)
    (hrest : StopsDigits rest) :
    readExponentDigits? negative (digits ++ rest) = some (some (negative, digits), rest) := by
  rw [readExponentDigits?, readDigits?_append h hrest]
  rfl

theorem digits_of_readExponentDigits? {negative : Bool} {exponent : Option (Bool × Text)}
    (h : readExponentDigits? negative t = some (exponent, rest)) :
    ∃ digits, exponent = some (negative, digits) ∧ Digits digits ∧ t = digits ++ rest := by
  simp only [readExponentDigits?, bind, Option.bind_eq_some_iff, Option.some.injEq,
    Prod.mk.injEq] at h
  obtain ⟨⟨digits, _⟩, hread, rfl, rfl⟩ := h
  exact ⟨digits, rfl, digits_of_readDigits? hread⟩

theorem isExponent_iff {e : Char} : (e == 'e' || e == 'E') = true ↔ e = 'e' ∨ e = 'E' := by simp

theorem readExponent?_append {exponent : Option (Bool × Text)} (h : ExponentText exponent t)
    (hrest : Stops rest) : readExponent? (t ++ rest) = some (exponent, rest) := by
  have hdigit : StopsDigits rest := fun c hc => (hrest c hc).1
  cases h with
  | absent =>
    cases rest with
    | nil => rfl
    | cons c rest =>
      obtain ⟨-, -, he, hE⟩ := hrest c rfl
      simp [readExponent?, he, hE]
  | @unsigned e digits he hdigits =>
    obtain ⟨first, more, rfl⟩ := List.exists_cons_of_ne_nil hdigits.1
    have hfirst : Text.isDigit first = true := hdigits.2 first List.mem_cons_self
    rw [List.cons_append, List.cons_append]
    unfold readExponent?
    dsimp only
    rw [if_pos (isExponent_iff.2 he)]
    split
    · next heq =>
      rw [(List.cons.inj heq).1] at hfirst
      exact absurd hfirst (by decide)
    · next heq =>
      rw [(List.cons.inj heq).1] at hfirst
      exact absurd hfirst (by decide)
    · exact readExponentDigits?_append false hdigits hdigit
  | plus he hdigits =>
    rw [List.cons_append, List.cons_append]
    unfold readExponent?
    dsimp only
    rw [if_pos (isExponent_iff.2 he)]
    exact readExponentDigits?_append false hdigits hdigit
  | minus he hdigits =>
    rw [List.cons_append, List.cons_append]
    unfold readExponent?
    dsimp only
    rw [if_pos (isExponent_iff.2 he)]
    exact readExponentDigits?_append true hdigits hdigit

theorem exponentText_of_readExponent? {exponent : Option (Bool × Text)}
    (h : readExponent? t = some (exponent, rest)) :
    ∃ s, ExponentText exponent s ∧ t = s ++ rest := by
  unfold readExponent? at h
  split at h
  · split_ifs at h with he
    · rw [isExponent_iff] at he
      split at h
      · obtain ⟨digits, rfl, hdigits, rfl⟩ := digits_of_readExponentDigits? h
        exact ⟨_, .plus he hdigits, rfl⟩
      · obtain ⟨digits, rfl, hdigits, rfl⟩ := digits_of_readExponentDigits? h
        exact ⟨_, .minus he hdigits, rfl⟩
      · obtain ⟨digits, rfl, hdigits, rfl⟩ := digits_of_readExponentDigits? h
        exact ⟨_, .unsigned he hdigits, rfl⟩
    · cases h
      exact ⟨[], .absent, rfl⟩
  · cases h
    exact ⟨[], .absent, rfl⟩

theorem readUnsigned?_append {n : NumberLiteral} (h : UnsignedText n t) (hrest : Stops rest) :
    readUnsigned? n.negative (t ++ rest) = some (n, rest) := by
  obtain ⟨hwhole, hfraction, hexponent⟩ := h
  have hafter := hexponent.stopsWhole hrest
  rw [List.append_assoc, List.append_assoc, readUnsigned?,
    readWhole?_append hwhole (hfraction.stopsDigits hafter)]
  simp only [bind, Option.bind_some, readFraction?_append hfraction hafter,
    readExponent?_append hexponent hrest]

theorem unsignedText_of_readUnsigned? {negative : Bool} {n : NumberLiteral}
    (h : readUnsigned? negative t = some (n, rest)) :
    n.negative = negative ∧ ∃ s, UnsignedText n s ∧ t = s ++ rest := by
  simp only [readUnsigned?, bind, Option.bind_eq_some_iff, Option.some.injEq, Prod.mk.injEq] at h
  obtain ⟨⟨whole, _⟩, hwhole, ⟨fraction, _⟩, hfraction, ⟨exponent, _⟩, hexponent, rfl, rfl⟩ := h
  obtain ⟨hwholeText, rfl⟩ := wholeText_of_readWhole? hwhole
  obtain ⟨f, hf, rfl⟩ := fractionText_of_readFraction? hfraction
  obtain ⟨e, he, rfl⟩ := exponentText_of_readExponent? hexponent
  exact ⟨rfl, _, .parts hwholeText hf he, by simp⟩

/-- a number behind its sign starts with a digit -/
theorem UnsignedText.starts {n : NumberLiteral} (h : UnsignedText n t) :
    ∃ c more, t = c :: more ∧ Text.isDigit c = true := by
  obtain ⟨⟨⟨hne, hdigits⟩, -⟩, -, -⟩ := h
  obtain ⟨c, more, hwhole⟩ := List.exists_cons_of_ne_nil hne
  exact ⟨c, _, by rw [hwhole]; rfl, hdigits c (hwhole ▸ List.mem_cons_self)⟩

theorem readNumber?_append {n : NumberLiteral} (h : NumberText n t) (hrest : Stops rest) :
    readNumber? (t ++ rest) = some (n, rest) := by
  cases h with
  | negative hsign htext =>
    rw [List.cons_append, readNumber?, ← hsign, readUnsigned?_append htext hrest]
  | positive hsign htext =>
    obtain ⟨c, more, rfl, hc⟩ := htext.starts
    have hread := readUnsigned?_append htext hrest
    unfold readNumber?
    split
    · next heq =>
      rw [(List.cons.inj heq).1] at hc
      exact absurd hc (by decide)
    · rw [← hsign, hread]

theorem numberText_of_readNumber? {n : NumberLiteral} (h : readNumber? t = some (n, rest)) :
    ∃ s, NumberText n s ∧ t = s ++ rest := by
  unfold readNumber? at h
  split at h
  · obtain ⟨hsign, s, hs, rfl⟩ := unsignedText_of_readUnsigned? h
    exact ⟨_, .negative hsign hs, rfl⟩
  · obtain ⟨hsign, s, hs, rfl⟩ := unsignedText_of_readUnsigned? h
    exact ⟨_, .positive hsign hs, rfl⟩

end CodeCache.Json
