/-
JSON values, written on one line and read back.

Main result: `Exact.parse?_render`. A value without floating-point numbers, its integers in the
range of the readers and its lists nested no deeper than they allow, is read back from its text with
its members in order (`ordered`).

What is written is a text of the grammar, of a document that has the value (`Means`). This holds of
atoms, and goes from the items to the array and from the members to the object.
-/
import CodeCache.Json.Printer
import CodeCache.Proofs.Json.Documents
import CodeCache.Proofs.Text.Digits
import CodeCache.Proofs.Text.Hexadecimal

namespace CodeCache.Json

/-! ## Strings -/

/-- a character as it is written: a control without a letter of its own is a code unit -/
def pieceOf (c : Char) : Piece :=
  if c.toNat < 0x20 ∧ c ∉ ['\x08', '\x0c', '\n', '\r', '\t'] then .unit c.toNat else .char c

theorem hexUnit?_low {n : Nat} (h : n < 256) :
    hexUnit? '0' '0' (Hex.digit (n / 16)) (Hex.digit (n % 16)) = some n := by
  have hzero : Hex.value? '0' = some 0 := by decide
  have hhigh : Hex.value? (Hex.digit (n / 16)) = some (n / 16) :=
    Hex.value?_digit (by omega)
  have hlow : Hex.value? (Hex.digit (n % 16)) = some (n % 16) :=
    Hex.value?_digit (by omega)
  simp only [hexUnit?, hzero, hhigh, hlow, bind, Option.bind_some, Option.some.injEq]
  omega

/-- a character is written as one piece -/
theorem pieceText_escapeChar (c : Char) : PieceText (pieceOf c) (escapeChar c) := by
  by_cases hnamed : c ∈ ['"', '\\', '\x08', '\x0c', '\n', '\r', '\t']
  · simp only [List.mem_cons, List.not_mem_nil, or_false] at hnamed
    rcases hnamed with rfl | rfl | rfl | rfl | rfl | rfl | rfl <;> exact .letter (by decide)
  · simp only [List.mem_cons, List.not_mem_nil, or_false, not_or] at hnamed
    obtain ⟨hquote, hslash, h8, hc, hn, hr, ht⟩ := hnamed
    by_cases hlow : c.toNat < 0x20
    · have hescape : escapeChar c =
          ['\\', 'u', '0', '0', Hex.digit (c.toNat / 16), Hex.digit (c.toNat % 16)] := by
        simp [escapeChar, hquote, hslash, h8, hc, hn, hr, ht, hlow]
      have hpiece : pieceOf c = .unit c.toNat := by
        simp [pieceOf, h8, hc, hn, hr, ht, hlow]
      rw [hescape, hpiece]
      exact .unit (hexUnit?_low (by omega))
    · have hescape : escapeChar c = [c] := by
        simp [escapeChar, hquote, hslash, h8, hc, hn, hr, ht, hlow]
      have hpiece : pieceOf c = .char c := by
        simp [pieceOf, hlow]
      rw [hescape, hpiece]
      exact .plain hquote hslash (by omega)

theorem piecesText_escaped (t : Text) : PiecesText (t.map pieceOf) (t.flatMap escapeChar) := by
  induction t with
  | nil => exact .nil
  | cons c t ih => exact .cons (pieceText_escapeChar c) ih

theorem readPieces?_escaped (t rest : Text) :
    readPieces? (t.flatMap escapeChar ++ '"' :: rest) = some (t.map pieceOf, rest) :=
  readPieces?_append (piecesText_escaped t) rest

/-- a string has its quotes and at least one character for each of the text -/
theorem le_length_renderString (t : Text) : t.length + 2 ≤ (renderString t).length := by
  have hescaped : t.length ≤ (t.flatMap escapeChar).length := by
    induction t with
    | nil => exact Nat.le_refl 0
    | cons c t ih =>
      have hc : 0 < (escapeChar c).length := by
        unfold escapeChar
        split_ifs <;> exact Nat.succ_pos _
      simp only [List.flatMap_cons, List.length_append, List.length_cons]
      omega
  simp only [renderString, List.length_append, List.length_cons, List.length_nil]
  omega

theorem piecesText?_unit {n : Nat} (h : n < 0x20) (pieces : List Piece) :
    piecesText? (.unit n :: pieces) = (piecesText? pieces).map (Char.ofNat n :: ·) := by
  have hhigh : isHighUnit n = false := by simp [isHighUnit]; omega
  have hlow : isLowUnit n = false := by simp [isLowUnit]; omega
  cases pieces with
  | nil => simp [piecesText?, hhigh, hlow]
  | cons piece pieces =>
    cases piece with
    | char c => simp [piecesText?, hhigh, hlow]
    | unit m => simp [piecesText?, hhigh, hlow]

theorem piecesText?_map (t : Text) : piecesText? (t.map pieceOf) = some t := by
  induction t with
  | nil => rfl
  | cons c t ih =>
    rw [List.map_cons, pieceOf]
    split_ifs with hc
    · rw [piecesText?_unit hc.1, ih, Option.map_some, Char.ofNat_toNat]
    · rw [piecesText?, ih, Option.map_some]

/-! ## Integers -/

/-- an integer as it is written -/
def literal (n : Int) : NumberLiteral := ⟨n < 0, Text.ofNat n.natAbs, none, none⟩

theorem wholeText_ofNat (n : Nat) : WholeText (Text.ofNat n) where
  digits := ⟨Text.ofNat_ne_nil n, fun _ hc => Text.isDigit_of_mem_ofNat hc⟩
  zero := by
    intro hzero
    obtain ⟨c, more, hdigits⟩ := List.exists_cons_of_ne_nil (Text.ofNat_ne_nil n)
    obtain rfl : c = '0' := by simpa [hdigits] using hzero
    obtain rfl := Text.eq_zero_of_ofNat hdigits
    rfl

theorem numberText_renderInt (n : Int) : NumberText (literal n) (renderInt n) := by
  have hparts : UnsignedText (literal n) (Text.ofNat n.natAbs) := by
    have htext : UnsignedText (literal n) ((literal n).whole ++ [] ++ []) :=
      .parts (wholeText_ofNat _) .absent .absent
    rwa [List.append_nil, List.append_nil] at htext
  by_cases hn : n < 0
  · rw [renderInt, if_pos hn]
    exact .negative (decide_eq_true hn) hparts
  · rw [renderInt, if_neg hn]
    exact .positive (decide_eq_false hn) hparts

/-- an integer in the range of the readers is what its literal means -/
theorem value?_literal {n : Int} (hlow : -2 ^ 63 ≤ n) (hhigh : n < 2 ^ 64) :
    (literal n).value? = some (.int n) := by
  have hvalue : Text.digitsValue 0 (Text.ofNat n.natAbs) = n.natAbs := Text.digitsValue_ofNat _
  have hsize : UInt64.size = 2 ^ 64 := rfl
  have hpow : Nat.pow 2 63 = 2 ^ 63 := rfl
  by_cases hn : n < 0
  · have hne : n.natAbs ≠ 0 := by omega
    have hle : n.natAbs ≤ Nat.pow 2 63 := by omega
    simp [literal, NumberLiteral.value?, hvalue, hn, hne, hle, abs_of_neg hn]
  · have hlt : n.natAbs < UInt64.size := by omega
    have heq : (n.natAbs : Int) = n := by omega
    simp [literal, NumberLiteral.value?, hvalue, hn, hlt, heq]

/-! ## The order of members -/

mutual

/-- the value as a reader makes it: members sorted by their keys, and of equal keys the last one -/
def ordered : Json → Json
  | .arr items => .arr (orderedItems items)
  | .obj members => object (orderedMembers members)
  | value => value

def orderedItems : List Json → List Json
  | [] => []
  | item :: items => ordered item :: orderedItems items

def orderedMembers : List (Text × Json) → List (Text × Json)
  | [] => []
  | (key, value) :: members => (key, ordered value) :: orderedMembers members

end

theorem orderedItems_eq_self {items : List Json} (h : ∀ item ∈ items, ordered item = item) :
    orderedItems items = items := by
  induction items with
  | nil => rfl
  | cons item items ih =>
    rw [orderedItems, h item List.mem_cons_self,
      ih fun item hitem => h item (List.mem_cons_of_mem _ hitem)]

/-! ## Values -/

/-- the text is one of the grammar, of a document that has the value -/
def Means (depth : Nat) (t : Text) (value : Json) : Prop :=
  ∃ d, Written (.document d) t ∧ d.value? depth = some value

theorem means_null (depth : Nat) : Means depth (render .null) .null := ⟨.null, .null, rfl⟩

theorem means_bool (depth : Nat) (b : Bool) : Means depth (render (.bool b)) (.bool b) := by
  cases b with
  | false => exact ⟨_, .isFalse, rfl⟩
  | true => exact ⟨_, .isTrue, rfl⟩

theorem means_int (depth : Nat) {n : Int} (hlow : -2 ^ 63 ≤ n) (hhigh : n < 2 ^ 64) :
    Means depth (render (.int n)) (.int n) :=
  ⟨_, .number (numberText_renderInt n), value?_literal hlow hhigh⟩

theorem means_str (depth : Nat) (t : Text) : Means depth (render (.str t)) (.str t) :=
  ⟨_, .string (piecesText_escaped t), by rw [Document.value?, piecesText?_map, Option.map_some]⟩

/-! ## Arrays and objects -/

theorem renderItems_cons_cons (item next : Json) (items : List Json) :
    renderItems (item :: next :: items) = render item ++ ',' :: renderItems (next :: items) := rfl

theorem renderMembers_cons_cons (key : Text) (value : Json) (next : Text × Json)
    (members : List (Text × Json)) :
    renderMembers ((key, value) :: next :: members) =
      renderString key ++ ':' :: render value ++ ',' :: renderMembers (next :: members) := rfl

theorem spaces_nil : Spaces [] := by simp [Spaces]

theorem means_items {depth : Nat} {items : List Json} (hne : items ≠ [])
    (h : ∀ item ∈ items, Means depth (render item) (ordered item)) :
    ∃ ds, Written (.items ds) (renderItems items) ∧
      itemValues? depth ds = some (orderedItems items) := by
  induction items with
  | nil => exact absurd rfl hne
  | cons item items ih =>
    obtain ⟨d, hd, hvalue⟩ := h item List.mem_cons_self
    cases items with
    | nil =>
      refine ⟨[d], ?_, by simp [itemValues?, hvalue, orderedItems]⟩
      simpa [renderItems] using Written.lastItem spaces_nil hd spaces_nil
    | cons next items =>
      obtain ⟨ds, hds, hvalues⟩ :=
        ih (List.cons_ne_nil _ _) fun item hitem => h item (List.mem_cons_of_mem _ hitem)
      refine ⟨d :: ds, ?_, by simp [itemValues?, hvalue, hvalues, orderedItems]⟩
      simpa [renderItems_cons_cons] using Written.item spaces_nil hd spaces_nil hds

theorem means_members {depth : Nat} {members : List (Text × Json)} (hne : members ≠ [])
    (h : ∀ m ∈ members, Means depth (render m.2) (ordered m.2)) :
    ∃ ms, Written (.members ms) (renderMembers members) ∧
      memberValues? depth ms = some (orderedMembers members) := by
  induction members with
  | nil => exact absurd rfl hne
  | cons m members ih =>
    obtain ⟨key, value⟩ := m
    have hmember : Means depth (render value) (ordered value) := h (key, value) List.mem_cons_self
    obtain ⟨d, hd, hvalue⟩ := hmember
    have hkey := piecesText_escaped key
    cases members with
    | nil =>
      refine ⟨[(key.map pieceOf, d)], ?_,
        by simp [memberValues?, piecesText?_map, hvalue, orderedMembers]⟩
      simpa [renderMembers, renderString] using
        Written.lastMember spaces_nil hkey spaces_nil spaces_nil hd spaces_nil
    | cons next members =>
      obtain ⟨ms, hms, hvalues⟩ :=
        ih (List.cons_ne_nil _ _) fun m hm => h m (List.mem_cons_of_mem _ hm)
      refine ⟨(key.map pieceOf, d) :: ms, ?_,
        by simp [memberValues?, piecesText?_map, hvalue, hvalues, orderedMembers]⟩
      simpa [renderMembers_cons_cons, renderString] using
        Written.member spaces_nil hkey spaces_nil spaces_nil hd spaces_nil hms

theorem means_arr {depth : Nat} {items : List Json}
    (h : ∀ item ∈ items, Means depth (render item) (ordered item)) :
    Means (depth + 1) (render (.arr items)) (ordered (.arr items)) := by
  cases items with
  | nil => exact ⟨.array [], .emptyArray spaces_nil, rfl⟩
  | cons item items =>
    obtain ⟨ds, hds, hvalues⟩ := means_items (List.cons_ne_nil _ _) h
    exact ⟨.array ds, .array hds, by simp [Document.value?, hvalues, ordered]⟩

theorem means_obj {depth : Nat} {members : List (Text × Json)}
    (h : ∀ m ∈ members, Means depth (render m.2) (ordered m.2)) :
    Means (depth + 1) (render (.obj members)) (ordered (.obj members)) := by
  cases members with
  | nil => exact ⟨.object [], .emptyObject spaces_nil, rfl⟩
  | cons m members =>
    obtain ⟨ms, hms, hvalues⟩ := means_members (List.cons_ne_nil _ _) h
    exact ⟨.object ms, .object hms, by simp [Document.value?, hvalues, ordered]⟩

/-! ## Whole texts -/

/-- a value whose text is exact: integers in range and no other numbers, nested at most `depth` deep -/
inductive Exact : Nat → Json → Prop
  | null {depth : Nat} : Exact depth .null
  | bool {depth : Nat} (b : Bool) : Exact depth (.bool b)
  | int {depth : Nat} {n : Int} (low : -2 ^ 63 ≤ n) (high : n < 2 ^ 64) : Exact depth (.int n)
  | str {depth : Nat} (t : Text) : Exact depth (.str t)
  | arr {depth : Nat} {items : List Json} (h : ∀ item ∈ items, Exact depth item) :
    Exact (depth + 1) (.arr items)
  | obj {depth : Nat} {members : List (Text × Json)} (h : ∀ m ∈ members, Exact depth m.2) :
    Exact (depth + 1) (.obj members)

theorem Exact.means {depth : Nat} {value : Json} (h : Exact depth value) :
    Means depth (render value) (ordered value) := by
  induction h with
  | null => exact means_null _
  | bool b => exact means_bool _ b
  | int low high => exact means_int _ low high
  | str t => exact means_str _ t
  | arr _ ih => exact means_arr ih
  | obj _ ih => exact means_obj ih

/-- **An exact value is read from its text as it is, its members put in order.** -/
theorem Exact.parse?_render {value : Json} (h : Exact deepest value) :
    parse? (render value) = some (ordered value) := by
  obtain ⟨d, hd, hvalue⟩ := h.means
  exact parse?_eq_some_iff.2 ⟨[], _, [], d, spaces_nil, spaces_nil, by simp, hd, hvalue⟩

end CodeCache.Json
