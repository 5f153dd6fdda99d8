/-
The reader reads the grammar.

Main result, `parse?_eq_some_iff`: a text is read as a value if and only if it says it. So nothing may
stand behind the document, and a text has one reading at most.

Every text of the grammar is read, wherever it stands and with two calls a character
(`Written.readAs`, by induction on the grammar), and what is read is a text of the grammar
(`sound`, by induction on the calls).
-/
import CodeCache.Proofs.Json.Grammar

namespace CodeCache.Json

variable {t rest s : Text}

/-! ## Atoms -/

/-- a number starts with its sign or with a digit -/
theorem NumberText.starts {n : NumberLiteral} (h : NumberText n t) :
    ∃ c more, t = c :: more ∧ (c = '-' ∨ Text.isDigit c = true) := by
  cases h with
  | negative _ htext => exact ⟨'-', _, rfl, .inl rfl⟩
  | positive _ htext =>
    obtain ⟨c, more, hcons, hc⟩ := htext.starts
    exact ⟨c, more, hcons, .inr hc⟩

/-- what starts a number starts nothing else -/
theorem ne_of_starts {c : Char} (hc : c = '-' ∨ Text.isDigit c = true) (other : Char)
    (h : other ≠ '-' ∧ Text.isDigit other = false) : c ≠ other := by
  rintro rfl
  simp [h] at hc

theorem readAtom?_number {n : NumberLiteral} (h : NumberText n t) (hrest : Stops rest) :
    readAtom? (t ++ rest) = some (.number n, rest) := by
  have hread := readNumber?_append h hrest
  obtain ⟨c, more, rfl, hc⟩ := h.starts
  rw [List.cons_append] at hread ⊢
  simp [readAtom?, List.isPrefixOf?, (ne_of_starts hc 'n' (by decide)).symm,
    (ne_of_starts hc 't' (by decide)).symm,
    (ne_of_starts hc 'f' (by decide)).symm, hread]

theorem written_of_readAtom? {d : Document} (h : readAtom? t = some (d, rest)) :
    ∃ s, Written (.document d) s ∧ t = s ++ rest := by
  unfold readAtom? at h
  split at h
  · next hnull =>
    cases h
    exact ⟨_, .null, (List.isPrefixOf?_eq_some_iff_append_eq.1 hnull).symm⟩
  · split at h
    · next htrue =>
      cases h
      exact ⟨_, .isTrue, (List.isPrefixOf?_eq_some_iff_append_eq.1 htrue).symm⟩
    · split at h
      · next hfalse =>
        cases h
        exact ⟨_, .isFalse, (List.isPrefixOf?_eq_some_iff_append_eq.1 hfalse).symm⟩
      · simp only [Option.map_eq_some_iff, Prod.mk.injEq] at h
        obtain ⟨⟨n, _⟩, hread, rfl, rfl⟩ := h
        obtain ⟨s, hs, rfl⟩ := numberText_of_readNumber? hread
        exact ⟨s, .number hs, rfl⟩

/-! ## A text of the grammar is read -/

/-- a document starts with no blank, and is not taken for the end of a list -/
theorem Written.starts {d : Document} (h : Written (.document d) t) :
    ∃ c more, t = c :: more ∧ isSpace c = false ∧ c ≠ ']' := by
  cases h with
  | null => exact ⟨'n', _, rfl, by decide, by decide⟩
  | isTrue => exact ⟨'t', _, rfl, by decide, by decide⟩
  | isFalse => exact ⟨'f', _, rfl, by decide, by decide⟩
  | number hnumber =>
    obtain ⟨c, more, rfl, hc⟩ := hnumber.starts
    refine ⟨c, more, rfl, ?_, ne_of_starts hc ']' (by decide)⟩
    simp [isSpace, ne_of_starts hc ' ' (by decide), ne_of_starts hc '\n' (by decide),
      ne_of_starts hc '\t' (by decide), ne_of_starts hc '\r' (by decide)]
  | string => exact ⟨'"', _, rfl, by decide, by decide⟩
  | emptyArray => exact ⟨'[', _, rfl, by decide, by decide⟩
  | array => exact ⟨'[', _, rfl, by decide, by decide⟩
  | emptyObject => exact ⟨'\x7b', _, rfl, by decide, by decide⟩
  | object => exact ⟨'\x7b', _, rfl, by decide, by decide⟩

/-- the first item of an array is not taken for its end -/
theorem Written.skipSpace_items {ds : List Document} (h : Written (.items ds) t) (behind : Text) :
    ∃ c more, skipSpace (t ++ behind) = c :: more ∧ c ≠ ']' := by
  have hfirst : ∀ {d before w}, Spaces before → Written (.document d) w → ∀ behind,
      ∃ c more, skipSpace (before ++ w ++ behind) = c :: more ∧ c ≠ ']' := by
    intro d before w hbefore hw behind
    obtain ⟨c, more, rfl, hspace, hend⟩ := hw.starts
    refine ⟨c, more ++ behind, ?_, hend⟩
    rw [List.append_assoc, skipSpace_append hbefore, List.cons_append, skipSpace_cons hspace]
  cases h with
  | lastItem hbefore hw _ =>
    rw [List.append_assoc _ _ behind]
    exact hfirst hbefore hw _
  | item hbefore hw _ _ =>
    rw [List.append_assoc, List.append_assoc]
    exact hfirst hbefore hw _

/-- the first member of an object starts with the quote of its key -/
theorem Written.skipSpace_members {ms : List (List Piece × Document)} (h : Written (.members ms) t)
    (behind : Text) : ∃ more, skipSpace (t ++ behind) = '"' :: more := by
  have hfirst : ∀ {before : Text}, Spaces before → ∀ more,
      ∃ more', skipSpace (before ++ '"' :: more) = '"' :: more' := by
    intro before hbefore more
    exact ⟨more, by rw [skipSpace_append hbefore, skipSpace_cons (by decide)]⟩
  cases h with
  | lastMember hbefore =>
    simp only [List.append_assoc, List.cons_append]
    exact hfirst hbefore _
  | member hbefore =>
    simp only [List.append_assoc, List.cons_append]
    exact hfirst hbefore _

theorem readDocument?_spaces (fuel : Nat) (h : Spaces s) (t : Text) :
    readDocument? fuel (s ++ t) = readDocument? fuel t := by
  cases fuel with
  | zero => rfl
  | succ fuel => rw [readDocument?, readDocument?, skipSpace_append h]

theorem readItems?_skipSpace (fuel : Nat) (t : Text) :
    readItems? fuel (skipSpace t) = readItems? fuel t := by
  cases fuel with
  | zero => rfl
  | succ fuel =>
    obtain ⟨s, hs, ht⟩ := exists_spaces t
    have hdocument : readDocument? fuel (skipSpace t) = readDocument? fuel t := by
      rw [ht, readDocument?_spaces fuel hs, skipSpace_append hs, skipSpace_idem]
    rw [readItems?, readItems?, hdocument]

theorem readMembers?_skipSpace (fuel : Nat) (t : Text) :
    readMembers? fuel (skipSpace t) = readMembers? fuel t := by
  cases fuel with
  | zero => rfl
  | succ fuel => rw [readMembers?, readMembers?, skipSpace_idem]

theorem stops_spaces (h : Spaces s) (hrest : Stops rest) : Stops (s ++ rest) := by
  cases s with
  | nil => exact hrest
  | cons c s =>
    refine stops_cons _ ?_
    have hc : isSpace c = true := h c List.mem_cons_self
    simp only [isSpace, Bool.or_eq_true, beq_iff_eq] at hc
    rcases hc with ((rfl | rfl) | rfl) | rfl <;> decide

/-- what the reader makes of a phrase, wherever it stands: two calls a character are enough -/
def ReadAs : Phrase → Text → Prop
  | .document d, t => ∀ fuel rest, 2 * t.length ≤ fuel + 1 → Stops rest →
    readDocument? fuel (t ++ rest) = some (d, rest)
  | .items ds, t => ∀ fuel rest, 2 * t.length ≤ fuel →
    readItems? fuel (t ++ ']' :: rest) = some (ds, rest)
  | .members ms, t => ∀ fuel rest, 2 * t.length ≤ fuel →
    readMembers? fuel (t ++ '\x7d' :: rest) = some (ms, rest)

theorem readDocument?_atom {c : Char} (hspace : isSpace c = false)
    (hplain : c ≠ '"' ∧ c ≠ '[' ∧ c ≠ '\x7b') (fuel : Nat) (more : Text) :
    readDocument? (fuel + 1) (c :: more) = readAtom? (c :: more) := by
  rw [readDocument?, skipSpace_cons hspace]
  split
  · next heq => exact absurd (List.cons.inj heq).1 hplain.1
  · next heq => exact absurd (List.cons.inj heq).1 hplain.2.1
  · next heq => exact absurd (List.cons.inj heq).1 hplain.2.2
  · rfl

theorem readAs_atom {d : Document} {c : Char} {more : Text} (hspace : isSpace c = false)
    (hplain : c ≠ '"' ∧ c ≠ '[' ∧ c ≠ '\x7b')
    (hread : ∀ rest, Stops rest → readAtom? (c :: more ++ rest) = some (d, rest)) :
    ReadAs (.document d) (c :: more) := by
  intro fuel rest hfuel hrest
  obtain ⟨fuel, rfl⟩ : ∃ f, fuel = f + 1 := ⟨fuel - 1, by simp at hfuel; omega⟩
  rw [List.cons_append, readDocument?_atom hspace hplain]
  exact hread rest hrest

section Members

variable {fuel : Nat} {d : Document} {after more : Text}

theorem readItems?_last (hread : readDocument? fuel t = some (d, after ++ ']' :: rest))
    (hafter : Spaces after) : readItems? (fuel + 1) t = some ([d], rest) := by
  rw [readItems?, hread]
  simp only [bind, Option.bind_some, skipSpace_append hafter,
    skipSpace_cons (show isSpace ']' = false by decide)]

theorem readItems?_cons {ds : List Document}
    (hread : readDocument? fuel t = some (d, after ++ ',' :: more)) (hafter : Spaces after)
    (hmore : readItems? fuel more = some (ds, rest)) :
    readItems? (fuel + 1) t = some (d :: ds, rest) := by
  rw [readItems?, hread]
  simp only [bind, Option.bind_some, skipSpace_append hafter,
    skipSpace_cons (show isSpace ',' = false by decide), hmore]

variable {key : List Piece} {before k gap : Text}

theorem readMembers?_last (hbefore : Spaces before) (hk : PiecesText key k) (hgap : Spaces gap)
    (hread : readDocument? fuel t = some (d, after ++ '\x7d' :: rest)) (hafter : Spaces after) :
    readMembers? (fuel + 1) (before ++ '"' :: (k ++ '"' :: (gap ++ ':' :: t))) =
      some ([(key, d)], rest) := by
  rw [readMembers?, skipSpace_append hbefore, skipSpace_cons (by decide)]
  simp only [readPieces?_append hk, bind, Option.bind_some, skipSpace_append hgap,
    skipSpace_cons (show isSpace ':' = false by decide), hread, skipSpace_append hafter,
    skipSpace_cons (show isSpace '\x7d' = false by decide)]

theorem readMembers?_cons {ms : List (List Piece × Document)} (hbefore : Spaces before)
    (hk : PiecesText key k) (hgap : Spaces gap)
    (hread : readDocument? fuel t = some (d, after ++ ',' :: more)) (hafter : Spaces after)
    (hmore : readMembers? fuel more = some (ms, rest)) :
    readMembers? (fuel + 1) (before ++ '"' :: (k ++ '"' :: (gap ++ ':' :: t))) =
      some ((key, d) :: ms, rest) := by
  rw [readMembers?, skipSpace_append hbefore, skipSpace_cons (by decide)]
  simp only [readPieces?_append hk, bind, Option.bind_some, skipSpace_append hgap,
    skipSpace_cons (show isSpace ':' = false by decide), hread, skipSpace_append hafter,
    skipSpace_cons (show isSpace ',' = false by decide), hmore]

end Members

theorem readAs_array {ds : List Document} (h : Written (.items ds) t) (ih : ReadAs (.items ds) t) :
    ReadAs (.document (.array ds)) ('[' :: t ++ [']']) := by
  intro fuel rest hfuel _
  simp only [List.length_append, List.length_cons, List.length_nil] at hfuel
  obtain ⟨fuel, rfl⟩ : ∃ f, fuel = f + 1 := ⟨fuel - 1, by omega⟩
  have hitems := ih fuel rest (by omega)
  -- blanks are skipped to see whether the array is empty, and the items are read behind them
  obtain ⟨c, more, hfirst, hend⟩ := h.skipSpace_items (']' :: rest)
  rw [← readItems?_skipSpace, hfirst] at hitems
  rw [List.append_assoc, List.cons_append, List.singleton_append, readDocument?,
    skipSpace_cons (by decide)]
  simp only [hfirst]
  split
  · next heq => exact absurd (List.cons.inj heq).1 hend
  · rw [hitems]
    rfl

theorem readAs_object {ms : List (List Piece × Document)} (h : Written (.members ms) t)
    (ih : ReadAs (.members ms) t) :
    ReadAs (.document (.object ms)) ('\x7b' :: t ++ ['\x7d']) := by
  intro fuel rest hfuel _
  simp only [List.length_append, List.length_cons, List.length_nil] at hfuel
  obtain ⟨fuel, rfl⟩ : ∃ f, fuel = f + 1 := ⟨fuel - 1, by omega⟩
  have hmembers := ih fuel rest (by omega)
  obtain ⟨more, hfirst⟩ := h.skipSpace_members ('\x7d' :: rest)
  rw [← readMembers?_skipSpace, hfirst] at hmembers
  rw [List.append_assoc, List.cons_append, List.singleton_append, readDocument?,
    skipSpace_cons (by decide)]
  simp only [hfirst]
  split
  · next heq => exact absurd (List.cons.inj heq).1 (by decide)
  · rw [hmembers]
    rfl

/-- **A text of the grammar is read**, wherever it stands -/
theorem Written.readAs {phrase : Phrase} (h : Written phrase t) : ReadAs phrase t := by
  induction h with
  | null => exact readAs_atom (by decide) (by decide) fun _ _ => rfl
  | isTrue => exact readAs_atom (by decide) (by decide) fun _ _ => rfl
  | isFalse => exact readAs_atom (by decide) (by decide) fun _ _ => rfl
  | @number n t hnumber =>
    obtain ⟨c, more, rfl, hspace, -⟩ := (Written.number hnumber).starts
    obtain ⟨_, _, hcons, hc⟩ := hnumber.starts
    obtain ⟨rfl, rfl⟩ := List.cons.inj hcons
    exact readAs_atom hspace
      ⟨ne_of_starts hc _ (by decide), ne_of_starts hc _ (by decide), ne_of_starts hc _ (by decide)⟩
      fun rest hrest => readAtom?_number hnumber hrest
  | @string pieces t hpieces =>
    intro fuel rest hfuel _
    obtain ⟨fuel, rfl⟩ : ∃ f, fuel = f + 1 := ⟨fuel - 1, by simp at hfuel; omega⟩
    rw [List.append_assoc, List.cons_append, List.singleton_append, readDocument?,
      skipSpace_cons (by decide)]
    simp only [readPieces?_append hpieces, Option.map_some]
  | @emptyArray s hs =>
    intro fuel rest hfuel _
    obtain ⟨fuel, rfl⟩ : ∃ f, fuel = f + 1 := ⟨fuel - 1, by simp at hfuel; omega⟩
    rw [List.append_assoc, List.cons_append, List.singleton_append, readDocument?,
      skipSpace_cons (by decide)]
    simp only [skipSpace_append hs, skipSpace_cons (show isSpace ']' = false by decide)]
  | array h ih => exact readAs_array h ih
  | @emptyObject s hs =>
    intro fuel rest hfuel _
    obtain ⟨fuel, rfl⟩ : ∃ f, fuel = f + 1 := ⟨fuel - 1, by simp at hfuel; omega⟩
    rw [List.append_assoc, List.cons_append, List.singleton_append, readDocument?,
      skipSpace_cons (by decide)]
    simp only [skipSpace_append hs, skipSpace_cons (show isSpace '\x7d' = false by decide)]
  | object h ih => exact readAs_object h ih
  | @lastItem d before t after hbefore h hafter ih =>
    intro fuel rest hfuel
    -- the item has a character, which pays for the call that reads the items
    obtain ⟨c, more, hcons, -, -⟩ := h.starts
    have hpos : 0 < t.length := by simp [hcons]
    simp only [List.length_append] at hfuel
    obtain ⟨fuel, rfl⟩ : ∃ f, fuel = f + 1 := ⟨fuel - 1, by omega⟩
    refine readItems?_last ?_ hafter
    rw [List.append_assoc, List.append_assoc, readDocument?_spaces fuel hbefore]
    exact ih fuel _ (by omega) (stops_spaces hafter (stops_cons _ (by decide)))
  | @item d ds before t after rest hbefore h hafter _ ih ihs =>
    intro fuel behind hfuel
    simp only [List.length_append, List.length_cons] at hfuel
    obtain ⟨fuel, rfl⟩ : ∃ f, fuel = f + 1 := ⟨fuel - 1, by omega⟩
    refine readItems?_cons ?_ hafter (ihs fuel behind (by omega))
    simp only [List.append_assoc, List.cons_append]
    rw [readDocument?_spaces fuel hbefore]
    exact ih fuel _ (by omega) (stops_spaces hafter (stops_cons _ (by decide)))
  | @lastMember key d before k gap before' t after hbefore hk hgap hbefore' h hafter ih =>
    intro fuel rest hfuel
    simp only [List.length_append, List.length_cons] at hfuel
    obtain ⟨fuel, rfl⟩ : ∃ f, fuel = f + 1 := ⟨fuel - 1, by omega⟩
    simp only [List.append_assoc, List.cons_append]
    refine readMembers?_last hbefore hk hgap ?_ hafter
    rw [readDocument?_spaces fuel hbefore']
    exact ih fuel _ (by omega) (stops_spaces hafter (stops_cons _ (by decide)))
  | @member key d ms before k gap before' t after rest hbefore hk hgap hbefore' h hafter _ ih ihs =>
    intro fuel behind hfuel
    simp only [List.length_append, List.length_cons] at hfuel
    obtain ⟨fuel, rfl⟩ : ∃ f, fuel = f + 1 := ⟨fuel - 1, by omega⟩
    simp only [List.append_assoc, List.cons_append]
    refine readMembers?_cons hbefore hk hgap ?_ hafter (ihs fuel behind (by omega))
    rw [readDocument?_spaces fuel hbefore']
    exact ih fuel _ (by omega) (stops_spaces hafter (stops_cons _ (by decide)))

/-! ## What is read is a text of the grammar -/

theorem Written.spaces_items {ds : List Document} (hs : Spaces s) (h : Written (.items ds) t) :
    Written (.items ds) (s ++ t) := by
  cases h with
  | lastItem hbefore h hafter =>
    simpa only [List.append_assoc] using Written.lastItem (hs.append hbefore) h hafter
  | item hbefore h hafter hmore =>
    simpa only [List.append_assoc] using Written.item (hs.append hbefore) h hafter hmore

theorem Written.spaces_members {ms : List (List Piece × Document)} (hs : Spaces s)
    (h : Written (.members ms) t) : Written (.members ms) (s ++ t) := by
  cases h with
  | lastMember hbefore hk hgap hbefore' h hafter =>
    simpa only [List.append_assoc] using
      Written.lastMember (hs.append hbefore) hk hgap hbefore' h hafter
  | member hbefore hk hgap hbefore' h hafter hmore =>
    simpa only [List.append_assoc] using
      Written.member (hs.append hbefore) hk hgap hbefore' h hafter hmore

/-- what is read with this much fuel is written in the text -/
structure Sound (fuel : Nat) : Prop where
  document : ∀ {t d rest}, readDocument? fuel t = some (d, rest) →
    ∃ before s, Spaces before ∧ Written (.document d) s ∧ t = before ++ s ++ rest
  items : ∀ {t ds rest}, readItems? fuel t = some (ds, rest) →
    ∃ s, Written (.items ds) s ∧ t = s ++ ']' :: rest
  members : ∀ {t ms rest}, readMembers? fuel t = some (ms, rest) →
    ∃ s, Written (.members ms) s ∧ t = s ++ '\x7d' :: rest

theorem Sound.document_succ {fuel : Nat} (ih : Sound fuel) {d : Document}
    (h : readDocument? (fuel + 1) t = some (d, rest)) :
    ∃ before s, Spaces before ∧ Written (.document d) s ∧ t = before ++ s ++ rest := by
  -- what is in front of the document is skipped, whatever comes
  obtain ⟨before, hbefore, ht⟩ := exists_spaces t
  suffices hrest : ∃ s, Written (.document d) s ∧ skipSpace t = s ++ rest by
    obtain ⟨s, hs, hskip⟩ := hrest
    exact ⟨before, s, hbefore, hs, by rw [List.append_assoc, ← hskip]; exact ht⟩
  rw [readDocument?] at h
  split at h
  · next behind hskip =>
    simp only [Option.map_eq_some_iff, Prod.mk.injEq] at h
    obtain ⟨⟨pieces, _⟩, hread, rfl, rfl⟩ := h
    obtain ⟨s, hs, rfl⟩ := piecesText_of_readPieces? hread
    exact ⟨_, .string hs, by simp [hskip]⟩
  · next behind hskip =>
    obtain ⟨gap, hgap, hbehind⟩ := exists_spaces behind
    split at h
    · next hclose =>
      cases h
      rw [hclose] at hbehind
      exact ⟨_, .emptyArray hgap, by simp [hskip, hbehind]⟩
    · simp only [Option.map_eq_some_iff, Prod.mk.injEq] at h
      obtain ⟨⟨ds, _⟩, hread, rfl, rfl⟩ := h
      obtain ⟨s, hs, hitems⟩ := ih.items hread
      rw [hitems] at hbehind
      exact ⟨_, .array (hs.spaces_items hgap), by simp [hskip, hbehind]⟩
  · next behind hskip =>
    obtain ⟨gap, hgap, hbehind⟩ := exists_spaces behind
    split at h
    · next hclose =>
      cases h
      rw [hclose] at hbehind
      exact ⟨_, .emptyObject hgap, by simp [hskip, hbehind]⟩
    · simp only [Option.map_eq_some_iff, Prod.mk.injEq] at h
      obtain ⟨⟨ms, _⟩, hread, rfl, rfl⟩ := h
      obtain ⟨s, hs, hmembers⟩ := ih.members hread
      rw [hmembers] at hbehind
      exact ⟨_, .object (hs.spaces_members hgap), by simp [hskip, hbehind]⟩
  · exact written_of_readAtom? h

theorem Sound.items_succ {fuel : Nat} (ih : Sound fuel) {ds : List Document}
    (h : readItems? (fuel + 1) t = some (ds, rest)) :
    ∃ s, Written (.items ds) s ∧ t = s ++ ']' :: rest := by
  simp only [readItems?, bind, Option.bind_eq_some_iff] at h
  obtain ⟨⟨d, behind⟩, hread, h⟩ := h
  obtain ⟨before, s, hbefore, hs, rfl⟩ := ih.document hread
  obtain ⟨after, hafter, hbehind⟩ := exists_spaces behind
  dsimp only at h
  split at h
  · next hclose =>
    cases h
    rw [hclose] at hbehind
    exact ⟨_, .lastItem hbefore hs hafter, by simp [hbehind]⟩
  · next hcomma =>
    simp only [Option.bind_eq_some_iff, Option.some.injEq, Prod.mk.injEq] at h
    obtain ⟨⟨ds, _⟩, hmore, rfl, rfl⟩ := h
    obtain ⟨more, hds, rfl⟩ := ih.items hmore
    rw [hcomma] at hbehind
    exact ⟨_, .item hbefore hs hafter hds, by simp [hbehind]⟩
  · cases h

theorem Sound.members_succ {fuel : Nat} (ih : Sound fuel) {ms : List (List Piece × Document)}
    (h : readMembers? (fuel + 1) t = some (ms, rest)) :
    ∃ s, Written (.members ms) s ∧ t = s ++ '\x7d' :: rest := by
  obtain ⟨before, hbefore, ht⟩ := exists_spaces t
  rw [readMembers?] at h
  split at h
  · next hquote =>
    simp only [bind, Option.bind_eq_some_iff] at h
    obtain ⟨⟨key, afterKey⟩, hkey, h⟩ := h
    obtain ⟨k, hk, rfl⟩ := piecesText_of_readPieces? hkey
    obtain ⟨gap, hgap, hafterKey⟩ := exists_spaces afterKey
    dsimp only at h
    split at h
    · next hcolon =>
      simp only [Option.bind_eq_some_iff] at h
      obtain ⟨⟨d, behind⟩, hread, h⟩ := h
      obtain ⟨before', s, hbefore', hs, rfl⟩ := ih.document hread
      obtain ⟨after, hafter, hbehind⟩ := exists_spaces behind
      rw [hcolon] at hafterKey
      rw [hquote] at ht
      dsimp only at h
      split at h
      · next hclose =>
        cases h
        rw [hclose] at hbehind
        exact ⟨_, .lastMember hbefore hk hgap hbefore' hs hafter,
          by simp [ht, hafterKey, hbehind]⟩
      · next hcomma =>
        simp only [Option.bind_eq_some_iff, Option.some.injEq, Prod.mk.injEq] at h
        obtain ⟨⟨ms, _⟩, hmore, rfl, rfl⟩ := h
        obtain ⟨more, hms, rfl⟩ := ih.members hmore
        rw [hcomma] at hbehind
        exact ⟨_, .member hbefore hk hgap hbefore' hs hafter hms,
          by simp [ht, hafterKey, hbehind]⟩
      · cases h
    · cases h
  · cases h

theorem sound (fuel : Nat) : Sound fuel := by
  induction fuel with
  | zero => exact ⟨by simp [readDocument?], by simp [readItems?], by simp [readMembers?]⟩
  | succ fuel ih => exact ⟨ih.document_succ, ih.items_succ, ih.members_succ⟩

/-! ## Whole texts -/

theorem Document.parse?_eq_some_iff {d : Document} : Document.parse? t = some d ↔
    ∃ before s after, Spaces before ∧ Spaces after ∧ t = before ++ s ++ after ∧
      Written (.document d) s := by
  simp only [Document.parse?, bind, Option.bind_eq_some_iff, Option.ite_none_right_eq_some,
    List.isEmpty_iff, skipSpace_eq_nil_iff, Option.some.injEq, Prod.exists]
  constructor
  · rintro ⟨document, after, hread, hafter, rfl⟩
    obtain ⟨before, s, hbefore, hs, ht⟩ := (sound _).document hread
    exact ⟨before, s, after, hbefore, hafter, ht, hs⟩
  · rintro ⟨before, s, after, hbefore, hafter, rfl, hs⟩
    refine ⟨d, after, ?_, hafter, rfl⟩
    have hstops : Stops after := by simpa using stops_spaces hafter stops_nil
    have hread := hs.readAs (2 * (before ++ s ++ after).length + 2) after (by simp; omega) hstops
    rw [List.append_assoc, readDocument?_spaces _ hbefore]
    simpa only [List.append_assoc] using hread

/-- **What is read as a value, and as which** -/
theorem parse?_eq_some_iff {v : Json} : parse? t = some v ↔ Says t v := by
  simp only [parse?, Option.bind_eq_some_iff, Document.parse?_eq_some_iff, Says]
  constructor
  · rintro ⟨d, ⟨before, s, after, hbefore, hafter, ht, hs⟩, hvalue⟩
    exact ⟨before, s, after, d, hbefore, hafter, ht, hs, hvalue⟩
  · rintro ⟨before, s, after, d, hbefore, hafter, ht, hs, hvalue⟩
    exact ⟨d, ⟨before, s, after, hbefore, hafter, ht, hs⟩, hvalue⟩

end CodeCache.Json
