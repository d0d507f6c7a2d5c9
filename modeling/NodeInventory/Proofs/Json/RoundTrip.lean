import NodeInventory.Json.Writing
import NodeInventory.Proofs.Json.Grammar

/-!
# Reading what was written

The text that is written of a value is one of its spellings (`spelledBy_write`), whatever the value
is: also one in which a string literal denotes no text, because such a literal is written as one,
and one that is nested deeply. So every value is read from its own text (`parse_render`).
-/

namespace NodeInventory.Json

/-! ## Strings -/

theorem hexValue?_hexDigit : ∀ n < 16, hexValue? (hexDigit n) = some n := by decide

theorem assemble_unit {n : Nat} (hn : n < 0x20) (ps : List Piece) :
    assemble (.unit n :: ps) = (assemble ps).map (Char.ofNat n :: ·) := by
  have hh : isHighSurrogate n = false := by simp [isHighSurrogate]; omega
  have hl : isLowSurrogate n = false := by simp [isLowSurrogate]; omega
  cases ps with
  | nil => simp [assemble, hh, hl]
  | cons p ps =>
    cases p with
    | char c => simp [assemble, hh, hl]
    | unit m => simp [assemble, hh, hl]

theorem exists_spelledBy_escapeChar (c : Char) :
    ∃ p : Piece, p.SpelledBy (escapeChar c) ∧
      ∀ ps, assemble (p :: ps) = (assemble ps).map (c :: ·) := by
  unfold escapeChar
  split
  · exact ⟨_, .letter (e := '"') rfl, fun _ ↦ rfl⟩
  · exact ⟨_, .letter (e := '\\') rfl, fun _ ↦ rfl⟩
  · exact ⟨_, .letter (e := 'b') rfl, fun _ ↦ rfl⟩
  · exact ⟨_, .letter (e := 't') rfl, fun _ ↦ rfl⟩
  · exact ⟨_, .letter (e := 'n') rfl, fun _ ↦ rfl⟩
  · exact ⟨_, .letter (e := 'f') rfl, fun _ ↦ rfl⟩
  · exact ⟨_, .letter (e := 'r') rfl, fun _ ↦ rfl⟩
  · split
    · next hlt =>
      -- a control character is written with four hexadecimal digits, two of them zeros
      have hhigh := hexValue?_hexDigit (c.toNat / 16) (by omega)
      have hlow := hexValue?_hexDigit (c.toNat % 16) (by omega)
      have hzero : hexValue? '0' = some 0 := rfl
      have hunit : ((0 * 16 + 0) * 16 + c.toNat / 16) * 16 + c.toNat % 16 = c.toNat := by omega
      refine ⟨_, .unit hzero hzero hhigh hlow, fun ps ↦ ?_⟩
      rw [hunit, assemble_unit hlt, Char.ofNat_toNat]
    · exact ⟨_, .plain ‹_› ‹_› ‹_›, fun _ ↦ rfl⟩

theorem exists_spelledBy_flatMap_escapeChar (text : List Char) :
    ∃ ps, PiecesSpelledBy ps (text.flatMap escapeChar) ∧ assemble ps = some text := by
  induction text with
  | nil => exact ⟨[], .nil, rfl⟩
  | cons c text ih =>
    obtain ⟨ps, hps, htext⟩ := ih
    obtain ⟨p, hp, hpc⟩ := exists_spelledBy_escapeChar c
    exact ⟨p :: ps, .cons hp hps, by rw [hpc, htext]; rfl⟩

theorem spelledBy_writeString (s : Option String) : StringSpelledBy s (writeString s) := by
  cases s with
  | none =>
    have hpiece : Piece.SpelledBy (.unit 0xD800) ['\\', 'u', 'd', '8', '0', '0'] :=
      .unit (i := 13) (j := 8) (k := 0) (l := 0) rfl rfl rfl rfl
    exact .quoted (.cons hpiece .nil)
  | some s =>
    obtain ⟨ps, hps, htext⟩ := exists_spelledBy_flatMap_escapeChar s.toList
    have h := StringSpelledBy.quoted hps
    rw [htext, Option.map_some, String.ofList_toList] at h
    exact h

/-! ## Numbers -/

theorem isDigit_of_mem_toDigits {n : Nat} {c : Char} (h : c ∈ Nat.toDigits 10 n) : isDigit c := by
  have hc : c.isDigit := Nat.isDigit_of_mem_toDigits (by decide) (by decide) h
  simpa [isDigit, Char.isDigit, Char.le_def] using hc

theorem ofDigits_toDigits (n : Nat) : ofDigits (Nat.toDigits 10 n) = n := by
  have h := Nat.ofDigitChars_ten_toDigits (n := n)
  simpa [Nat.ofDigitChars, ofDigits, Nat.mul_comm] using h

theorem head?_toDigits_ne {n : Nat} (hn : 0 < n) : (Nat.toDigits 10 n).head? ≠ some '0' := by
  induction n using Nat.strongRecOn with
  | _ n ih =>
    rcases Nat.lt_or_ge n 10 with hlt | hge
    · rw [Nat.toDigits_of_lt_base hlt]
      intro h
      have hval := Nat.toNat_digitChar_sub_48_of_lt_ten hlt
      rw [Option.some.inj h] at hval
      exact absurd hval.symm (by simpa using Nat.ne_of_gt hn)
    · obtain ⟨d, ds, hds⟩ := List.exists_cons_of_ne_nil (Nat.toDigits_ne_nil (n := n / 10) (b := 10))
      have hd := ih (n / 10) (by omega) (by omega)
      rw [hds] at hd
      rw [Nat.toDigits_of_base_le (by decide) hge, hds]
      exact hd

theorem digits_toDigits (n : Nat) : Digits (Nat.toDigits 10 n) :=
  ⟨Nat.toDigits_ne_nil, fun _ ↦ isDigit_of_mem_toDigits⟩

theorem wholeDigits_toDigits (n : Nat) : WholeDigits (Nat.toDigits 10 n) := by
  refine ⟨digits_toDigits n, fun h ↦ ?_⟩
  rcases Nat.eq_zero_or_pos n with rfl | hn
  · rfl
  · exact absurd h (head?_toDigits_ne hn)

theorem spelledBy_exponent (e : Int) : ExponentSpelledBy (some e) ('e' :: (toString e).toList) := by
  cases e with
  | ofNat n =>
    have htext : (toString (Int.ofNat n)).toList = Nat.toDigits 10 n := by
      simp [Int.toString_eq_repr, Int.repr]
    have h := ExponentSpelledBy.unsigned (.inl rfl : 'e' = 'e' ∨ 'e' = 'E') (digits_toDigits n)
    rw [ofDigits_toDigits] at h
    rw [htext]
    exact h
  | negSucc n =>
    have htext : (toString (Int.negSucc n)).toList = '-' :: Nat.toDigits 10 (n + 1) := by
      simp [Int.toString_eq_repr, Int.repr]
    have h := ExponentSpelledBy.minus (.inl rfl : 'e' = 'e' ∨ 'e' = 'E') (digits_toDigits (n + 1))
    rw [ofDigits_toDigits] at h
    rw [htext]
    exact h

theorem spelledBy_writeNumber (n : Number) : n.SpelledBy (writeNumber n) := by
  cases n with
  | integer negative n =>
    have h : (Number.ofParts negative _ none none).SpelledBy _ :=
      .parts (wholeDigits_toDigits n) .absent .absent
    simpa [Number.ofParts, ofDigits_toDigits, writeNumber] using h
  | decimal negative n e =>
    have h : (Number.ofParts negative _ none (some e)).SpelledBy _ :=
      .parts (wholeDigits_toDigits n) .absent (spelledBy_exponent e)
    simpa [Number.ofParts, ofDigits_toDigits, writeNumber] using h

/-! ## Values -/

mutual

/-- A value is written as one of its spellings. -/
theorem spelledBy_write : ∀ v : Json, v.SpelledBy v.write
  | .null => .null
  | .bool true => .yes
  | .bool false => .no
  | .number n => .number (spelledBy_writeNumber n)
  | .string s => .string (spelledBy_writeString s)
  | .array [] => .emptyArray blanks_nil
  | .array (v :: vs) => by
    obtain ⟨ds, hds, hvs⟩ := exists_spelledBy_writeItems vs (spelledBy_write v)
    rw [write, List.cons_append, hds]
    exact .array hvs
  | .object [] => .emptyObject blanks_nil
  | .object ((k, v) :: ms) => by
    obtain ⟨ds, hds, hms⟩ := exists_spelledBy_writeMembers ms k (spelledBy_write v)
    rw [write, List.cons_append, List.cons_append, hds]
    exact .object hms

theorem exists_spelledBy_writeItems : ∀ (vs : List Json) {v : Json} {cs : List Char},
    v.SpelledBy cs → ∃ ds, cs ++ writeItems vs = ds ++ [']'] ∧ ItemsSpelledBy (v :: vs) ds
  | [], v, cs, h => by
    refine ⟨cs, by rw [writeItems], ?_⟩
    simpa using ItemsSpelledBy.last blanks_nil h blanks_nil
  | w :: vs, v, cs, h => by
    obtain ⟨ds, hds, hvs⟩ := exists_spelledBy_writeItems vs (spelledBy_write w)
    refine ⟨cs ++ ',' :: ds, by rw [writeItems, List.cons_append, hds]; simp, ?_⟩
    exact .cons blanks_nil h blanks_nil hvs

/-- A member and those after it are written as a spelling of all of them, and the closing brace. -/
theorem exists_spelledBy_writeMembers : ∀ (ms : List (Option String × Json)) (k : Option String)
    {v : Json} {cs : List Char}, v.SpelledBy cs →
      ∃ ds, writeString k ++ ':' :: cs ++ writeMembers ms = ds ++ ['\x7d'] ∧
        MembersSpelledBy ((k, v) :: ms) ds
  | [], k, v, cs, h => by
    refine ⟨writeString k ++ ':' :: cs, by rw [writeMembers], ?_⟩
    simpa using MembersSpelledBy.last blanks_nil (spelledBy_writeString k) blanks_nil blanks_nil h
      blanks_nil
  | (k', v') :: ms, k, v, cs, h => by
    obtain ⟨ds, hds, hms⟩ := exists_spelledBy_writeMembers ms k' (spelledBy_write v')
    refine ⟨writeString k ++ ':' :: (cs ++ ',' :: ds), ?_, ?_⟩
    · rw [writeMembers, List.cons_append, List.cons_append, hds]
      simp
    · exact .cons blanks_nil (spelledBy_writeString k) blanks_nil blanks_nil h blanks_nil hms

end

theorem isTextOf_render (v : Json) : IsTextOf v.render v :=
  ⟨[], v.write, [], by simp [render], blanks_nil, spelledBy_write v, blanks_nil⟩

/-- Every value is read from its text. -/
theorem parse_render (v : Json) : parse v.render = some v :=
  parse_eq_some_iff.mpr (isTextOf_render v)

end NodeInventory.Json
