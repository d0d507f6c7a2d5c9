import NodeInventory.Json.Reading
import NodeInventory.Proofs.Text

/-!
# The texts that are JSON

Which characters are a text of a value is said here without reading them (`SpelledBy`), sort by sort
of values: a string is spelled by a text if its pieces are, one after another between quotes; a
number by a sign, digits, and what may follow them; an array and an object by texts of their parts,
with commas between them and with blanks wherever two parts meet.

The reader takes these texts and no others, and it takes each for the value that it spells
(`parse_eq_some_iff`). What it has read is a spelling, because every step of it reads a part of one;
and a spelling is read, because the reader has no choice: a value is known by its first character,
a string ends at the first quote that is not escaped, and a number ends where nothing of a number
follows (`Stops`). Hence no text spells two values (`SpelledBy.unique`).
-/

namespace NodeInventory.Json

variable {cs rest : List Char}

/-! ## The grammar -/

/-- Characters that stand for nothing: spaces, tabs and line breaks. -/
def Blanks (cs : List Char) : Prop := ∀ c ∈ cs, c ∈ [' ', '\t', '\n', '\r']

/-- A piece of a string is a character that needs no escape, an escape of one letter, or four
digits in base sixteen. -/
inductive Piece.SpelledBy : Piece → List Char → Prop
  | plain {c : Char} (hquote : c ≠ '"') (hslash : c ≠ '\\') (hcontrol : ¬ c.toNat < 0x20) :
    SpelledBy (.char c) [c]
  | letter {e c : Char} (h : unescape? e = some c) : SpelledBy (.char c) ['\\', e]
  | unit {a b c d : Char} {i j k l : Nat} (ha : hexValue? a = some i) (hb : hexValue? b = some j)
      (hc : hexValue? c = some k) (hd : hexValue? d = some l) :
    SpelledBy (.unit (((i * 16 + j) * 16 + k) * 16 + l)) ['\\', 'u', a, b, c, d]

/-- Pieces one after another. -/
inductive PiecesSpelledBy : List Piece → List Char → Prop
  | nil : PiecesSpelledBy [] []
  | cons {p : Piece} {ps : List Piece} {cs ds : List Char} (hp : p.SpelledBy cs)
      (hps : PiecesSpelledBy ps ds) : PiecesSpelledBy (p :: ps) (cs ++ ds)

/-- A string literal, with the text that its pieces denote if they denote one. -/
inductive StringSpelledBy : Option String → List Char → Prop
  | quoted {ps : List Piece} {cs : List Char} (h : PiecesSpelledBy ps cs) :
    StringSpelledBy ((assemble ps).map String.ofList) ('"' :: cs ++ ['"'])

/-- At least one digit. -/
def Digits (ds : List Char) : Prop := ds ≠ [] ∧ ∀ d ∈ ds, isDigit d

/-- Digits of which the first is a zero just if it stands alone. -/
def WholeDigits (ds : List Char) : Prop := Digits ds ∧ (ds.head? = some '0' → ds = ['0'])

/-- The part of a number after the point, if there is one. -/
inductive FractionSpelledBy : Option (List Char) → List Char → Prop
  | absent : FractionSpelledBy none []
  | present {ds : List Char} (h : Digits ds) : FractionSpelledBy (some ds) ('.' :: ds)

/-- The part of a number that names a power of ten, if there is one. -/
inductive ExponentSpelledBy : Option Int → List Char → Prop
  | absent : ExponentSpelledBy none []
  | unsigned {e : Char} {ds : List Char} (he : e = 'e' ∨ e = 'E') (h : Digits ds) :
    ExponentSpelledBy (some (ofDigits ds)) (e :: ds)
  | plus {e : Char} {ds : List Char} (he : e = 'e' ∨ e = 'E') (h : Digits ds) :
    ExponentSpelledBy (some (ofDigits ds)) (e :: '+' :: ds)
  | minus {e : Char} {ds : List Char} (he : e = 'e' ∨ e = 'E') (h : Digits ds) :
    ExponentSpelledBy (some (-(ofDigits ds : Int))) (e :: '-' :: ds)

/-- The number with the given digits before and after the point, and exponent. -/
def Number.ofParts (negative : Bool) (whole : List Char) (fraction : Option (List Char))
    (exponent : Option Int) : Number :=
  match fraction, exponent with
  | none, none => .integer negative (ofDigits whole)
  | fraction, exponent =>
    .decimal negative (ofDigits (whole ++ fraction.getD []))
      (exponent.getD 0 - (fraction.getD []).length)

/-- A number is its sign, digits, and maybe a fraction and an exponent. -/
inductive Number.SpelledBy : Number → List Char → Prop
  | parts {negative : Bool} {whole : List Char} {fraction : Option (List Char)}
      {exponent : Option Int} {fs es : List Char} (hwhole : WholeDigits whole)
      (hfraction : FractionSpelledBy fraction fs) (hexponent : ExponentSpelledBy exponent es) :
    SpelledBy (.ofParts negative whole fraction exponent)
      ((if negative then ['-'] else []) ++ (whole ++ (fs ++ es)))

mutual

/-- The characters are a text of the value, without blanks around it. -/
inductive SpelledBy : Json → List Char → Prop
  | null : SpelledBy .null ['n', 'u', 'l', 'l']
  | yes : SpelledBy (.bool true) ['t', 'r', 'u', 'e']
  | no : SpelledBy (.bool false) ['f', 'a', 'l', 's', 'e']
  | number {n : Number} {cs : List Char} (h : n.SpelledBy cs) : SpelledBy (.number n) cs
  | string {s : Option String} {cs : List Char} (h : StringSpelledBy s cs) :
    SpelledBy (.string s) cs
  | emptyArray {b : List Char} (hb : Blanks b) : SpelledBy (.array []) ('[' :: b ++ [']'])
  | array {vs : List Json} {cs : List Char} (h : ItemsSpelledBy vs cs) :
    SpelledBy (.array vs) ('[' :: cs ++ [']'])
  | emptyObject {b : List Char} (hb : Blanks b) :
    SpelledBy (.object []) ('\x7b' :: b ++ ['\x7d'])
  | object {ms : List (Option String × Json)} {cs : List Char} (h : MembersSpelledBy ms cs) :
    SpelledBy (.object ms) ('\x7b' :: cs ++ ['\x7d'])

/-- Items, of which there is at least one, with blanks around them and commas between them. -/
inductive ItemsSpelledBy : List Json → List Char → Prop
  | last {v : Json} {b cs b' : List Char} (hb : Blanks b) (hv : SpelledBy v cs)
      (hb' : Blanks b') : ItemsSpelledBy [v] (b ++ (cs ++ b'))
  | cons {v : Json} {vs : List Json} {b cs b' ds : List Char} (hb : Blanks b)
      (hv : SpelledBy v cs) (hb' : Blanks b') (hvs : ItemsSpelledBy vs ds) :
    ItemsSpelledBy (v :: vs) (b ++ (cs ++ (b' ++ ',' :: ds)))

/-- Members, of which there is at least one: keys and values with blanks around them, colons between
key and value, and commas between members. -/
inductive MembersSpelledBy : List (Option String × Json) → List Char → Prop
  | last {k : Option String} {v : Json} {a ks a' b cs b' : List Char} (ha : Blanks a)
      (hk : StringSpelledBy k ks) (ha' : Blanks a') (hb : Blanks b) (hv : SpelledBy v cs)
      (hb' : Blanks b') :
    MembersSpelledBy [(k, v)] (a ++ (ks ++ (a' ++ ':' :: (b ++ (cs ++ b')))))
  | cons {k : Option String} {v : Json} {ms : List (Option String × Json)}
      {a ks a' b cs b' ds : List Char} (ha : Blanks a) (hk : StringSpelledBy k ks)
      (ha' : Blanks a') (hb : Blanks b) (hv : SpelledBy v cs) (hb' : Blanks b')
      (hms : MembersSpelledBy ms ds) :
    MembersSpelledBy ((k, v) :: ms)
      (a ++ (ks ++ (a' ++ ':' :: (b ++ (cs ++ (b' ++ ',' :: ds))))))

end

/-- The text is JSON, and this is its value. -/
def IsTextOf (s : String) (v : Json) : Prop :=
  ∃ b cs b', s.toList = b ++ (cs ++ b') ∧ Blanks b ∧ v.SpelledBy cs ∧ Blanks b'

/-! ## Blanks -/

theorem blanks_nil : Blanks [] := fun _ hc ↦ absurd hc List.not_mem_nil

theorem Blanks.append {b b' : List Char} (hb : Blanks b) (hb' : Blanks b') : Blanks (b ++ b') :=
  List.forall_mem_append.mpr ⟨hb, hb'⟩

theorem skipBlanks_append {b : List Char} (hb : Blanks b) (cs : List Char) :
    skipBlanks (b ++ cs) = skipBlanks cs := by
  induction b with
  | nil => rfl
  | cons c b ih =>
    obtain ⟨hc, hb⟩ := List.forall_mem_cons.mp hb
    rw [List.cons_append, skipBlanks, if_pos (by simpa [or_assoc] using hc), ih hb]

theorem exists_blanks (cs : List Char) : ∃ b, Blanks b ∧ cs = b ++ skipBlanks cs := by
  induction cs with
  | nil => exact ⟨[], blanks_nil, rfl⟩
  | cons c cs ih =>
    rw [skipBlanks]
    split
    · next hc =>
      obtain ⟨b, hb, hcs⟩ := ih
      refine ⟨c :: b, List.forall_mem_cons.mpr ⟨by simpa [or_assoc] using hc, hb⟩, ?_⟩
      rw [List.cons_append, ← hcs]
    · exact ⟨[], blanks_nil, rfl⟩

theorem exists_blanks_append {ds : List Char} (h : skipBlanks cs = ds) :
    ∃ b, Blanks b ∧ cs = b ++ ds :=
  h ▸ exists_blanks cs

theorem blanks_of_skipBlanks (h : skipBlanks cs = []) : Blanks cs := by
  obtain ⟨b, hb, hcs⟩ := exists_blanks_append h
  rw [hcs, List.append_nil]
  exact hb

theorem skipBlanks_of_blanks (h : Blanks cs) : skipBlanks cs = [] := by
  rw [← List.append_nil cs, skipBlanks_append h]
  rfl

/-! ## Strings -/

theorem spelledBy_of_readPieces {ps : List Piece} (h : readPieces cs = some (ps, rest)) :
    ∃ ds, PiecesSpelledBy ps ds ∧ cs = ds ++ '"' :: rest := by
  fun_induction readPieces cs generalizing ps with
  | case1 => cases h
  | case2 =>
    cases h
    exact ⟨[], .nil, rfl⟩
  | case3 a b c d cs ih =>
    simp only [Option.bind_eq_bind, Option.bind_eq_some_iff, Option.some.injEq] at h
    obtain ⟨i, ha, j, hb, k, hc, l, hd, ⟨ps', rest'⟩, hread, heq⟩ := h
    cases heq
    obtain ⟨ds, hds, rfl⟩ := ih hread
    exact ⟨_, .cons (.unit ha hb hc hd) hds, rfl⟩
  | case4 e cs hunit ih =>
    simp only [Option.bind_eq_bind, Option.bind_eq_some_iff, Option.some.injEq] at h
    obtain ⟨c, he, ⟨ps', rest'⟩, hread, heq⟩ := h
    cases heq
    obtain ⟨ds, hds, rfl⟩ := ih hread
    exact ⟨_, .cons (.letter he) hds, rfl⟩
  | case5 => cases h
  | case6 c cs hquote hunit hslash hplain ih =>
    simp only [Option.bind_eq_bind, Option.bind_eq_some_iff, Option.some.injEq] at h
    obtain ⟨⟨ps', rest'⟩, hread, heq⟩ := h
    cases heq
    obtain ⟨ds, hds, rfl⟩ := ih hread
    simp only [Bool.or_eq_true, decide_eq_true_eq, beq_iff_eq, not_or] at hplain
    exact ⟨_, .cons (.plain hquote hplain.2 hplain.1) hds, rfl⟩

theorem readPieces_of_spelledBy {ps : List Piece} (h : PiecesSpelledBy ps cs) (rest : List Char) :
    readPieces (cs ++ '"' :: rest) = some (ps, rest) := by
  induction h with
  | nil => rfl
  | @cons p ps cs ds hp _ ih =>
    rw [List.append_assoc]
    cases hp with
    | plain hquote hslash hcontrol =>
      rw [List.singleton_append, readPieces.eq_def]
      split
      · simp_all
      · simp_all
      · simp_all
      · simp_all
      · next heq =>
        cases heq
        simp [hcontrol, hslash, ih]
    | @letter e c he =>
      have hu : e ≠ 'u' := by
        rintro rfl
        cases he
      rw [List.cons_append, List.singleton_append, readPieces.eq_def]
      split
      · simp_all
      · simp_all
      · simp_all
      · next heq =>
        cases heq
        simp [he, ih]
      · next hescape heq =>
        cases heq
        exact absurd rfl (hescape e _ rfl)
    | unit ha hb hc hd => simp [readPieces, ha, hb, hc, hd, ih]

theorem spelledBy_of_readString {s : Option String} (h : readString cs = some (s, rest)) :
    ∃ ds, StringSpelledBy s ds ∧ '"' :: cs = ds ++ rest := by
  simp only [readString, Option.bind_eq_bind, Option.bind_eq_some_iff, Option.some.injEq] at h
  obtain ⟨⟨ps, rest'⟩, hread, heq⟩ := h
  cases heq
  obtain ⟨ds, hds, rfl⟩ := spelledBy_of_readPieces hread
  exact ⟨_, .quoted hds, by simp⟩

theorem exists_readString {s : Option String} (h : StringSpelledBy s cs) (rest : List Char) :
    ∃ ds, cs ++ rest = '"' :: ds ∧ readString ds = some (s, rest) := by
  cases h with
  | @quoted ps cs h =>
    refine ⟨cs ++ '"' :: rest, by simp, ?_⟩
    rw [readString, readPieces_of_spelledBy h]
    rfl

/-! ## Numbers -/

/-- What may follow a value: nothing, or a character that ends it. -/
def Stops (rest : List Char) : Prop :=
  ∀ c ∈ rest.head?, c ∈ [',', ']', '\x7d', ' ', '\t', '\n', '\r']

theorem digits_of_readDigits {ds : List Char} (h : readDigits cs = some (ds, rest)) :
    Digits ds ∧ cs = ds ++ rest := by
  rw [readDigits] at h
  split at h
  · cases h
  · next hne =>
    cases h
    rw [List.isEmpty_iff] at hne
    exact ⟨⟨hne, fun d hd ↦ List.mem_takeWhile_imp hd⟩, (List.takeWhile_append_dropWhile).symm⟩

theorem readDigits_append {ds : List Char} (hds : Digits ds)
    (hrest : ∀ c ∈ rest.head?, ¬ isDigit c) : readDigits (ds ++ rest) = some (ds, rest) := by
  rw [readDigits, Text.takeWhile_append_of_stop hds.2 hrest,
    Text.dropWhile_append_of_stop hds.2 hrest, if_neg (by simpa using hds.1)]

theorem wholeDigits_of_readWhole {ds : List Char} (h : readWhole cs = some (ds, rest)) :
    WholeDigits ds ∧ cs = ds ++ rest := by
  rw [readWhole.eq_def] at h
  split at h
  · cases h
    exact ⟨⟨⟨List.cons_ne_nil _ _, List.forall_mem_singleton.mpr rfl⟩, fun _ ↦ rfl⟩, rfl⟩
  · next hzero =>
    obtain ⟨hds, rfl⟩ := digits_of_readDigits h
    refine ⟨⟨hds, fun hhead ↦ ?_⟩, rfl⟩
    cases ds with
    | nil => cases hhead
    | cons d ds =>
      cases hhead
      exact absurd rfl (hzero _)

theorem readWhole_append {ds : List Char} (hds : WholeDigits ds)
    (hrest : ∀ c ∈ rest.head?, ¬ isDigit c) : readWhole (ds ++ rest) = some (ds, rest) := by
  obtain ⟨hdigits, hzero⟩ := hds
  cases ds with
  | nil => exact absurd rfl hdigits.1
  | cons d ds =>
    by_cases hd : d = '0'
    · subst hd
      rw [hzero rfl]
      rfl
    · rw [readWhole.eq_def]
      split
      · next heq => exact absurd (List.cons.inj heq).1 hd
      · exact readDigits_append hdigits hrest

theorem exists_digits_of_map_readDigits {α : Type} {f : List Char × List Char → α} {a : α}
    (h : (readDigits cs).map f = some a) :
    ∃ ds rest, f (ds, rest) = a ∧ Digits ds ∧ cs = ds ++ rest := by
  obtain ⟨⟨ds, rest⟩, hread, heq⟩ := Option.map_eq_some_iff.mp h
  obtain ⟨hds, rfl⟩ := digits_of_readDigits hread
  exact ⟨ds, rest, heq, hds, rfl⟩

theorem spelledBy_of_readFraction {fraction : Option (List Char)}
    (h : readFraction cs = some (fraction, rest)) :
    ∃ fs, FractionSpelledBy fraction fs ∧ cs = fs ++ rest := by
  rw [readFraction.eq_def] at h
  split at h
  · obtain ⟨ds, rest, ⟨⟩, hds, rfl⟩ := exists_digits_of_map_readDigits h
    exact ⟨_, .present hds, rfl⟩
  · cases h
    exact ⟨[], .absent, rfl⟩

theorem spelledBy_of_readExponent {exponent : Option Int}
    (h : readExponent cs = some (exponent, rest)) :
    ∃ es, ExponentSpelledBy exponent es ∧ cs = es ++ rest := by
  rw [readExponent.eq_def] at h
  split at h
  · split at h
    · obtain ⟨ds, rest, ⟨⟩, hds, rfl⟩ := exists_digits_of_map_readDigits h
      exact ⟨_, .minus (.inl rfl) hds, rfl⟩
    · obtain ⟨ds, rest, ⟨⟩, hds, rfl⟩ := exists_digits_of_map_readDigits h
      exact ⟨_, .plus (.inl rfl) hds, rfl⟩
    · obtain ⟨ds, rest, ⟨⟩, hds, rfl⟩ := exists_digits_of_map_readDigits h
      exact ⟨_, .unsigned (.inl rfl) hds, rfl⟩
  · split at h
    · obtain ⟨ds, rest, ⟨⟩, hds, rfl⟩ := exists_digits_of_map_readDigits h
      exact ⟨_, .minus (.inr rfl) hds, rfl⟩
    · obtain ⟨ds, rest, ⟨⟩, hds, rfl⟩ := exists_digits_of_map_readDigits h
      exact ⟨_, .plus (.inr rfl) hds, rfl⟩
    · obtain ⟨ds, rest, ⟨⟩, hds, rfl⟩ := exists_digits_of_map_readDigits h
      exact ⟨_, .unsigned (.inr rfl) hds, rfl⟩
  · cases h
    exact ⟨[], .absent, rfl⟩

theorem spelledBy_of_readNumber {n : Number} (h : readNumber cs = some (n, rest)) :
    ∃ ds, n.SpelledBy ds ∧ cs = ds ++ rest := by
  have hunsigned : ∀ {negative cs}, readUnsigned negative cs = some (n, rest) →
      ∃ ds, n.SpelledBy ((if negative then ['-'] else []) ++ ds) ∧ cs = ds ++ rest := by
    intro negative cs h
    simp only [readUnsigned, Option.bind_eq_bind, Option.bind_eq_some_iff] at h
    obtain ⟨⟨whole, cs₁⟩, hwhole, ⟨fraction, cs₂⟩, hfraction, ⟨exponent, cs₃⟩, hexponent, h⟩ := h
    obtain ⟨hw, rfl⟩ := wholeDigits_of_readWhole hwhole
    obtain ⟨fs, hf, rfl⟩ := spelledBy_of_readFraction hfraction
    obtain ⟨es, he, rfl⟩ := spelledBy_of_readExponent hexponent
    have hparts : n = .ofParts negative whole fraction exponent ∧ cs₃ = rest := by
      cases fraction <;> cases exponent <;> (cases h; exact ⟨rfl, rfl⟩)
    obtain ⟨rfl, rfl⟩ := hparts
    exact ⟨_, .parts hw hf he, by simp⟩
  rw [readNumber.eq_def] at h
  split at h
  · obtain ⟨ds, hn, rfl⟩ := hunsigned h
    exact ⟨_, hn, rfl⟩
  · obtain ⟨ds, hn, rfl⟩ := hunsigned h
    exact ⟨_, hn, rfl⟩

/-! ### Where the parts of a number end -/

theorem Stops.notMem (h : Stops rest) {c : Char} (hc : c ∈ rest.head?) :
    ¬ isDigit c ∧ c ≠ '.' ∧ c ≠ 'e' ∧ c ≠ 'E' := by
  have hmem := h c hc
  simp only [List.mem_cons, List.not_mem_nil, or_false] at hmem
  rcases hmem with rfl | rfl | rfl | rfl | rfl | rfl | rfl <;> decide

theorem ExponentSpelledBy.head_append {exponent : Option Int} {es : List Char}
    (h : ExponentSpelledBy exponent es) (hrest : Stops rest) :
    ∀ c ∈ (es ++ rest).head?, ¬ isDigit c ∧ c ≠ '.' := by
  intro c hc
  cases h with
  | absent =>
    obtain ⟨hdigit, hpoint, -⟩ := hrest.notMem hc
    exact ⟨hdigit, hpoint⟩
  | unsigned he | plus he | minus he =>
    cases hc
    rcases he with rfl | rfl <;> decide

theorem FractionSpelledBy.head_append {fraction : Option (List Char)} {fs : List Char}
    (h : FractionSpelledBy fraction fs) (hrest : ∀ c ∈ rest.head?, ¬ isDigit c) :
    ∀ c ∈ (fs ++ rest).head?, ¬ isDigit c := by
  cases h with
  | absent => exact hrest
  | present =>
    rintro c ⟨⟩
    decide

theorem readFraction_append {fraction : Option (List Char)} {fs : List Char}
    (h : FractionSpelledBy fraction fs) (hrest : ∀ c ∈ rest.head?, ¬ isDigit c ∧ c ≠ '.') :
    readFraction (fs ++ rest) = some (fraction, rest) := by
  cases h with
  | absent =>
    rw [List.nil_append, readFraction.eq_def]
    split
    · exact absurd rfl (hrest '.' rfl).2
    · rfl
  | present hds =>
    rw [List.cons_append, readFraction, readDigits_append hds fun c hc ↦ (hrest c hc).1]
    rfl

theorem Digits.head_append {ds : List Char} (h : Digits ds) (rest : List Char) :
    ∀ c ∈ (ds ++ rest).head?, c ≠ '+' ∧ c ≠ '-' := by
  cases ds with
  | nil => exact absurd rfl h.1
  | cons d ds =>
    rintro c ⟨⟩
    have hd := h.2 d List.mem_cons_self
    constructor <;> (rintro rfl; revert hd; decide)

theorem readExponent_append {exponent : Option Int} {es : List Char}
    (h : ExponentSpelledBy exponent es) (hrest : Stops rest) :
    readExponent (es ++ rest) = some (exponent, rest) := by
  have hdigits : ∀ {ds}, Digits ds → readDigits (ds ++ rest) = some (ds, rest) := fun hds ↦
    readDigits_append hds fun c hc ↦ (hrest.notMem hc).1
  cases h with
  | absent =>
    rw [List.nil_append, readExponent.eq_def]
    split
    · exact absurd rfl (hrest.notMem (c := 'e') rfl).2.2.1
    · exact absurd rfl (hrest.notMem (c := 'E') rfl).2.2.2
    · rfl
  | @unsigned e ds he hds =>
    have hsign := hds.head_append rest
    rcases he with rfl | rfl
    all_goals
      rw [List.cons_append, readExponent, hdigits hds, Option.map_some]
      · exact fun cs heq ↦ (hsign '-' (by rw [heq]; rfl)).2 rfl
      · exact fun cs heq ↦ (hsign '+' (by rw [heq]; rfl)).1 rfl
  | plus he hds =>
    rcases he with rfl | rfl <;>
      rw [List.cons_append, List.cons_append, readExponent, hdigits hds, Option.map_some]
  | minus he hds =>
    rcases he with rfl | rfl <;>
      rw [List.cons_append, List.cons_append, readExponent, hdigits hds, Option.map_some]

theorem readNumber_append {n : Number} (h : n.SpelledBy cs) (hrest : Stops rest) :
    readNumber (cs ++ rest) = some (n, rest) := by
  cases h with
  | @parts negative whole fraction exponent fs es hwhole hfraction hexponent =>
    have hend := hexponent.head_append hrest
    have hunsigned : readUnsigned negative (whole ++ (fs ++ (es ++ rest))) =
        some (.ofParts negative whole fraction exponent, rest) := by
      rw [readUnsigned, readWhole_append hwhole (hfraction.head_append fun c hc ↦ (hend c hc).1)]
      simp only [Option.bind_eq_bind, Option.bind_some, readFraction_append hfraction hend,
        readExponent_append hexponent hrest]
      cases fraction <;> cases exponent <;> rfl
    cases negative with
    | true =>
      rw [if_pos rfl, List.singleton_append, List.cons_append, List.append_assoc, List.append_assoc]
      exact hunsigned
    | false =>
      rw [if_neg Bool.false_ne_true, List.nil_append, List.append_assoc, List.append_assoc,
        readNumber.eq_def]
      split
      · next heq => exact absurd rfl (hwhole.1.head_append _ '-' (by rw [heq]; rfl)).2
      · exact hunsigned

/-! ## What was read is a spelling -/

theorem ItemsSpelledBy.blanks_append {b : List Char} {vs : List Json} (hb : Blanks b)
    (h : ItemsSpelledBy vs cs) : ItemsSpelledBy vs (b ++ cs) := by
  cases h with
  | last ha hv hb' =>
    rw [← List.append_assoc]
    exact .last (hb.append ha) hv hb'
  | cons ha hv hb' hvs =>
    rw [← List.append_assoc]
    exact .cons (hb.append ha) hv hb' hvs

theorem MembersSpelledBy.blanks_append {b : List Char} {ms : List (Option String × Json)}
    (hb : Blanks b) (h : MembersSpelledBy ms cs) : MembersSpelledBy ms (b ++ cs) := by
  cases h with
  | last ha =>
    rw [← List.append_assoc]
    exact .last (hb.append ha) ‹_› ‹_› ‹_› ‹_› ‹_›
  | cons ha =>
    rw [← List.append_assoc]
    exact .cons (hb.append ha) ‹_› ‹_› ‹_› ‹_› ‹_› ‹_›

mutual

theorem spelledBy_of_readValue : ∀ {fuel : Nat} {cs : List Char} {v : Json} {rest : List Char},
    readValue fuel cs = some (v, rest) →
      ∃ b ds, Blanks b ∧ v.SpelledBy ds ∧ cs = b ++ (ds ++ rest)
  | 0, _, _, _, h => by cases h
  | fuel + 1, cs, v, rest, h => by
    obtain ⟨b, hb, hcs⟩ := exists_blanks cs
    suffices ∃ ds, v.SpelledBy ds ∧ skipBlanks cs = ds ++ rest by
      obtain ⟨ds, hv, hds⟩ := this
      exact ⟨b, ds, hb, hv, hds ▸ hcs⟩
    rw [readValue.eq_def] at h
    dsimp only at h
    split at h
    · next heq =>
      cases h
      exact ⟨_, .null, heq⟩
    · next heq =>
      cases h
      exact ⟨_, .yes, heq⟩
    · next heq =>
      cases h
      exact ⟨_, .no, heq⟩
    · next heq =>
      obtain ⟨⟨s, rest'⟩, hread, hrest⟩ := Option.map_eq_some_iff.mp h
      cases hrest
      obtain ⟨ds, hs, hds⟩ := spelledBy_of_readString hread
      exact ⟨ds, .string hs, heq.trans hds⟩
    · next inner heq =>
      obtain ⟨b', hb', hinner⟩ := exists_blanks inner
      rw [heq, hinner]
      split at h
      · next hclose =>
        cases h
        exact ⟨_, .emptyArray hb', by simp [hclose]⟩
      · obtain ⟨⟨vs, rest'⟩, hread, hrest⟩ := Option.map_eq_some_iff.mp h
        cases hrest
        obtain ⟨ds, hvs, hds⟩ := spelledBy_of_readItems hread
        exact ⟨_, .array (hvs.blanks_append hb'), by simp [hds]⟩
    · next inner heq =>
      obtain ⟨b', hb', hinner⟩ := exists_blanks inner
      rw [heq, hinner]
      split at h
      · next hclose =>
        cases h
        exact ⟨_, .emptyObject hb', by simp [hclose]⟩
      · obtain ⟨⟨ms, rest'⟩, hread, hrest⟩ := Option.map_eq_some_iff.mp h
        cases hrest
        obtain ⟨ds, hms, hds⟩ := spelledBy_of_readMembers hread
        exact ⟨_, .object (hms.blanks_append hb'), by simp [hds]⟩
    · obtain ⟨⟨n, rest'⟩, hread, hrest⟩ := Option.map_eq_some_iff.mp h
      cases hrest
      obtain ⟨ds, hn, hds⟩ := spelledBy_of_readNumber hread
      exact ⟨ds, .number hn, hds⟩

theorem spelledBy_of_readItems : ∀ {fuel : Nat} {cs : List Char} {vs : List Json}
    {rest : List Char}, readItems fuel cs = some (vs, rest) →
      ∃ ds, ItemsSpelledBy vs ds ∧ cs = ds ++ ']' :: rest
  | 0, _, _, _, h => by cases h
  | fuel + 1, cs, vs, rest, h => by
    simp only [readItems, Option.bind_eq_bind, Option.bind_eq_some_iff] at h
    obtain ⟨⟨v, cs₁⟩, hvalue, h⟩ := h
    obtain ⟨b, ds, hb, hv, rfl⟩ := spelledBy_of_readValue hvalue
    obtain ⟨b', hb', hcs₁⟩ := exists_blanks cs₁
    rw [hcs₁]
    dsimp only at h
    split at h
    · next cs₂ hcomma =>
      obtain ⟨⟨vs', cs₃⟩, hread, heq⟩ := Option.bind_eq_some_iff.mp h
      cases heq
      obtain ⟨es, hvs, rfl⟩ := spelledBy_of_readItems hread
      exact ⟨_, .cons hb hv hb' hvs, by simp [hcomma]⟩
    · next cs₂ hclose =>
      cases h
      exact ⟨_, .last hb hv hb', by simp [hclose]⟩
    · cases h

theorem spelledBy_of_readMembers : ∀ {fuel : Nat} {cs : List Char}
    {ms : List (Option String × Json)} {rest : List Char}, readMembers fuel cs = some (ms, rest) →
      ∃ ds, MembersSpelledBy ms ds ∧ cs = ds ++ '\x7d' :: rest
  | 0, _, _, _, h => by cases h
  | fuel + 1, cs, ms, rest, h => by
    obtain ⟨a, ha, hcs⟩ := exists_blanks cs
    rw [readMembers.eq_def] at h
    dsimp only at h
    split at h
    · next cs₁ hquote =>
      simp only [Option.bind_eq_bind, Option.bind_eq_some_iff] at h
      obtain ⟨⟨k, cs₂⟩, hkey, h⟩ := h
      obtain ⟨ks, hk, hks⟩ := spelledBy_of_readString hkey
      obtain ⟨a', ha', hcs₂⟩ := exists_blanks cs₂
      rw [hcs, hquote, hks, hcs₂]
      split at h
      · next cs₃ hcolon =>
        obtain ⟨⟨v, cs₄⟩, hvalue, hnext⟩ := Option.bind_eq_some_iff.mp h
        obtain ⟨b, ds, hb, hv, rfl⟩ := spelledBy_of_readValue hvalue
        obtain ⟨b', hb', hcs₄⟩ := exists_blanks cs₄
        rw [hcolon, hcs₄]
        split at hnext
        · next hcomma =>
          obtain ⟨⟨ms', cs₅⟩, hread, heq⟩ := Option.bind_eq_some_iff.mp hnext
          cases heq
          obtain ⟨es, hms, rfl⟩ := spelledBy_of_readMembers hread
          exact ⟨_, .cons ha hk ha' hb hv hb' hms, by simp [hcomma]⟩
        · next hclose =>
          cases hnext
          exact ⟨_, .last ha hk ha' hb hv hb', by simp [hclose]⟩
        · cases hnext
      · cases h
    · cases h

end

/-! ## Spellings are read -/

theorem Number.SpelledBy.exists_cons {n : Number} (h : n.SpelledBy cs) :
    ∃ c ds, cs = c :: ds ∧ (isDigit c ∨ c = '-') := by
  cases h with
  | @parts negative whole _ _ _ _ hwhole =>
    cases negative with
    | true => exact ⟨_, _, rfl, .inr rfl⟩
    | false =>
      obtain ⟨⟨hne, hdigits⟩, -⟩ := hwhole
      obtain ⟨d, ds, rfl⟩ := List.exists_cons_of_ne_nil hne
      exact ⟨d, _, rfl, .inl (hdigits d List.mem_cons_self)⟩

theorem SpelledBy.exists_cons {v : Json} (h : v.SpelledBy cs) :
    ∃ c ds, cs = c :: ds ∧ c ∉ [' ', '\t', '\n', '\r', ']'] := by
  cases h with
  | null | yes | no | emptyArray | array | emptyObject | object => exact ⟨_, _, rfl, by decide⟩
  | string h =>
    cases h
    exact ⟨_, _, rfl, by decide⟩
  | number h =>
    obtain ⟨c, ds, rfl, hc⟩ := h.exists_cons
    refine ⟨c, ds, rfl, fun hmem ↦ ?_⟩
    simp only [List.mem_cons, List.not_mem_nil, or_false] at hmem
    rcases hmem with rfl | rfl | rfl | rfl | rfl <;> revert hc <;> decide

theorem skipBlanks_spelledBy {v : Json} (h : v.SpelledBy cs) (rest : List Char) :
    skipBlanks (cs ++ rest) = cs ++ rest := by
  obtain ⟨c, ds, rfl, hc⟩ := h.exists_cons
  simp only [List.mem_cons, List.not_mem_nil, or_false, not_or] at hc
  simp [skipBlanks, hc]

theorem readValue_blanks_append {b : List Char} (hb : Blanks b) (fuel : Nat) (cs : List Char) :
    readValue fuel (b ++ cs) = readValue fuel cs := by
  cases fuel with
  | zero => rfl
  | succ fuel => rw [readValue, readValue, skipBlanks_append hb]

theorem stops_blanks_append {b : List Char} (hb : Blanks b) (hrest : Stops rest) :
    Stops (b ++ rest) := by
  cases b with
  | nil => exact hrest
  | cons c b =>
    rintro d ⟨⟩
    have hd := hb c List.mem_cons_self
    simp only [List.mem_cons, List.not_mem_nil, or_false] at hd ⊢
    tauto

theorem readValue_append_of_number {n : Number} (h : n.SpelledBy cs) (hrest : Stops rest)
    (fuel : Nat) : readValue (fuel + 1) (cs ++ rest) = some (.number n, rest) := by
  have hskip := skipBlanks_spelledBy (.number h) rest
  have hread := readNumber_append h hrest
  obtain ⟨c, ds, rfl, hc⟩ := h.exists_cons
  rw [List.cons_append] at hskip hread ⊢
  rw [readValue.eq_def]
  dsimp only
  rw [hskip]
  -- all cases but that of a number ask for a first character that no number has
  split
  case h_7 => rw [hread, Option.map_some]
  all_goals
    next heq =>
    have hhead := (List.cons.inj heq).1
    rw [hhead] at hc
    exact absurd hc (by decide)

theorem ItemsSpelledBy.exists_cons {vs : List Json} (h : ItemsSpelledBy vs cs) :
    ∃ b c ds, Blanks b ∧ cs = b ++ c :: ds ∧ ItemsSpelledBy vs (c :: ds) ∧
      c ∉ [' ', '\t', '\n', '\r', ']'] := by
  cases h with
  | last hb hv hb' =>
    obtain ⟨c, ds, rfl, hc⟩ := hv.exists_cons
    exact ⟨_, c, _, hb, rfl, .last blanks_nil hv hb', hc⟩
  | cons hb hv hb' hvs =>
    obtain ⟨c, ds, rfl, hc⟩ := hv.exists_cons
    exact ⟨_, c, _, hb, rfl, .cons blanks_nil hv hb' hvs, hc⟩

theorem StringSpelledBy.exists_cons {s : Option String} (h : StringSpelledBy s cs) :
    ∃ ds, cs = '"' :: ds := by
  cases h
  exact ⟨_, rfl⟩

theorem MembersSpelledBy.exists_cons {ms : List (Option String × Json)}
    (h : MembersSpelledBy ms cs) :
    ∃ b ds, Blanks b ∧ cs = b ++ '"' :: ds ∧ MembersSpelledBy ms ('"' :: ds) := by
  cases h with
  | last ha hk ha' hb hv hb' =>
    obtain ⟨ds, rfl⟩ := hk.exists_cons
    exact ⟨_, _, ha, rfl, .last blanks_nil hk ha' hb hv hb'⟩
  | cons ha hk ha' hb hv hb' hms =>
    obtain ⟨ds, rfl⟩ := hk.exists_cons
    exact ⟨_, _, ha, rfl, .cons blanks_nil hk ha' hb hv hb' hms⟩

mutual

/-- A value is read from its spelling, and what follows it is left. -/
theorem readValue_append : ∀ (fuel : Nat) {v : Json} {cs : List Char} (rest : List Char),
    v.SpelledBy cs → Stops rest → cs.length ≤ fuel →
      readValue fuel (cs ++ rest) = some (v, rest)
  | 0, _, _, _, h, _, hfuel => by
    obtain ⟨c, ds, rfl, -⟩ := h.exists_cons
    simp at hfuel
  | fuel + 1, _, _, rest, h, hrest, hfuel => by
    cases h with
    | null | yes | no => simp [readValue, skipBlanks]
    | number h => exact readValue_append_of_number h hrest fuel
    | string h =>
      obtain ⟨ds, hds, hread⟩ := exists_readString h rest
      simp [readValue, hds, skipBlanks, hread]
    | emptyArray hb | emptyObject hb => simp [readValue, skipBlanks, skipBlanks_append hb]
    | array h =>
      obtain ⟨b, c, ds, hb, rfl, hvs, hc⟩ := h.exists_cons
      have hread := readItems_append fuel rest hvs (by simp at hfuel ⊢; omega)
      simp only [List.mem_cons, List.not_mem_nil, or_false, not_or] at hc
      rw [List.cons_append] at hread
      simp [readValue, skipBlanks, skipBlanks_append hb, hc, hread]
    | object h =>
      obtain ⟨b, ds, hb, rfl, hms⟩ := h.exists_cons
      have hread := readMembers_append fuel rest hms (by simp at hfuel ⊢; omega)
      rw [List.cons_append] at hread
      simp [readValue, skipBlanks, skipBlanks_append hb, hread]

/-- Items are read from their spelling, and what follows the bracket is left. -/
theorem readItems_append : ∀ (fuel : Nat) {vs : List Json} {cs : List Char} (rest : List Char),
    ItemsSpelledBy vs cs → cs.length < fuel →
      readItems fuel (cs ++ ']' :: rest) = some (vs, rest)
  | 0, _, _, _, _, hfuel => absurd hfuel (Nat.not_lt_zero _)
  | fuel + 1, _, _, rest, h, hfuel => by
    cases h with
    | @last v b cs b' hb hv hb' =>
      simp only [List.length_append] at hfuel
      have hvalue := readValue_append fuel (b' ++ ']' :: rest) hv
        (stops_blanks_append hb' (by rintro c ⟨⟩; simp)) (by omega)
      simp only [List.append_assoc]
      simp [readItems, readValue_blanks_append hb, hvalue, skipBlanks_append hb', skipBlanks]
    | @cons v vs b cs b' ds hb hv hb' hvs =>
      simp only [List.length_append, List.length_cons] at hfuel
      have hitems := readItems_append fuel rest hvs (by omega)
      have hvalue := readValue_append fuel (b' ++ ',' :: (ds ++ ']' :: rest)) hv
        (stops_blanks_append hb' (by rintro c ⟨⟩; simp)) (by omega)
      simp only [List.append_assoc, List.cons_append]
      simp [readItems, readValue_blanks_append hb, hvalue, skipBlanks_append hb', skipBlanks,
        hitems]

/-- Members are read from their spelling, and what follows the brace is left. -/
theorem readMembers_append : ∀ (fuel : Nat) {ms : List (Option String × Json)} {cs : List Char}
    (rest : List Char), MembersSpelledBy ms cs → cs.length < fuel →
      readMembers fuel (cs ++ '\x7d' :: rest) = some (ms, rest)
  | 0, _, _, _, _, hfuel => absurd hfuel (Nat.not_lt_zero _)
  | fuel + 1, _, _, rest, h, hfuel => by
    cases h with
    | @last k v a ks a' b cs b' ha hk ha' hb hv hb' =>
      simp only [List.length_append, List.length_cons] at hfuel
      obtain ⟨ds, hds, hkey⟩ := exists_readString hk
        (a' ++ ':' :: (b ++ (cs ++ (b' ++ '\x7d' :: rest))))
      have hvalue := readValue_append fuel (b' ++ '\x7d' :: rest) hv
        (stops_blanks_append hb' (by rintro c ⟨⟩; simp)) (by omega)
      simp only [List.append_assoc, List.cons_append, hds]
      simp [readMembers, skipBlanks_append, ha, ha', hb', skipBlanks, hkey,
        readValue_blanks_append hb, hvalue]
    | @cons k v ms a ks a' b cs b' es ha hk ha' hb hv hb' hms =>
      simp only [List.length_append, List.length_cons] at hfuel
      obtain ⟨ds, hds, hkey⟩ := exists_readString hk
        (a' ++ ':' :: (b ++ (cs ++ (b' ++ ',' :: (es ++ '\x7d' :: rest)))))
      have hmembers := readMembers_append fuel rest hms (by omega)
      have hvalue := readValue_append fuel (b' ++ ',' :: (es ++ '\x7d' :: rest)) hv
        (stops_blanks_append hb' (by rintro c ⟨⟩; simp)) (by omega)
      simp only [List.append_assoc, List.cons_append, hds]
      simp [readMembers, skipBlanks_append, ha, ha', hb', skipBlanks, hkey,
        readValue_blanks_append hb, hvalue, hmembers]

end

/-- A text is read as a value just if it is a text of the value. -/
theorem parse_eq_some_iff {s : String} {v : Json} : parse s = some v ↔ IsTextOf s v := by
  constructor
  · intro h
    rw [parse] at h
    split at h
    · next v' rest hread =>
      obtain ⟨b, cs, hb, hv, hs⟩ := spelledBy_of_readValue hread
      split at h
      · next hrest =>
        cases h
        exact ⟨b, cs, rest, hs, hb, hv, blanks_of_skipBlanks (List.isEmpty_iff.mp hrest)⟩
      · cases h
    · cases h
  · rintro ⟨b, cs, b', hs, hb, hv, hb'⟩
    have hstops : Stops b' := by
      rw [← List.append_nil b']
      exact stops_blanks_append hb' (by rintro c ⟨⟩)
    have hread := readValue_append (2 * s.toList.length + 2) b' hv hstops
      (by simp only [hs, List.length_append]; omega)
    rw [parse, hs, readValue_blanks_append hb, ← hs, hread]
    simp [skipBlanks_of_blanks hb']

/-- No text is JSON in two ways. -/
theorem IsTextOf.unique {s : String} {v w : Json} (hv : IsTextOf s v) (hw : IsTextOf s w) :
    v = w :=
  Option.some.inj ((parse_eq_some_iff.mpr hv).symm.trans (parse_eq_some_iff.mpr hw))

end NodeInventory.Json
