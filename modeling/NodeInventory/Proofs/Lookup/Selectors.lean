import Mathlib.Data.List.Infix
import NodeInventory.Api.Cluster

/-!
# Selectors of nodes

Names that can be values of a label have no commas, so joined with commas they are found again when
the text is cut at the commas (`Text.split_join`). Cut into parts, a list of names comes in the same
order, and no part is empty or too long (`flatten_chunks`, `length_of_mem_chunks`). A selector is
sent in form encoding, in which every character may stand in a query; a path is sent as it is if its
characters may stand in a path.
-/

namespace NodeInventory

/-! ## Cutting and joining -/

namespace Text

variable {sep : Char} {p : List Char} {ps : List (List Char)}

theorem pieces_of_notMem (h : sep ∉ p) : pieces sep p = [p] := by
  induction p with
  | nil => rfl
  | cons c p ih =>
    obtain ⟨hc, hp⟩ := not_or.mp (mt List.mem_cons.mpr h)
    rw [pieces, if_neg (Ne.symm hc), ih hp]

theorem pieces_append_sep (h : sep ∉ p) (rest : List Char) :
    pieces sep (p ++ sep :: rest) = p :: pieces sep rest := by
  induction p with
  | nil => exact if_pos rfl
  | cons c p ih =>
    obtain ⟨hc, hp⟩ := not_or.mp (mt List.mem_cons.mpr h)
    rw [List.cons_append, pieces, if_neg (Ne.symm hc), ih hp]

theorem pieces_joinPieces (hne : ps ≠ []) (h : ∀ p ∈ ps, sep ∉ p) :
    pieces sep (joinPieces sep ps) = ps := by
  induction ps with
  | nil => exact absurd rfl hne
  | cons p ps ih =>
    obtain ⟨hp, hps⟩ := List.forall_mem_cons.mp h
    cases ps with
    | nil => exact pieces_of_notMem hp
    | cons q ps => rw [joinPieces, pieces_append_sep hp, ih (List.cons_ne_nil q ps) hps]

theorem mem_joinPieces {c : Char} (h : c ∈ joinPieces sep ps) : c = sep ∨ ∃ p ∈ ps, c ∈ p := by
  induction ps with
  | nil => cases h
  | cons p ps ih =>
    cases ps with
    | nil => exact .inr ⟨p, List.mem_cons_self, h⟩
    | cons q ps =>
      rcases List.mem_append.mp h with h | h
      · exact .inr ⟨p, List.mem_cons_self, h⟩
      · rcases List.mem_cons.mp h with rfl | h
        · exact .inl rfl
        · exact (ih h).imp_right fun ⟨r, hr, hc⟩ ↦ ⟨r, List.mem_cons_of_mem p hr, hc⟩

theorem length_joinPieces_le {n : ℕ} (h : ∀ p ∈ ps, p.length ≤ n) :
    (joinPieces sep ps).length ≤ (n + 1) * ps.length := by
  induction ps with
  | nil => exact Nat.zero_le _
  | cons p ps ih =>
    obtain ⟨hp, hps⟩ := List.forall_mem_cons.mp h
    rw [List.length_cons, Nat.mul_succ]
    cases ps with
    | nil =>
      change p.length ≤ _
      omega
    | cons q ps =>
      rw [joinPieces, List.length_append, List.length_cons]
      have := ih hps
      omega

theorem split_join {l : List String} (hne : l ≠ []) (h : ∀ s ∈ l, sep ∉ s.toList) :
    split sep (join sep l) = l := by
  have hpieces : ∀ p ∈ l.map String.toList, sep ∉ p := List.forall_mem_map.mpr h
  rw [split, join, String.toList_ofList, pieces_joinPieces (by simpa using hne) hpieces]
  simp

end Text

/-! ## Parts of a list -/

namespace Api.Cluster

variable {α : Type} {size : ℕ} {l : List α}

/-- The parts make up the list. -/
theorem flatten_chunks (hsize : size ≠ 0) (l : List α) : (chunks size l).flatten = l := by
  fun_induction chunks size l with
  | case1 l h => exact (h.resolve_right hsize).symm
  | case2 l h ih => rw [List.flatten_cons, ih, List.take_append_drop]

/-- A part is neither empty nor longer than the size. -/
theorem length_of_mem_chunks {c : List α} (h : c ∈ chunks size l) :
    1 ≤ c.length ∧ c.length ≤ size := by
  fun_induction chunks size l with
  | case1 => cases h
  | case2 l hl ih =>
    rcases List.mem_cons.mp h with rfl | h
    · have hpos : 0 < l.length := List.length_pos_of_ne_nil fun hnil ↦ hl (.inl hnil)
      rw [List.length_take]
      omega
    · exact ih h

end Api.Cluster

/-! ## Characters of addresses -/

theorem isAlphanum_iff {c : Char} : c.isAlphanum ↔ (48 ≤ c.toNat ∧ c.toNat ≤ 57) ∨
    (65 ≤ c.toNat ∧ c.toNat ≤ 90) ∨ (97 ≤ c.toNat ∧ c.toNat ≤ 122) := by
  delta Char.isAlphanum Char.isAlpha Char.isUpper Char.isLower Char.isDigit
  simp [UInt32.le_iff_toNat_le]
  tauto

theorem utf8ByteSize_ofList {cs : List Char} (h : ∀ c ∈ cs, c.utf8Size = 1) :
    (String.ofList cs).utf8ByteSize = cs.length := by
  induction cs with
  | nil => rfl
  | cons c cs ih =>
    obtain ⟨hc, hcs⟩ := List.forall_mem_cons.mp h
    rw [String.ofList_cons, String.utf8ByteSize_append, String.utf8ByteSize_singleton, hc, ih hcs,
      List.length_cons, Nat.add_comm]

namespace Uri

variable {c : Char} {p q : List Char}

theorem utf8Size_of_isQueryChar (h : isQueryChar c) : c.utf8Size = 1 := by
  rw [Char.utf8Size_eq_one_iff, UInt32.le_iff_toNat_le]
  change c.toNat ≤ 127
  simp only [isQueryChar, Bool.or_eq_true, Bool.and_eq_true, beq_iff_eq, decide_eq_true_eq] at h
  omega

theorem isQueryChar_of_isAlphanum (h : c.isAlphanum) : isQueryChar c := by
  have := isAlphanum_iff.mp h
  simp only [isQueryChar, Bool.or_eq_true, Bool.and_eq_true, beq_iff_eq, decide_eq_true_eq]
  omega

theorem sentPath?_append (h : ∀ c ∈ p, isPathChar c) (rest : List Char) :
    sentPath? (p ++ rest) = (sentPath? rest).map (p ++ ·) := by
  induction p with
  | nil => simp
  | cons c p ih =>
    obtain ⟨hc, hp⟩ := List.forall_mem_cons.mp h
    have hhash : c ≠ '#' := by rintro rfl; exact absurd hc (by decide)
    have hquery : c ≠ '?' := by rintro rfl; exact absurd hc (by decide)
    rw [List.cons_append, sentPath?.eq_4 _ _ hhash hquery, if_pos hc, ih hp, Option.map_map]
    rfl

theorem sentPath?_eq_self (h : ∀ c ∈ p, isPathChar c) : sentPath? p = some p := by
  have hsent := sentPath?_append h []
  rwa [List.append_nil, sentPath?, Option.map_some, List.append_nil] at hsent

theorem sentQuery?_eq_self (h : ∀ c ∈ q, isQueryChar c) : sentQuery? q = some q := by
  induction q with
  | nil => rfl
  | cons c q ih =>
    obtain ⟨hc, hq⟩ := List.forall_mem_cons.mp h
    have hhash : c ≠ '#' := by rintro rfl; exact absurd hc (by decide)
    rw [sentQuery?.eq_3 _ _ hhash, if_pos hc, ih hq]
    rfl

end Uri

namespace Text

theorem toList_formEncode (s : String) : (formEncode s).toList = s.toList.flatMap formChar :=
  String.toList_ofList

theorem toList_formEncode_append (s t : String) :
    (formEncode (s ++ t)).toList = (formEncode s).toList ++ (formEncode t).toList := by
  rw [toList_formEncode, toList_formEncode, toList_formEncode, String.toList_append,
    List.flatMap_append]

theorem isQueryChar_of_mem_formEncode {s : String} {c : Char} (h : c ∈ (formEncode s).toList) :
    Uri.isQueryChar c := by
  rw [toList_formEncode, List.mem_flatMap] at h
  obtain ⟨d, -, hc⟩ := h
  have hdigit : ∀ n < 16, Uri.isQueryChar (capitalHexDigit n) := by decide
  rw [formChar] at hc
  split at hc
  · next hd =>
    rw [List.mem_singleton.mp hc]
    simp only [isFormChar, Bool.or_eq_true, beq_iff_eq] at hd
    rcases hd with (((hd | rfl) | rfl) | rfl) | rfl
    · exact Uri.isQueryChar_of_isAlphanum hd
    all_goals decide
  · split at hc
    · rw [List.mem_singleton.mp hc]
      decide
    · obtain ⟨b, -, hb⟩ := List.mem_flatMap.mp hc
      simp only [percentByte, List.mem_cons, List.not_mem_nil, or_false] at hb
      have := b.toNat_lt
      rcases hb with rfl | rfl | rfl
      · decide
      · exact hdigit _ (by omega)
      · exact hdigit _ (by omega)

end Text

/-! ## Values of labels -/

namespace Node

theorem isLabelChar_iff {c : Char} :
    isLabelChar c ↔ c.isAlphanum ∨ c = '-' ∨ c = '_' ∨ c = '.' := by
  simp [isLabelChar, isLabelEnd, or_assoc]

theorem utf8Size_of_isLabelChar {c : Char} (h : isLabelChar c) : c.utf8Size = 1 := by
  rw [Char.utf8Size_eq_one_iff, UInt32.le_iff_toNat_le]
  change c.toNat ≤ 127
  rcases isLabelChar_iff.mp h with h | rfl | rfl | rfl
  · have := isAlphanum_iff.mp h
    omega
  all_goals decide

/-- A text is a value of a label if it has 1 to 63 bytes, all of them ASCII letters, digits,
hyphens, underscores or points, and a letter or digit at either end. -/
theorem isLabelValue_iff {s : String} : isLabelValue s ↔
    (1 ≤ s.utf8ByteSize ∧ s.utf8ByteSize ≤ 63) ∧
      (∀ c ∈ s.toList, c.isAlphanum ∨ c = '-' ∨ c = '_' ∨ c = '.') ∧
      (∀ c ∈ s.toList.head?, c.isAlphanum) ∧ ∀ c ∈ s.toList.getLast?, c.isAlphanum := by
  obtain ⟨cs, rfl⟩ : ∃ cs, s = String.ofList cs := ⟨s.toList, String.ofList_toList.symm⟩
  simp only [← isLabelChar_iff, String.toList_ofList, isLabelValue]
  by_cases hchars : ∀ c ∈ cs, isLabelChar c
  · have hbytes := utf8ByteSize_ofList fun c hc ↦ utf8Size_of_isLabelChar (hchars c hc)
    rw [hbytes, and_iff_right hchars]
    cases cs with
    | nil => simp
    | cons c cs =>
      have hall : (c :: cs).all isLabelChar := List.all_eq_true.mpr hchars
      have hlast : (c :: cs).getLast? = some ((c :: cs).getLast (List.cons_ne_nil c cs)) :=
        List.getLast?_eq_some_getLast _
      rw [hlast]
      simp [hall, isLabelEnd, maxLabelLength, and_assoc]
  · refine iff_of_false (fun h ↦ hchars ?_) fun h ↦ hchars h.2.1
    cases cs with
    | nil => exact List.forall_mem_nil _
    | cons c cs =>
      simp only [Bool.and_eq_true] at h
      exact List.all_eq_true.mp h.2

theorem length_le_of_isLabelValue {s : String} (h : isLabelValue s) : s.toList.length ≤ 63 := by
  obtain ⟨⟨-, hle⟩, hchars, -⟩ := isLabelValue_iff.mp h
  have hbytes := utf8ByteSize_ofList fun c hc ↦
    utf8Size_of_isLabelChar (isLabelChar_iff.mpr (hchars c hc))
  rw [String.ofList_toList] at hbytes
  exact hbytes ▸ hle

end Node

/-! ## Requests -/

namespace Api.Cluster

/-- The request for the nodes whose label with the host name is one of the words between commas. -/
def labelRequest (words : String) : Request where
  method := .get
  path := "/api/v1/nodes?&labelSelector=" ++
    Text.formEncode ("kubernetes.io/hostname in (" ++ words ++ ")")

/-- The request for the node of a name. -/
def nodeRequest (name : String) : Request where
  method := .get
  path := "/api/v1/nodes/" ++ name

theorem query_selector (names : List String) :
    query nodesPath [("labelSelector", selector names)] =
      (labelRequest (Text.join ',' names)).path := by
  apply String.toList_injective
  simp [query, selector, labelRequest, nodesPath, Node.hostnameLabel, String.join]

theorem length_formChar_of_isLabelChar {c : Char} (h : c = ',' ∨ Node.isLabelChar c) :
    (Text.formChar c).length ≤ 3 := by
  rcases h with rfl | h
  · decide +kernel
  · have hform : Text.isFormChar c := by
      rcases Node.isLabelChar_iff.mp h with h | rfl | rfl | rfl
      · simp [Text.isFormChar, h]
      all_goals decide
    rw [Text.formChar, if_pos hform]
    simp

theorem length_flatMap_formChar_le {cs : List Char}
    (h : ∀ c ∈ cs, c = ',' ∨ Node.isLabelChar c) :
    (cs.flatMap Text.formChar).length ≤ 3 * cs.length := by
  induction cs with
  | nil => exact Nat.zero_le _
  | cons c cs ih =>
    obtain ⟨hc, hcs⟩ := List.forall_mem_cons.mp h
    have := length_formChar_of_isLabelChar hc
    have := ih hcs
    rw [List.flatMap_cons, List.length_append, List.length_cons]
    omega

/-- Written as a value of a query, a selector of as many words as are asked for at once is shorter
than an address may be. -/
theorem length_formEncode_selector_le {part : List String}
    (hvalues : ∀ s ∈ part, Node.isLabelValue s) (hlength : part.length ≤ namesPerRequest) :
    (Text.formEncode ("kubernetes.io/hostname in (" ++ Text.join ',' part ++ ")")).toList.length ≤
      10000 := by
  have hopen : (Text.formEncode "kubernetes.io/hostname in (").toList.length ≤ 100 := by
    decide +kernel
  have hclose : (Text.formEncode ")").toList.length ≤ 100 := by decide +kernel
  have hchars : ∀ c ∈ Text.joinPieces ',' (part.map String.toList),
      c = ',' ∨ Node.isLabelChar c := by
    intro c hc
    refine (Text.mem_joinPieces hc).imp_right fun ⟨p, hp, hcp⟩ ↦ ?_
    obtain ⟨s, hs, rfl⟩ := List.mem_map.mp hp
    exact Node.isLabelChar_iff.mpr ((Node.isLabelValue_iff.mp (hvalues s hs)).2.1 c hcp)
  have hwords : (Text.joinPieces ',' (part.map String.toList)).length ≤ 64 * part.length := by
    have hmap : part.length = (part.map String.toList).length :=
      (List.length_map String.toList).symm
    rw [hmap]
    refine Text.length_joinPieces_le (List.forall_mem_map.mpr fun s hs ↦ ?_)
    exact Node.length_le_of_isLabelValue (hvalues s hs)
  have hencoded : (Text.formEncode (Text.join ',' part)).toList.length ≤ 3 * (64 * 50) := by
    rw [Text.toList_formEncode, Text.join, String.toList_ofList]
    have := length_flatMap_formChar_le hchars
    simp only [namesPerRequest] at hlength
    omega
  rw [Text.toList_formEncode_append, Text.toList_formEncode_append, List.length_append,
    List.length_append]
  omega

/-- A value of a query is sent as it is, if it is not too long. -/
theorem sent?_query {value : String} (hvalue : ∀ c ∈ value.toList, Uri.isQueryChar c)
    (hlength : value.toList.length ≤ 10000) :
    Uri.sent? ("/api/v1/nodes?&labelSelector=" ++ value) =
      some ("/api/v1/nodes?&labelSelector=" ++ value).toList := by
  have hpath : ∀ c ∈ "/api/v1/nodes".toList, Uri.isPathChar c :=
    List.all_eq_true.mp (by decide +kernel)
  have hparameter : ∀ c ∈ "&labelSelector=".toList, Uri.isQueryChar c :=
    List.all_eq_true.mp (by decide +kernel)
  have hquery : ∀ c ∈ "&labelSelector=".toList ++ value.toList, Uri.isQueryChar c :=
    List.forall_mem_append.mpr ⟨hparameter, hvalue⟩
  have hlist : ("/api/v1/nodes?&labelSelector=" ++ value).toList =
      "/api/v1/nodes".toList ++ '?' :: ("&labelSelector=".toList ++ value.toList) := by
    rw [String.toList_append]
    rfl
  have hbefore : "/api/v1/nodes?&labelSelector=".utf8ByteSize = 29 := by decide +kernel
  have hbytes : value.utf8ByteSize = value.toList.length := by
    conv_lhs => rw [← String.ofList_toList (s := value)]
    exact utf8ByteSize_ofList fun c hc ↦ Uri.utf8Size_of_isQueryChar (hvalue c hc)
  have hshort : ¬ Uri.lengthBound ≤ ("/api/v1/nodes?&labelSelector=" ++ value).utf8ByteSize := by
    rw [String.utf8ByteSize_append, hbefore, hbytes, Uri.lengthBound]
    omega
  rw [Uri.sent?, if_neg hshort, hlist, Uri.sentPath?_append hpath, Uri.sentPath?,
    Uri.sentQuery?_eq_self hquery]
  rfl

/-- A selector of as many words as are asked for at once is sent as it is. -/
theorem sent?_labelRequest {part : List String} (hvalues : ∀ s ∈ part, Node.isLabelValue s)
    (hlength : part.length ≤ namesPerRequest) :
    Uri.sent? (labelRequest (Text.join ',' part)).path =
      some (labelRequest (Text.join ',' part)).path.toList :=
  sent?_query (fun _ ↦ Text.isQueryChar_of_mem_formEncode)
    (length_formEncode_selector_le hvalues hlength)

/-- A path to a node is sent as it is, if the characters of the name may stand in a path and it is
not too long for an address. -/
theorem sent?_nodeRequest {name : String} (h : ∀ c ∈ name.toList, Uri.isPathChar c)
    (hlength : (nodeRequest name).path.utf8ByteSize < Uri.lengthBound) :
    Uri.sent? (nodeRequest name).path = some (nodeRequest name).path.toList := by
  have hpath : ∀ c ∈ "/api/v1/nodes/".toList, Uri.isPathChar c :=
    List.all_eq_true.mp (by decide +kernel)
  rw [Uri.sent?, if_neg hlength.not_ge]
  refine Uri.sentPath?_eq_self fun c hc ↦ ?_
  rw [nodeRequest, String.toList_append] at hc
  exact (List.mem_append.mp hc).elim (hpath c) (h c)

end Api.Cluster

end NodeInventory
