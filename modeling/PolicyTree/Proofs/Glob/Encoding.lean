import PolicyTree.Glob
import PolicyTree.Proofs.Glob.Matching

namespace PolicyTree.Glob

open Text.Wildcard (Matches)

variable {c d : Char} {cs pattern text : List Char} {u v : List UInt8}

def encode (cs : List Char) : List UInt8 := cs.flatMap String.utf8EncodeChar

@[simp] theorem encode_nil : encode [] = [] := rfl

@[simp] theorem encode_cons : encode (c :: cs) = String.utf8EncodeChar c ++ encode cs := rfl

@[simp] theorem encode_append {ds : List Char} : encode (cs ++ ds) = encode cs ++ encode ds :=
  List.flatMap_append

theorem bytes_eq {s : String} : bytes s = encode s.toList := by
  rw [bytes, ← String.utf8Encode_toList, List.utf8Encode, List.toList_data_toByteArray, encode]

-- No character begins with the bytes of another one.
theorem encodeChar_append_inj
    (h : String.utf8EncodeChar c ++ u = String.utf8EncodeChar d ++ v) : c = d ∧ u = v := by
  have decode {c : Char} {u : List UInt8} :
      (String.utf8EncodeChar c ++ u).toByteArray.utf8DecodeChar? 0 = some c := by
    rw [List.toByteArray_append]
    exact ByteArray.utf8DecodeChar?_utf8EncodeChar_append
  have : some c = some d := by rw [← decode, h, decode]
  obtain rfl := Option.some.inj this
  exact ⟨rfl, List.append_cancel_left h⟩

-- A byte that begins one character stands nowhere but at the beginning of any.
theorem eq_nil_of_first {b : UInt8} (first : b.IsUTF8FirstByte)
    (h : String.utf8EncodeChar c = u ++ b :: v) : u = [] := by
  have bound : u.length < (String.utf8EncodeChar c).length := by simp [h]
  have : (String.utf8EncodeChar c)[u.length] = b := by simp [h]
  rw [← this, UInt8.isUTF8FirstByte_getElem_utf8EncodeChar] at first
  exact List.length_eq_zero_iff.1 first

theorem first_of_encodeChar {b : UInt8} (h : String.utf8EncodeChar c ++ u = b :: v) :
    b.IsUTF8FirstByte := by
  have first := UInt8.isUTF8FirstByte_getElem_zero_utf8EncodeChar (c := c)
  cases hc : String.utf8EncodeChar c
  case nil => exact absurd hc String.utf8EncodeChar_ne_nil
  case cons =>
    rw [hc, List.cons_append] at h
    simpa [hc, (List.cons.inj h).1] using first

@[simp] theorem star_mem_encodeChar_iff : '*'.toUInt8 ∈ String.utf8EncodeChar c ↔ c = '*' := by
  have star : String.utf8EncodeChar '*' = ['*'.toUInt8] := by decide
  constructor
  case mp =>
    intro h
    obtain ⟨u, v, split⟩ := List.append_of_mem h
    have first : '*'.toUInt8.IsUTF8FirstByte := by decide
    obtain rfl := eq_nil_of_first first split
    refine (encodeChar_append_inj (u := []) (v := v) ?_).1
    rw [List.append_nil, split, star]
    rfl
  case mpr =>
    rintro rfl
    simp [star]

@[simp] theorem encode_eq_nil_iff : encode cs = [] ↔ cs = [] := by
  cases cs <;> simp [String.utf8EncodeChar_ne_nil]

-- The bytes of a character are found only where the character stands.
theorem exists_split_of_encode (h : encode text = u ++ (String.utf8EncodeChar c ++ v)) :
    ∃ before after, text = before ++ c :: after ∧ encode before = u ∧ encode after = v := by
  induction text generalizing u
  case nil => simp [String.utf8EncodeChar_ne_nil] at h
  case cons d text hi =>
    have later {w} (h : encode text = w ++ (String.utf8EncodeChar c ++ v)) :
        ∃ before after, d :: text = before ++ c :: after ∧
          encode before = String.utf8EncodeChar d ++ w ∧ encode after = v := by
      obtain ⟨before, after, rfl, rfl, rfl⟩ := hi h
      exact ⟨d :: before, after, rfl, rfl, rfl⟩
    rw [encode_cons] at h
    obtain ⟨w, rfl, hw⟩ | ⟨w, hd, hw⟩ := List.append_eq_append_iff.1 h
    case inl => exact later hw
    case inr =>
      cases w
      case nil =>
        have := later (w := []) hw.symm
        rwa [hd, List.append_nil, List.append_nil] at this
      case cons b w =>
        obtain rfl := eq_nil_of_first (first_of_encodeChar hw) hd
        obtain ⟨rfl, rfl⟩ := encodeChar_append_inj h
        exact ⟨[], text, rfl, rfl, rfl⟩

theorem encode_injective {ds : List Char} (h : encode cs = encode ds) : cs = ds := by
  induction cs generalizing ds
  case nil => exact (encode_eq_nil_iff.1 h.symm).symm
  case cons c cs hi =>
    cases ds
    case nil => exact absurd (encode_eq_nil_iff.1 h) (by simp)
    case cons d ds =>
      obtain ⟨rfl, tail⟩ := encodeChar_append_inj h
      rw [hi tail]

theorem matches_encode (h : Matches '*' pattern text) :
    Matches '*'.toUInt8 (encode pattern) (encode text) := by
  induction h
  case nil => exact .nil
  case char c pattern text ne h hi =>
    rw [encode_cons, encode_cons, Matches.append_append_iff (by simpa using ne)]
    exact hi
  case star pattern text run h hi =>
    rw [encode_cons, encode_append]
    exact .star _ hi

-- The bytes that a star takes in may end within a character only if another star follows. So what
-- comes after some bytes is matched by what comes after some characters.
theorem matches_of_encode (h : Matches '*'.toUInt8 (encode pattern) v) :
    (∀ text, encode text = v → Matches '*' pattern text) ∧
    ∀ text, v <:+ encode text → ∃ rest, rest <:+ text ∧ Matches '*' pattern rest := by
  induction pattern generalizing v
  case nil =>
    rw [encode_nil, Matches.nil_iff] at h
    subst h
    simp [Matches.nil_iff]
  case cons c pattern hi =>
    by_cases hc : c = '*'
    case pos =>
      subst hc
      obtain ⟨w, suffix, h⟩ := Matches.star_iff.1 h
      have ⟨_, within⟩ := hi h
      constructor
      case left =>
        rintro text rfl
        exact Matches.star_iff.2 (within text suffix)
      case right =>
        intro text suffix'
        obtain ⟨rest, below, matched⟩ := within text (suffix.trans suffix')
        exact ⟨rest, below, .star [] matched⟩
    case neg =>
      rw [encode_cons, Matches.append_iff (by simpa using hc)] at h
      obtain ⟨w, rfl, h⟩ := h
      have ⟨whole, _⟩ := hi h
      constructor
      case left =>
        intro text ht
        obtain ⟨before, after, rfl, hb, ha⟩ := exists_split_of_encode (u := []) ht
        rw [encode_eq_nil_iff] at hb
        subst hb
        exact .char hc (whole after ha)
      case right =>
        rintro text ⟨u, ht⟩
        obtain ⟨before, after, rfl, -, ha⟩ := exists_split_of_encode ht.symm
        exact ⟨c :: after, List.suffix_append .., .char hc (whole after ha)⟩

theorem test_bytes_iff {p t : String} :
    Text.Wildcard.test '*'.toUInt8 (bytes p) (bytes t) ↔ Matches '*' p.toList t.toList := by
  rw [bytes_eq, bytes_eq, Text.Wildcard.test_iff]
  exact ⟨fun h => (matches_of_encode h).1 _ rfl, matches_encode⟩

end PolicyTree.Glob
