import PolicyTree.Proofs.Glob.Encoding

namespace PolicyTree

open Text.Wildcard (Matches)

variable {owner restriction item rest : String}

namespace Path

-- What may follow a path in the path of an item that it covers.
def IsRest (rest : String) : Prop := rest = "" ∨ rest.toList.head? = some '/'

theorem covers_append_iff (ne : owner ≠ root) : covers owner (owner ++ rest) ↔ IsRest rest := by
  simp [covers, ne, IsRest, List.singleton_prefix_iff_head?_eq_some]

theorem exists_rest_of_covers (ne : owner ≠ root) (h : covers owner item) :
    ∃ rest, item = owner ++ rest := by
  simp only [covers, if_neg ne, Bool.or_eq_true, beq_iff_eq, List.isPrefixOf_iff_prefix] at h
  obtain rfl | ⟨rest, h⟩ := h
  case inl => exact ⟨"", String.append_empty.symm⟩
  case inr =>
    refine ⟨String.ofList ('/' :: rest), String.toList_injective ?_⟩
    simp [← h]

end Path

namespace Text.Wildcard.Matches

variable {α : Type _} {star : α} {p p' t t' : List α}

-- A star may stand for itself as well.
theorem self [DecidableEq α] : Matches star p p := by
  induction p
  case nil => exact .nil
  case cons c p hi =>
    by_cases hc : c = star
    case pos =>
      subst hc
      exact .star [c] hi
    case neg => exact .char hc hi

theorem append (h : Matches star p t) (h' : Matches star p' t') :
    Matches star (p ++ p') (t ++ t') := by
  induction h
  case nil => exact h'
  case char ne _ hi => exact .char ne hi
  case star run _ hi =>
    rw [List.append_assoc]
    exact .star run hi

end Text.Wildcard.Matches

namespace Glob

theorem covers_iff (hr : restriction ≠ "") : (⟨owner, some restriction⟩ : Glob).covers item ↔
    Path.covers owner item ∧ Matches '*' (pattern owner restriction).toList item.toList := by
  rw [← test_bytes_iff]
  unfold covers
  split
  case h_1 h => cases h
  case h_2 h => exact absurd (Option.some.inj h) hr
  case h_3 h =>
    cases h
    exact Bool.and_eq_true_iff

theorem covers_append_iff (ne : owner ≠ Path.root) (hr : restriction ≠ "") :
    (⟨owner, some restriction⟩ : Glob).covers (owner ++ rest) ↔ Path.IsRest rest ∧
      Matches '*' (owner.toList ++ restriction.toList) (owner.toList ++ rest.toList) := by
  rw [covers_iff hr, Path.covers_append_iff ne, pattern, if_neg (fun h => ne h.1),
    String.toList_append, String.toList_append]

-- The item is the owner's path as it is written, and a rest that the restriction matches.
def Literal (owner restriction item : String) : Prop :=
  ∃ rest, item = owner ++ rest ∧ Path.IsRest rest ∧ Matches '*' restriction.toList rest.toList

theorem literal_append_iff : Literal owner restriction (owner ++ rest) ↔
    Path.IsRest rest ∧ Matches '*' restriction.toList rest.toList := by
  simp [Literal]

theorem covers_of_literal (ne : owner ≠ Path.root) (hr : restriction ≠ "")
    (h : Literal owner restriction item) : (⟨owner, some restriction⟩ : Glob).covers item := by
  obtain ⟨rest, rfl, isRest, matched⟩ := h
  exact (covers_append_iff ne hr).2 ⟨isRest, .append .self matched⟩

theorem literal_of_covers (ne : owner ≠ Path.root) (hr : restriction ≠ "")
    (plain : '*' ∉ owner.toList) (h : (⟨owner, some restriction⟩ : Glob).covers item) :
    Literal owner restriction item := by
  obtain ⟨rest, rfl⟩ := Path.exists_rest_of_covers ne ((covers_iff hr).1 h).1
  rw [covers_append_iff ne hr, Matches.append_append_iff plain] at h
  exact ⟨rest, rfl, h⟩

-- A star in the owner's path takes in what lies below, down to where the path goes on.
theorem exists_covers_not_literal (ne : owner ≠ Path.root) (star : '*' ∈ owner.toList) :
    ∃ item, (⟨owner, some "/x"⟩ : Glob).covers item ∧ ¬Literal owner "/x" item := by
  obtain ⟨before, after, split⟩ := List.append_of_mem star
  let rest := ['/', 'y'] ++ after ++ ['/', 'x']
  refine ⟨owner ++ String.ofList rest, ?_, ?_⟩
  · have above : Matches '*' before before := .self
    have below : Matches '*' (after ++ ['/', 'x']) (after ++ ['/', 'x']) := .self
    have := above.append (.star ('*' :: after ++ ['/', 'y']) below)
    rw [covers_append_iff ne (by decide)]
    exact ⟨.inr (by simp [rest]), by simpa [split, rest] using this⟩
  · rw [literal_append_iff]
    rintro ⟨-, matched⟩
    have : "/x".toList = ['/', 'x'] := by decide
    rw [this, Matches.iff_eq_of_plain (by decide)] at matched
    have := congrArg List.length matched
    simp [rest] at this

-- Only what matches below the path as it is written is covered, if there is no star in the path and
-- only then. All of it is covered in any case.
theorem owner_literal_iff (owner : String) (ne : owner ≠ Path.root) :
    (∀ restriction ≠ "", ∀ item, Literal owner restriction item →
      (⟨owner, some restriction⟩ : Glob).covers item) ∧
    ((∀ restriction ≠ "", ∀ item, (⟨owner, some restriction⟩ : Glob).covers item →
      Literal owner restriction item) ↔ '*' ∉ owner.toList) := by
  constructor
  case left => exact fun _ hr _ h => covers_of_literal ne hr h
  case right =>
    constructor
    case mp =>
      intro literal star
      obtain ⟨item, covers, other⟩ := exists_covers_not_literal ne star
      exact other (literal _ (by decide) item covers)
    case mpr => exact fun plain _ hr _ h => literal_of_covers ne hr plain h

theorem cat_is_covered_literally :
    "/a" ≠ Path.root ∧ '*' ∉ "/a".toList ∧
    (⟨"/a", some "/*/cat"⟩ : Glob).covers "/a/b/cat" ∧ Literal "/a" "/*/cat" "/a/b/cat" := by
  have covers : (⟨"/a", some "/*/cat"⟩ : Glob).covers "/a/b/cat" := by decide +kernel
  exact ⟨by decide, by decide, covers,
    (owner_literal_iff "/a" (by decide)).2.2 (by decide) _ (by decide) _ covers⟩

theorem star_of_owner_is_wildcard :
    Path.validate "/a*" = .ok () ∧ Path.validateName "a*" = .ok () ∧ "/a*" ≠ Path.root ∧
    (⟨"/a*", some "/x"⟩ : Glob).covers "/a*/y/x" ∧ ¬Literal "/a*" "/x" "/a*/y/x" := by
  refine ⟨by decide, by decide, by decide, by decide +kernel, ?_⟩
  have split : "/a*/y/x" = "/a*" ++ "/y/x" := by decide
  rw [split, literal_append_iff, Matches.iff_eq_of_plain (by decide)]
  exact fun h => absurd h.2 (by decide)

section

variable (slash : restriction.toList.head? = some '/')

include slash

theorem ne_empty_of_slash : restriction ≠ "" := by
  rintro rfl
  cases slash

theorem covers_root_iff : (⟨Path.root, some restriction⟩ : Glob).covers item ↔
    item.toList.head? = some '/' ∧ Matches '*' restriction.toList item.toList := by
  rw [covers_iff (ne_empty_of_slash slash), pattern, if_pos ⟨rfl, slash⟩, Path.covers, if_pos rfl,
    beq_iff_eq]

theorem not_covers_owner (ne : owner ≠ Path.root) (plain : '*' ∉ owner.toList) :
    ¬(⟨owner, some restriction⟩ : Glob).covers owner := by
  intro h
  have h : (⟨owner, some restriction⟩ : Glob).covers (owner ++ "") := by rwa [String.append_empty]
  rw [covers_append_iff ne (ne_empty_of_slash slash), Matches.append_append_iff plain] at h
  have stars := Matches.nil_right_iff.1 h.2
  exact absurd (stars '/' (List.mem_of_head? slash)) (by decide)

theorem covers_root_root_iff : (⟨Path.root, some restriction⟩ : Glob).covers Path.root ↔
    ∀ c ∈ restriction.toList.tail, c = '*' := by
  rw [covers_root_iff slash]
  cases hr : restriction.toList
  case nil => simp [hr] at slash
  case cons c cs =>
    obtain rfl : c = '/' := by simpa [hr] using slash
    have root : Path.root.toList = ['/'] := by decide
    rw [root, Matches.cons_iff (by decide), List.tail_cons, ← Matches.nil_right_iff]
    simp

end

-- A restriction that begins with a slash covers the same below the root as below any other owner.
-- It never covers the owner, except for the root if nothing but stars follows the slash.
theorem root_glob_as_elsewhere (ne : owner ≠ Path.root) (plain : '*' ∉ owner.toList)
    (slash : restriction.toList.head? = some '/') :
    (∀ rest ≠ "", (⟨owner, some restriction⟩ : Glob).covers (owner ++ rest) ↔
      (⟨Path.root, some restriction⟩ : Glob).covers rest) ∧
    ¬(⟨owner, some restriction⟩ : Glob).covers owner ∧
    ((⟨Path.root, some restriction⟩ : Glob).covers Path.root ↔
      ∀ c ∈ restriction.toList.tail, c = '*') := by
  refine ⟨fun rest below => ?_, not_covers_owner slash ne plain, covers_root_root_iff slash⟩
  rw [covers_append_iff ne (ne_empty_of_slash slash), Matches.append_append_iff plain,
    covers_root_iff slash]
  exact and_congr_left fun _ => ⟨fun h => h.resolve_left below, .inr⟩

theorem page_is_covered_as_elsewhere :
    "/a" ≠ Path.root ∧ '*' ∉ "/a".toList ∧ "/*/page".toList.head? = some '/' ∧
    (⟨Path.root, some "/*/page"⟩ : Glob).covers "/b/page" ∧
    (⟨"/a", some "/*/page"⟩ : Glob).covers ("/a" ++ "/b/page") := by
  have covers : (⟨Path.root, some "/*/page"⟩ : Glob).covers "/b/page" := by decide +kernel
  exact ⟨by decide, by decide, by decide, covers,
    ((root_glob_as_elsewhere (by decide) (by decide) (by decide)).1 _ (by decide)).2 covers⟩

theorem root_is_covered_unlike_others :
    Path.validate "/a" = .ok () ∧ "/a" ≠ Path.root ∧ '*' ∉ "/a".toList ∧
    "/*".toList.head? = some '/' ∧
    ¬(⟨"/a", some "/*"⟩ : Glob).covers ("/a" ++ "") ∧
    (⟨Path.root, some "/*"⟩ : Glob).covers Path.root := by
  decide +kernel

end Glob

end PolicyTree
