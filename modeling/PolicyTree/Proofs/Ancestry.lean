import Mathlib.Tactic.Common
import PolicyTree.Proofs.Glob.Encoding
import PolicyTree.Proofs.Paths

namespace PolicyTree.Path

variable {path top up n : String} {k : Nat}

section Joining

variable (valid : validate path = .ok ()) (segment : IsSegment n)

include valid segment

theorem exists_names_of_join :
    ∃ ns, path = ofNames ns ∧ join path n = ofNames (ns ++ [n]) ∧ ∀ m ∈ ns ++ [n], IsSegment m := by
  obtain ⟨ns, hns, rfl⟩ := exists_names_of_validate valid
  exact ⟨ns, rfl, join_ofNames hns, List.forall_mem_append.2 ⟨hns, by simpa using segment⟩⟩

theorem validate_join : validate (join path n) = .ok () := by
  obtain ⟨ns, -, hj, h⟩ := exists_names_of_join valid segment
  rw [hj, validate_ofNames h]

theorem parent_join : parent (join path n) = some path := by
  obtain ⟨ns, rfl, hj, h⟩ := exists_names_of_join valid segment
  rw [hj, parent_ofNames h]

theorem name_join : name (join path n) = n := by
  obtain ⟨ns, -, hj, -⟩ := exists_names_of_join valid segment
  rw [hj, name_ofNames segment]

theorem depth_join : depth (join path n) = depth path + 1 := by
  obtain ⟨ns, rfl, hj, h⟩ := exists_names_of_join valid segment
  rw [hj, depth_ofNames h, depth_ofNames fun m hm => h m (List.mem_append_left _ hm),
    List.length_append, List.length_singleton]

end Joining

section Ancestors

variable (valid : validate path = .ok ())

include valid

theorem exists_parent (ne : path ≠ root) :
    ∃ up, parent path = some up ∧ join up (name path) = path := by
  obtain ⟨ns, h, rfl⟩ := exists_names_of_validate valid
  rcases List.eq_nil_or_concat ns with rfl | ⟨ns, n, rfl⟩
  case inl => contradiction
  case inr =>
    rw [List.concat_eq_append] at h ⊢
    have above : ∀ m ∈ ns, IsSegment m := fun m hm => h m (List.mem_append_left _ hm)
    refine ⟨ofNames ns, parent_ofNames h, ?_⟩
    rw [name_ofNames (h n (by simp)), join_ofNames above]

theorem isSome_ancestor_iff : (ancestor path k).isSome ↔ k ≤ depth path := by
  obtain ⟨ns, h, rfl⟩ := exists_names_of_validate valid
  rw [depth_ofNames h, Option.isSome_iff_exists]
  simp only [ancestor_ofNames_eq_some_iff h]
  constructor
  case mp =>
    rintro ⟨_, above, below, rfl, rfl, -⟩
    simp
  case mpr =>
    intro hk
    exact ⟨_, ns.take (ns.length - k), ns.drop (ns.length - k), by simp, by simp; omega, rfl⟩

theorem depth_of_ancestor (h : ancestor path k = some up) : depth up = depth path - k := by
  obtain ⟨ns, hns, rfl⟩ := exists_names_of_validate valid
  obtain ⟨above, below, rfl, rfl, rfl⟩ := (ancestor_ofNames_eq_some_iff hns).1 h
  rw [depth_ofNames hns, depth_ofNames fun m hm => hns m (List.mem_append_left _ hm),
    List.length_append, Nat.add_sub_cancel]

theorem covers_iff_exists_ancestor (validTop : validate top = .ok ()) :
    covers top path ↔ ∃ k, ancestor path k = some top := by
  obtain ⟨ns, hns, rfl⟩ := exists_names_of_validate valid
  obtain ⟨above, ha, rfl⟩ := exists_names_of_validate validTop
  simp only [covers_ofNames ha hns, ancestor_ofNames_eq_some_iff hns]
  constructor
  case mp =>
    rintro ⟨below, rfl⟩
    exact ⟨_, above, below, rfl, rfl, rfl⟩
  case mpr =>
    rintro ⟨_, above', below, rfl, -, he⟩
    have ha' : ∀ m ∈ above', IsSegment m := fun m hm => hns m (List.mem_append_left _ hm)
    exact ofNames_injective ha' ha he ▸ List.prefix_append above' below

end Ancestors

-- Whether a path lies below another is told by the byte that follows, whatever the names hold.
theorem covers_iff_bytes (ne : top ≠ root) :
    covers top path ↔ path = top ∨ Glob.bytes top <+: Glob.bytes path ∧
      (Glob.bytes path)[(Glob.bytes top).length]? = some '/'.toUInt8 := by
  have slash : String.utf8EncodeChar '/' = ['/'.toUInt8] := by decide
  simp only [covers, if_neg ne, Bool.or_eq_true, beq_iff_eq, List.isPrefixOf_iff_prefix,
    Glob.bytes_eq]
  refine or_congr_right ⟨?below, ?follows⟩
  case below =>
    rintro ⟨rest, h⟩
    simp [← h, slash]
  case follows =>
    rintro ⟨⟨rest, h⟩, follows⟩
    rw [← h, List.getElem?_append_right (Nat.le_refl _), Nat.sub_self] at follows
    cases rest
    case nil => cases follows
    case cons byte rest =>
      cases follows
      obtain ⟨before, after, split, same, -⟩ :=
        Glob.exists_split_of_encode (c := '/') (v := rest) (by rw [slash]; exact h.symm)
      rw [split, Glob.encode_injective same]
      exact ⟨after, by simp⟩

-- The functions on paths agree: what a name adds, the parent takes away, and the paths above are
-- those that one comes by on the way up.
theorem steps_agree (valid : validate path = .ok ()) (validTop : validate top = .ok ())
    (validName : validateName n = .ok ()) :
    (validate (join path n) = .ok () ∧ parent (join path n) = some path ∧
      name (join path n) = n ∧ depth (join path n) = depth path + 1) ∧
    (path ≠ root → ∃ up, parent path = some up ∧ join up (name path) = path) ∧
    (∀ k, (ancestor path k).isSome ↔ k ≤ depth path) ∧
    (∀ k up, ancestor path k = some up → depth up = depth path - k) ∧
    (covers top path ↔ ∃ k, ancestor path k = some top) := by
  have segment : IsSegment n := isSegment_of_validateName validName
  exact ⟨⟨validate_join valid segment, parent_join valid segment, name_join valid segment,
    depth_join valid segment⟩, exists_parent valid, fun _ => isSome_ancestor_iff valid,
    fun _ _ => depth_of_ancestor valid, covers_iff_exists_ancestor valid validTop⟩

-- A name that another one extends is not above it.
theorem extended_name_is_not_above :
    validate "/é/bc" = .ok () ∧ validate "/é/b" = .ok () ∧ validateName "d" = .ok () ∧
    parent (join "/é/bc" "d") = some "/é/bc" ∧
    (∃ up, parent "/é/bc" = some up ∧ join up "bc" = "/é/bc") ∧
    (∀ k, (ancestor "/é/bc" k).isSome ↔ k ≤ 2) ∧ ∀ k, ancestor "/é/bc" k ≠ some "/é/b" := by
  have valid : validate "/é/bc" = .ok () := by decide
  have validTop : validate "/é/b" = .ok () := by decide
  have validName : validateName "d" = .ok () := by decide
  have ⟨⟨_, parent, _, _⟩, parted, above, _, covers⟩ := steps_agree valid validTop validName
  have apart : ¬Path.covers "/é/b" "/é/bc" := by decide
  exact ⟨valid, validTop, validName, parent, parted (by decide), above,
    fun k hk => apart (covers.2 ⟨k, hk⟩)⟩

end PolicyTree.Path
