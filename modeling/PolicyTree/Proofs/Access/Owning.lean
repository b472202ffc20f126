import Mathlib.Tactic.Common
import PolicyTree.Proofs.Access.Keeping
import PolicyTree.Proofs.Policy.Nesting

namespace PolicyTree

def PolicyAt (tree : TreeView) (path : String) : Prop :=
  Path.validate path = .ok () ∧ ∃ policy,
    tree.resolve (Path.join path Policy.nodeName) = .ok (some policy) ∧
    tree.isType policy Policy.listType = .ok true

-- A path is the one of the policy of `owner`, or goes on below it.
def LeadsInto (tree : TreeView) (owner path : String) : Prop :=
  PolicyAt tree owner ∧ Path.covers (Path.join owner Policy.nodeName) path

structure Deepest (tree : TreeView) (path : String) (node : NodeHandle) : Prop where
  there  : tree.resolve node.path = .ok (some node)
  above  : Path.covers node.path path
  lowest : ∀ {top : String} {o : NodeHandle}, tree.resolve top = .ok (some o) →
    Path.covers top path → Path.covers top node.path

theorem Policy.isSegment_nodeName : Path.IsSegment nodeName := ⟨by decide, by decide⟩

namespace Store

open Policy

variable {s : Store} {x y : NodeId} {ks js ms : List String} {path : String}

theorem WellFormed.policyAt_iff (wf : s.WellFormed) : PolicyAt (s.view .initial) path ↔
    ∃ ks y, path = Path.ofNames ks ∧ (∀ k ∈ ks, Path.IsSegment k) ∧
      s.Stands (ks ++ [nodeName]) y ∧ s.IsList y := by
  have names {ks : List String} (hks : ∀ k ∈ ks, Path.IsSegment k) :
      ∀ k ∈ ks ++ [nodeName], Path.IsSegment k := by
    simpa [or_imp, forall_and] using ⟨hks, isSegment_nodeName⟩
  constructor
  case mp =>
    rintro ⟨valid, policy, hr, hl⟩
    obtain ⟨ks, hks, rfl⟩ := Path.exists_names_of_validate valid
    rw [Path.join_ofNames hks, wf.view_resolve_iff (names hks)] at hr
    obtain ⟨n, hn⟩ := wf.mem_of_stands hr.1
    rw [view_isType hn, Except.ok.injEq, decide_eq_true_iff] at hl
    exact ⟨ks, policy.id, rfl, hks, hr.1, hl⟩
  case mpr =>
    rintro ⟨ks, y, rfl, hks, hy, hl⟩
    obtain ⟨n, hn⟩ := wf.mem_of_stands hy
    refine ⟨Path.validate_ofNames hks, ⟨y, Path.ofNames (ks ++ [nodeName])⟩, ?_, ?_⟩
    · rw [Path.join_ofNames hks, wf.view_resolve_iff (names hks)]
      exact ⟨hy, rfl⟩
    · rw [view_isType (o := ⟨y, _⟩) hn, Except.ok.injEq, decide_eq_true_iff]
      exact hl

namespace InPlace

variable (h : s.InPlace) (wf : s.WellFormed)

include h wf

-- On the way to access control content there is a policy.
theorem exists_list_of_content (hs : s.Stands ms x) (hc : s.IsContent x) :
    ∃ ks y, ks ++ [nodeName] <+: ms ∧ s.Stands (ks ++ [nodeName]) y ∧ s.IsList y := by
  rcases hc with hl | he
  · obtain ⟨ks, o, n, hks, _, hn, ho, hname⟩ := h.stands_list wf hl
    have stands : s.Stands (ks ++ [nodeName]) x := hname ▸ .child hks ho hn
    obtain rfl := wf.stands_unique hs stands
    exact ⟨ks, x, List.prefix_refl _, hs, hl⟩
  · obtain ⟨ks, p, n, hps, hl, hn, hp, _⟩ := h.stands_entry wf he
    obtain rfl := wf.stands_unique hs (.child hps hp hn)
    exact ⟨ks, p, List.prefix_append .., hps, hl⟩

variable (un : s.Unnested) (hy : s.Stands (ks ++ [nodeName]) y) (hl : s.IsList y)

include un hy hl

-- Below a policy there is no other one, since its owner would be below the first.
theorem eq_of_list_below (hs : s.Stands (js ++ [nodeName]) x) (hl' : s.IsList x)
    (hp : ks ++ [nodeName] <+: js ++ [nodeName]) : ks = js := by
  rcases List.prefix_concat_iff.1 hp with same | above
  · exact (List.append_inj' same rfl).1
  · obtain ⟨js', o, n, ho, controlled, hn, parent, hname⟩ := h.stands_list wf hl'
    have stands : s.Stands (js' ++ [nodeName]) x := hname ▸ .child ho parent hn
    obtain rfl := (List.append_inj' (wf.stands_unique hs stands) rfl).1
    exact absurd controlled (un o (h.content_below wf hy ho above (.inl hl)))

-- Whatever stands at or below a policy is governed by the owner of the policy.
theorem governedFrom_below (hs : s.Stands ms x) (hp : ks ++ [nodeName] <+: ms) :
    s.IsContent x ∧ s.governedFrom x ms = ks := by
  have hc := h.content_below wf hy hs hp (.inl hl)
  refine ⟨hc, ?_⟩
  rcases hc with hl' | he
  · obtain ⟨js, o, n, ho, _, hn, parent, hname⟩ := h.stands_list wf hl'
    have stands : s.Stands (js ++ [nodeName]) x := hname ▸ .child ho parent hn
    obtain rfl := wf.stands_unique hs stands
    rw [governedFrom, if_pos hl', List.dropLast_concat, h.eq_of_list_below wf un hy hl hs hl' hp]
  · obtain ⟨js, p, n, hps, hpl, hn, parent, hname⟩ := h.stands_entry wf he
    obtain rfl := wf.stands_unique hs (.child hps parent hn)
    have above : ks ++ [nodeName] <+: js ++ [nodeName] :=
      (List.prefix_concat_iff.1 hp).resolve_left fun same =>
        hname (List.singleton_inj.1 (List.append_inj' same rfl).2).symm
    rw [governedFrom, if_neg fun hl' => h.list_not_entry hl' he, if_pos he, List.dropLast_concat,
      List.dropLast_concat, h.eq_of_list_below wf un hy hl hps hpl above]

omit hy hl

-- Every path is governed.
theorem exists_governor (valid : Path.validate path = .ok ()) :
    ∃ node isPolicyItem, governor (s.view .initial) path = .ok (node, isPolicyItem) ∧
      (∀ owner, LeadsInto (s.view .initial) owner path →
        (s.view .initial).resolve owner = .ok (some node) ∧ isPolicyItem = true) ∧
      ((∀ owner, ¬LeadsInto (s.view .initial) owner path) →
        isPolicyItem = false ∧ Deepest (s.view .initial) path node) := by
  obtain ⟨ns, hns, rfl⟩ := Path.exists_names_of_validate valid
  obtain ⟨ms, x, hl⟩ := exists_locates s ns
  obtain ⟨g, hg, leads⟩ := h.leads_eq wf hns hl
  have hms : ∀ m ∈ ms, Path.IsSegment m := wf.isSegment_of_stands hl.stands
  refine ⟨_, _, leads, fun owner into => ?_, fun none => ?_⟩
  · obtain ⟨policyAt, covers⟩ := into
    obtain ⟨ks, y, rfl, hks, hy, list⟩ := wf.policyAt_iff.1 policyAt
    rw [Path.join_ofNames hks, Path.covers_ofNames (wf.isSegment_of_stands hy) hns] at covers
    have above := List.prefix_of_prefix_length_le covers hl.onWay (hl.closest covers hy)
    obtain ⟨content, owned⟩ := h.governedFrom_below wf un hy list hl.stands above
    rw [owned] at hg ⊢
    exact ⟨(wf.view_resolve_iff hks).2 ⟨hg, rfl⟩, decide_eq_true content⟩
  · have outside : ¬s.IsContent x := by
      intro content
      obtain ⟨ks, y, above, hy, list⟩ := h.exists_list_of_content wf hl.stands content
      have hks : ∀ k ∈ ks, Path.IsSegment k := fun k hk =>
        wf.isSegment_of_stands hy k (List.mem_append_left _ hk)
      refine none (Path.ofNames ks) ⟨wf.policyAt_iff.2 ⟨ks, y, rfl, hks, hy, list⟩, ?_⟩
      rw [Path.join_ofNames hks, Path.covers_ofNames (wf.isSegment_of_stands hy) hns]
      exact above.trans hl.onWay
    rw [governedFrom_of_not_content outside] at hg ⊢
    refine ⟨decide_eq_false outside, (wf.view_resolve_iff hms).2 ⟨hg, rfl⟩,
      (Path.covers_ofNames hms hns).2 hl.onWay, fun {top o} hr covers => ?_⟩
    obtain ⟨_, ks, hs, rfl⟩ := wf.of_resolve hr
    have hks := wf.isSegment_of_stands hs
    rw [Path.covers_ofNames hks hns] at covers
    exact (Path.covers_ofNames hks hms).2
      (List.prefix_of_prefix_length_le covers hl.onWay (hl.closest covers hs))

end InPlace

end Store

end PolicyTree
