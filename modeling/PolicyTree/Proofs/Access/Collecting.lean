import PolicyTree.Proofs.Policy.Content
import PolicyTree.Proofs.Tree.Locating

namespace PolicyTree

namespace Store

variable {s : Store} {t : NodeTypes} {r : Registry} {ps : PrincipalSet} {ns ms : List String}
  {id : NodeId} {o : NodeHandle} {name : String}

def at? (s : Store) (ns : List String) : Option NodeHandle :=
  (ns.foldlM s.child? s.root).bind s.handle?

def levelAt (s : Store) (t : NodeTypes) (r : Registry) (ps : PrincipalSet) (ns : List String) :
    Except AccessError (List Entry) :=
  match s.at? ns with
  | some o => Collection.level (s.view t) r ps o
  | none => .ok []

def entriesAlong (s : Store) (t : NodeTypes) (r : Registry) (ps : PrincipalSet)
    (ns : List String) : Except AccessError (List Entry) :=
  Collection.byPrincipal ps <$> ns.inits.reverse.mapM (s.levelAt t r ps)

theorem byPrincipal_nil_cons {levels : List (List Entry)} :
    Collection.byPrincipal ps ([] :: levels) = Collection.byPrincipal ps levels := by
  simp [Collection.byPrincipal]

namespace WellFormed

variable (h : s.WellFormed)

include h

theorem at_eq_some_iff : s.at? ns = some o ↔ s.Stands ns o.id ∧ o.path = Path.ofNames ns := by
  rw [at?, Option.bind_eq_some_iff]
  constructor
  case mp =>
    rintro ⟨id, hid, ho⟩
    obtain ⟨rfl, ms, hs, hp⟩ := h.handle_eq_some_iff.1 ho
    have hns := h.foldlM_child_iff.1 hid
    exact ⟨hns, h.stands_unique hs hns ▸ hp⟩
  case mpr =>
    rintro ⟨hs, hp⟩
    exact ⟨o.id, h.foldlM_child_iff.2 hs, h.handle_eq_some_iff.2 ⟨rfl, ns, hs, hp⟩⟩

theorem levelAt_of_stands (hs : s.Stands ns id) : s.levelAt t r ps ns =
    Collection.level (s.view t) r ps ⟨id, Path.ofNames ns⟩ := by
  rw [levelAt, (h.at_eq_some_iff (o := ⟨id, Path.ofNames ns⟩)).2 ⟨hs, rfl⟩]

-- A node without a policy adds nothing.
theorem levelAt_of_no_policy (hs : s.Stands ns id) (hp : s.policyOf? t id = none) :
    s.levelAt t r ps ns = .ok [] := by
  have ⟨n, hn⟩ := h.mem_of_stands hs
  have none := Policy.load_eq (t := t) (r := r) (o := ⟨id, Path.ofNames ns⟩) h hn
  rw [h.levelAt_of_stands hs, Collection.level, none, hp]
  rfl

theorem levelAt_of_not_stands (hn : ∀ x, ¬s.Stands ns x) : s.levelAt t r ps ns = .ok [] := by
  rw [levelAt]
  cases ha : s.at? ns
  case none   => rfl
  case some o => exact absurd (h.at_eq_some_iff.1 ha).1 (hn o.id)

theorem levels_go_eq (hs : s.Stands ns id) (k : Nat) (hk : ns.length < k) :
    Collection.levels.go (s.view t) r ps k ⟨id, Path.ofNames ns⟩ =
      ns.inits.reverse.mapM (s.levelAt t r ps) := by
  induction hs generalizing k
  case root =>
    have ⟨n, hn, hp⟩ := h.root
    cases k
    case zero => simp at hk
    case succ k =>
      have up := view_parent_root (t := t) (o := ⟨s.root, Path.ofNames []⟩) hn hp
      have own : s.levelAt t r ps [] = _ := h.levelAt_of_stands .root
      show _ = [[]].mapM (s.levelAt t r ps)
      rw [List.mapM_cons, own, Collection.levels.go, up]
      rfl
  case child ns p id n above hp hn hi =>
    cases k
    case zero => simp at hk
    case succ k =>
      have up := h.view_parent (t := t) (o := ⟨id, Path.ofNames (ns ++ [n.name])⟩) hn hp
        above
      have own : s.levelAt t r ps (ns ++ [n.name]) = _ :=
        h.levelAt_of_stands (.child above hp hn)
      have rest := hi k (by simpa using hk)
      rw [Path.inits_concat, List.reverse_append, List.reverse_singleton, List.singleton_append,
        List.mapM_cons, own, ← rest, Collection.levels.go, up]
      rfl

theorem collect_eq_of_stands (hs : s.Stands ns id) :
    collect (s.view t) r ps ⟨id, Path.ofNames ns⟩ = s.entriesAlong t r ps ns := by
  have height : ns.length < (s.view t).height := Nat.lt_succ_of_lt (h.length_lt_size hs)
  rw [collect, Collection.levels, h.levels_go_eq hs _ height, entriesAlong]
  exact bind_pure_comp ..

theorem entriesAlong_of_locates (hl : Locates s ns ms id) :
    s.entriesAlong t r ps ns = s.entriesAlong t r ps ms := by
  induction ns using List.reverseRecOn
  case nil =>
    rw [List.prefix_nil.1 hl.onWay]
  case append_singleton ns n hi =>
    by_cases hs : ∃ x, s.Stands (ns ++ [n]) x
    case pos =>
      have ⟨x, hx⟩ := hs
      rw [(h.locates_unique hl (.of_stands hx)).1]
    case neg =>
      have hn (x : NodeId) : ¬s.Stands (ns ++ [n]) x := fun hx => hs ⟨x, hx⟩
      rw [← hi ((Locates.concat_iff hn).1 hl)]
      rw [entriesAlong, Path.inits_concat, List.reverse_append, List.reverse_singleton,
        List.singleton_append, List.mapM_cons, h.levelAt_of_not_stands hn, entriesAlong]
      cases ns.inits.reverse.mapM (s.levelAt t r ps)
      case error e  => rfl
      case ok found => exact congrArg Except.ok byPrincipal_nil_cons

end WellFormed

end Store

end PolicyTree
