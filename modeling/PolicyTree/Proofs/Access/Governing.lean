import PolicyTree.Proofs.Policy.Quiet

namespace PolicyTree

section

variable {tree : TreeView} {node parent : NodeHandle} {isList isEntry : Bool} {k : Nat}

theorem ownerAbove_succ (hp : tree.parent node = .ok (some parent)) :
    ownerAbove tree (k + 1) node = ownerAbove tree k parent := by
  rw [ownerAbove, hp]
  rfl

theorem governing_of_isType (hl : tree.isType node Policy.listType = .ok isList)
    (he : tree.isType node Policy.entryType = .ok isEntry) : governing tree node =
      if isList then (·, true) <$> ownerAbove tree 1 node
      else if isEntry then (·, true) <$> ownerAbove tree 2 node
      else .ok (node, false) := by
  rw [governing, hl, he]
  cases isList
  case true => exact bind_pure_comp (fun o => (o, true)) (ownerAbove tree 1 node)
  case false =>
    cases isEntry
    case true  => exact bind_pure_comp (fun o => (o, true)) (ownerAbove tree 2 node)
    case false => rfl

end

section

variable {s : Store} {t : NodeTypes} {o g : NodeHandle} {n : Node} {isPolicyItem : Bool} {k : Nat}

theorem Store.handle_of_ownerAbove (ho : s.handle? o.id = some o)
    (hg : ownerAbove (s.view t) k o = .ok g) : s.handle? g.id = some g := by
  induction k generalizing o
  case zero => exact Except.ok.inj hg ▸ ho
  case succ k hi =>
    obtain ⟨up, hp, hg⟩ := bind_eq_ok_iff.1 hg
    cases up
    case none    => exact nomatch hg
    case some up => exact hi (Store.handle_of_parent (liftM_tree_eq_ok_iff.1 hp)) hg

theorem Store.handle_of_governing (hn : s.nodes[o.id]? = some n) (ho : s.handle? o.id = some o)
    (hg : governing (s.view t) o = .ok (g, isPolicyItem)) : s.handle? g.id = some g := by
  have above {k : Nat} (hg : (·, true) <$> ownerAbove (s.view t) k o = .ok (g, isPolicyItem)) :
      s.handle? g.id = some g := by
    obtain ⟨_, hg, he⟩ := map_eq_ok_iff.1 hg
    exact (Prod.mk.inj he).1 ▸ handle_of_ownerAbove ho hg
  rw [governing_of_isType (view_isType hn) (view_isType hn)] at hg
  split_ifs at hg
  · exact above hg
  · exact above hg
  · exact (Prod.mk.inj (Except.ok.inj hg)).1 ▸ ho

end

-- With these entries it is decided on a path, as on this item.
def Deems (tree : TreeView) (r : Registry) (ps : PrincipalSet) (path : String) (es : List Entry)
    (i : Item) : Prop :=
  ∃ node isPolicyItem, (locate tree path >>= governing tree) = .ok (node, isPolicyItem) ∧
    collect tree r ps node = .ok es ∧ i = ⟨path, node.id, isPolicyItem⟩

namespace Store

variable {s base next : Store} {x y : NodeId} {ms ns : List String} {r : Registry}
  {ps : PrincipalSet} {es : List Entry} {i : Item} {path : String}

-- The way to the node that governs the one at the end of a way.
def governedFrom (s : Store) (x : NodeId) (ms : List String) : List String :=
  if s.IsList x then ms.dropLast else if s.IsEntry x then ms.dropLast.dropLast else ms

theorem governedFrom_of_not_content (hc : ¬s.IsContent x) : s.governedFrom x ms = ms := by
  obtain ⟨hl, he⟩ := not_or.1 hc
  rw [governedFrom, if_neg hl, if_neg he]

namespace InPlace

variable (h : s.InPlace) (wf : s.WellFormed)

include h wf

theorem content_below (hs : s.Stands ms x) (hs' : s.Stands ns y) (hp : ms <+: ns)
    (hc : s.IsContent x) : s.IsContent y := by
  induction hs'
  case root =>
    obtain rfl := List.prefix_nil.1 hp
    exact stands_nil_iff.1 hs ▸ hc
  case child above hparent hn hi =>
    rcases List.prefix_concat_iff.1 hp with rfl | hp
    · exact wf.stands_inj hs (.child above hparent hn) ▸ hc
    · exact (h.placed hn).below _ hparent (hi hp)

theorem governing_eq (hs : s.Stands ms x) : ∃ g, s.Stands (s.governedFrom x ms) g ∧
    governing (s.view .initial) ⟨x, Path.ofNames ms⟩ =
      .ok (⟨g, Path.ofNames (s.governedFrom x ms)⟩, s.IsContent x) := by
  obtain ⟨n, hn⟩ := wf.mem_of_stands hs
  have list : (s.view .initial).isType ⟨x, Path.ofNames ms⟩ Policy.listType =
      .ok (decide (s.IsList x)) := view_isType hn
  have entry : (s.view .initial).isType ⟨x, Path.ofNames ms⟩ Policy.entryType =
      .ok (decide (s.IsEntry x)) := view_isType hn
  have governing := governing_of_isType list entry
  by_cases hl : s.IsList x
  case pos =>
    obtain ⟨ks, o, n', hks, _, hn', ho, _⟩ := h.stands_list wf hl
    obtain rfl := wf.stands_unique (.child hks ho hn') hs
    refine ⟨o, by simpa [governedFrom, hl] using hks, ?_⟩
    rw [governing, ownerAbove_succ (wf.view_parent hn' ho hks)]
    simp [hl, ownerAbove, governedFrom, IsContent]
  case neg =>
    by_cases he : s.IsEntry x
    case neg =>
      refine ⟨x, by simpa [governedFrom, hl, he] using hs, ?_⟩
      rw [governing]
      simp [hl, he, governedFrom, IsContent]
    case pos =>
      obtain ⟨_, p, n', _, hpl, hn', hp, _⟩ := h.stands_entry wf he
      obtain ⟨ks, o, pn, hks, _, hpn, ho, _⟩ := h.stands_list wf hpl
      obtain rfl := wf.stands_unique (.child (.child hks ho hpn) hp hn') hs
      refine ⟨o, by simpa [governedFrom, hl, he] using hks, ?_⟩
      rw [governing, ownerAbove_succ (k := 1) (wf.view_parent hn' hp (.child hks ho hpn)),
        ownerAbove_succ (wf.view_parent (o := ⟨p, _⟩) hpn ho hks)]
      simp [hl, he, ownerAbove, governedFrom, IsContent]

theorem leads_eq (hv : ∀ n ∈ ns, Path.IsSegment n) (hl : Locates s ns ms x) :
    ∃ g, s.Stands (s.governedFrom x ms) g ∧
      (locate (s.view .initial) (Path.ofNames ns) >>= governing (s.view .initial)) =
        .ok (⟨g, Path.ofNames (s.governedFrom x ms)⟩, s.IsContent x) := by
  rw [wf.locate_eq hv hl]
  exact h.governing_eq wf hl.stands

theorem deems_iff (hv : ∀ n ∈ ns, Path.IsSegment n) (hl : Locates s ns ms x) :
    Deems (s.view .initial) r ps (Path.ofNames ns) es i ↔
      s.entriesAlong .initial r ps (s.governedFrom x ms) = .ok es ∧
      ∃ g, s.Stands (s.governedFrom x ms) g ∧ i = ⟨Path.ofNames ns, g, s.IsContent x⟩ := by
  have ⟨g, hg, leads⟩ := h.leads_eq wf hv hl
  rw [Deems, leads, ← wf.collect_eq_of_stands hg]
  constructor
  case mp =>
    rintro ⟨_, _, hn, he, rfl⟩
    obtain ⟨rfl, rfl⟩ := Prod.mk.inj (Except.ok.inj hn)
    exact ⟨he, g, hg, rfl⟩
  case mpr =>
    rintro ⟨he, g', hg', rfl⟩
    obtain rfl := wf.stands_inj hg hg'
    exact ⟨_, _, rfl, he, rfl⟩

end InPlace

namespace Quiet

variable (h : Quiet base next)

include h

-- A path that leads to content goes on to do so, and one that does not will not.
theorem locates_of_content (hl : Locates base ns ms x) (hc : base.IsContent x) :
    Locates next ns ms x := by
  have hs := h.stands_of_content hc hl.stands
  refine ⟨hl.onWay, hs, fun {ks y} hk hy => ?_⟩
  by_contra hlt
  have hp := List.prefix_of_prefix_length_le hl.onWay hk (Nat.le_of_not_le hlt)
  have hyc := h.content_iff.1 <|
    h.placed'.content_below h.after hs hy hp (h.content_iff.2 hc)
  have ⟨_, hb⟩ := hyc.exists
  exact hlt (hl.closest hk (h.follows.stands_before h.before h.after hy hb))

theorem content_of_locates {ms' : List String} {x' : NodeId} (hl : Locates base ns ms x)
    (hl' : Locates next ns ms' x') : next.IsContent x' ↔ base.IsContent x := by
  constructor
  case mpr =>
    intro hc
    obtain ⟨_, rfl⟩ := h.after.locates_unique (h.locates_of_content hl hc) hl'
    exact h.content_iff.2 hc
  case mp =>
    intro hc
    have hc := h.content_iff.1 hc
    have ⟨_, hb⟩ := hc.exists
    have hs := h.follows.stands_before h.before h.after hl'.stands hb
    have hp := List.prefix_of_prefix_length_le hl'.onWay hl.onWay (hl.closest hl'.onWay hs)
    exact h.placed.content_below h.before hs hl.stands hp hc

theorem deems (hd : Deems (base.view .initial) r ps path es i) :
    ∃ g, Deems (next.view .initial) r ps path es { i with node := g } := by
  cases valid : Path.validate path
  case error e =>
    obtain ⟨_, _, hn, _⟩ := hd
    simp [locate_invalid valid, bind, Except.bind] at hn
  case ok =>
    obtain ⟨ns, hv, rfl⟩ := Path.exists_names_of_validate valid
    have ⟨ms, x, hl⟩ := exists_locates base ns
    have ⟨ms', x', hl'⟩ := exists_locates next ns
    obtain ⟨he, g, hg, rfl⟩ := (h.placed.deems_iff h.before hv hl).1 hd
    have ⟨g', hg', _⟩ := h.placed'.governing_eq h.after hl'.stands
    refine ⟨g', (h.placed'.deems_iff h.after hv hl').2 ⟨?_, g', hg', ?_⟩⟩
    · rw [h.entriesAlong_eq, ← he]
      by_cases hc : base.IsContent x
      case pos =>
        obtain ⟨rfl, rfl⟩ := h.after.locates_unique (h.locates_of_content hl hc) hl'
        simp [governedFrom, h.list_iff, h.entry_iff]
      case neg =>
        have hc' := (h.content_of_locates hl hl').not.2 hc
        rw [governedFrom_of_not_content hc, governedFrom_of_not_content hc',
          ← h.before.entriesAlong_of_locates hl, ← h.entriesAlong_eq, ← h.entriesAlong_eq,
          h.after.entriesAlong_of_locates hl']
    · simp [h.content_of_locates hl hl']

-- What is collected at a node that is kept does not change either.
theorem collect_eq (hs : base.Stands ns x) (hs' : next.Stands ns x) :
    collect (next.view .initial) r ps ⟨x, Path.ofNames ns⟩ =
      collect (base.view .initial) r ps ⟨x, Path.ofNames ns⟩ := by
  rw [h.after.collect_eq_of_stands hs', h.before.collect_eq_of_stands hs, h.entriesAlong_eq]

end Quiet

end Store

end PolicyTree
